import HandOfMidas.IbSim.Views
import Mathlib.Data.Rat.Floor

/-! The fill model over a sequence of looks at the market: a limit is kept, and met by the first
    look that can, and a stop waits for its price. -/

namespace Midas.IbSim

/-! ### Rounding -/

/-- Rounding does not go past a whole number. -/
theorem roundHalfAway_le {x : ℚ} {n : ℤ} (h : x ≤ n) : roundHalfAway x ≤ n := by
  unfold roundHalfAway
  split
  · have hfloor : -n ≤ ⌊-x + 1 / 2⌋ := by
      rw [Int.le_floor]
      push_cast
      linarith
    omega
  · rw [← Int.lt_add_one_iff, Int.floor_lt]
    push_cast
    linarith

theorem le_roundHalfAway {x : ℚ} {n : ℤ} (h : (n : ℚ) ≤ x) : n ≤ roundHalfAway x := by
  unfold roundHalfAway
  split
  · have hfloor : ⌊-x + 1 / 2⌋ < -n + 1 := by
      rw [Int.floor_lt]
      push_cast
      linarith
    omega
  · rw [Int.le_floor]
    linarith

/-- A price of whole cents. -/
def WholeCents (price : ℚ) : Prop := ∃ n : ℤ, price = n / 100

theorem roundToCent_le {p limit : ℚ} (hlimit : WholeCents limit) (h : p ≤ limit) :
    roundToCent p ≤ limit := by
  obtain ⟨n, rfl⟩ := hlimit
  have hround : roundHalfAway (p * 100) ≤ n := by
    refine roundHalfAway_le ?_
    linarith
  rw [roundToCent, div_le_div_iff_of_pos_right (by norm_num)]
  exact_mod_cast hround

theorem le_roundToCent {p limit : ℚ} (hlimit : WholeCents limit) (h : limit ≤ p) :
    limit ≤ roundToCent p := by
  obtain ⟨n, rfl⟩ := hlimit
  have hround : n ≤ roundHalfAway (p * 100) := by
    refine le_roundHalfAway ?_
    linarith
  rw [roundToCent, div_le_div_iff_of_pos_right (by norm_num)]
  exact_mod_cast hround

namespace OrderRecord

/-! ### One look -/

section
variable (o : OrderRecord) (snap : MarketSnapshot)

/-- The ask, or for a sale the bid, meets the limit. -/
def Meets : Prop :=
  ∃ limit, o.limitPrice = some limit ∧
    match o.side with
    | .buy => snap.ask ≤ limit
    | .sell => limit ≤ snap.bid

/-- The mid has reached the stop price. -/
def Reached : Prop :=
  ∃ stop, o.auxPrice = some stop ∧ IbSim.stopTriggered o.side stop snap.mid = true

/-- The kinds that wait for a stop price. -/
def HasStop : Prop := o.kind = .stop ∨ o.kind = .stopLimit

/-- The kinds that have a limit. -/
def HasLimit : Prop := o.kind = .limit ∨ o.kind = .stopLimit

theorem isSome_limitCross : (o.limitCross snap.bid snap.ask).isSome ↔ o.Meets snap := by
  unfold limitCross Meets
  cases o.limitPrice with
  | none => simp
  | some limit => cases o.side <;> simp

theorem armStop_of_triggered (h : o.stopTriggered = true ∨ o.Reached snap) :
    o.armStop snap.mid = some { o with stopTriggered := true } := by
  unfold armStop
  by_cases hold : o.stopTriggered = true
  · rw [if_pos hold, ← hold]
  · obtain ⟨stop, haux, hreached⟩ := h.resolve_left hold
    simp [hold, haux, hreached]

theorem armStop_of_not_triggered (h : ¬(o.stopTriggered = true ∨ o.Reached snap)) :
    o.armStop snap.mid = none := by
  obtain ⟨hold, hreached⟩ := not_or.mp h
  unfold armStop
  rw [if_neg hold, Option.bind_eq_none_iff]
  intro stop haux
  rw [if_neg]
  intro hstop
  exact hreached ⟨stop, haux, hstop⟩

variable (slippage : SlippageKind)

/-- The stop flag is set by a look that reaches the stop price, and is never taken back. -/
theorem stopTriggered_seen : (o.seen snap slippage).stopTriggered = true ↔
    o.stopTriggered = true ∨ o.HasStop ∧ o.Reached snap := by
  unfold seen maybeFill fillPrice HasStop
  by_cases h : o.stopTriggered = true ∨ o.Reached snap
  · rw [o.armStop_of_triggered snap h]
    cases hkind : o.kind <;> simp [h]
  · rw [o.armStop_of_not_triggered snap h]
    obtain ⟨hold, hreached⟩ := not_or.mp h
    cases hkind : o.kind <;> simp [hold, hreached]

/-- When a look fills, by kind. -/
theorem isSome_fillIn : (o.fillIn snap slippage).isSome ↔
    (o.HasStop → o.stopTriggered = true ∨ o.Reached snap) ∧ (o.HasLimit → o.Meets snap) := by
  have hmeets := o.isSome_limitCross snap
  unfold fillIn maybeFill fillPrice HasStop HasLimit
  by_cases h : o.stopTriggered = true ∨ o.Reached snap
  · rw [o.armStop_of_triggered snap h]
    have hsame : ∀ kind, ({ o with kind := kind, stopTriggered := true } : OrderRecord).limitCross
        snap.bid snap.ask = o.limitCross snap.bid snap.ask := fun _ => rfl
    cases hkind : o.kind <;> simp [h, hmeets, hsame]
  · rw [o.armStop_of_not_triggered snap h]
    cases hkind : o.kind <;> simp [h, hmeets]

/-- A fill at a limit keeps it, rounded to the cent. -/
theorem price_fillIn {fill : Fill} {limit : ℚ} (hkind : o.HasLimit) (hlimit : o.limitPrice = some limit)
    (hcents : WholeCents limit) (h : o.fillIn snap slippage = some fill) :
    match o.side with
    | .buy => fill.price ≤ limit
    | .sell => limit ≤ fill.price := by
  have hcross : ∃ p, o.limitCross snap.bid snap.ask = some p ∧ fill.price = roundToCent p := by
    unfold fillIn maybeFill fillPrice at h
    rcases hkind with hkind | hkind
    · simp only [hkind, Option.map_eq_some_iff] at h
      obtain ⟨p, hp, rfl⟩ := h
      exact ⟨p, hp, rfl⟩
    · by_cases htrig : o.stopTriggered = true ∨ o.Reached snap
      · rw [o.armStop_of_triggered snap htrig] at h
        simp only [hkind, Option.map_eq_some_iff] at h
        obtain ⟨p, hp, rfl⟩ := h
        exact ⟨p, hp, rfl⟩
      · rw [o.armStop_of_not_triggered snap htrig] at h
        simp [hkind] at h
  obtain ⟨p, hp, hprice⟩ := hcross
  unfold limitCross at hp
  rw [hlimit, Option.bind_some] at hp
  rw [hprice]
  cases hside : o.side with
  | buy =>
    simp only [hside] at hp ⊢
    split at hp
    · cases hp
      exact roundToCent_le hcents (min_le_left _ _)
    · cases hp
  | sell =>
    simp only [hside] at hp ⊢
    split at hp
    · cases hp
      exact le_roundToCent hcents (le_max_left _ _)
    · cases hp

end

/-! ### A sequence of looks -/

section
variable (slippage : SlippageKind) (o : OrderRecord) (snaps : List MarketSnapshot)

/-- The record after these looks. -/
def afterLooks : OrderRecord := snaps.foldl (fun o snap => o.seen snap slippage) o

/-- What the look number `i` fills. -/
def fillAt (i : ℕ) : Option Fill :=
  snaps[i]?.bind fun snap => (o.afterLooks slippage (snaps.take i)).fillIn snap slippage

/-- The first fill is that of the look number `i`. -/
def FillsFirst (i : ℕ) : Prop :=
  (o.fillAt slippage snaps i).isSome ∧ ∀ j < i, o.fillAt slippage snaps j = none

def MeetsAt (i : ℕ) : Prop := ∃ snap, snaps[i]? = some snap ∧ o.Meets snap

def ReachedAt (i : ℕ) : Prop := ∃ snap, snaps[i]? = some snap ∧ o.Reached snap

/-- Some look up to the number `i` has reached the stop price. -/
def TriggeredBy (i : ℕ) : Prop := ∃ k ≤ i, o.ReachedAt snaps k

theorem afterLooks_eq : o.afterLooks slippage snaps =
    { o with stopTriggered := (o.afterLooks slippage snaps).stopTriggered } := by
  induction snaps using List.reverseRecOn with
  | nil => rfl
  | append_singleton snaps snap ih =>
    have hconcat : o.afterLooks slippage (snaps ++ [snap]) =
        (o.afterLooks slippage snaps).seen snap slippage := by
      simp [afterLooks]
    rw [hconcat, seen_eq, ih]

theorem stopTriggered_afterLooks : (o.afterLooks slippage snaps).stopTriggered = true ↔
    o.stopTriggered = true ∨ o.HasStop ∧ ∃ snap ∈ snaps, o.Reached snap := by
  induction snaps using List.reverseRecOn with
  | nil => simp [afterLooks]
  | append_singleton snaps snap ih =>
    have hconcat : o.afterLooks slippage (snaps ++ [snap]) =
        (o.afterLooks slippage snaps).seen snap slippage := by
      simp [afterLooks]
    have hstop : (o.afterLooks slippage snaps).HasStop ↔ o.HasStop := by
      rw [afterLooks_eq]
      rfl
    have hreached : (o.afterLooks slippage snaps).Reached snap ↔ o.Reached snap := by
      rw [afterLooks_eq]
      rfl
    rw [hconcat, stopTriggered_seen, ih, hstop, hreached]
    simp only [List.mem_append, List.mem_singleton]
    constructor
    · rintro ((hold | ⟨hkind, s, hs, hs'⟩) | ⟨hkind, hs'⟩)
      · exact .inl hold
      · exact .inr ⟨hkind, s, .inl hs, hs'⟩
      · exact .inr ⟨hkind, snap, .inr rfl, hs'⟩
    · rintro (hold | ⟨hkind, s, hs | rfl, hs'⟩)
      · exact .inl (.inl hold)
      · exact .inl (.inr ⟨hkind, s, hs, hs'⟩)
      · exact .inr ⟨hkind, hs'⟩

variable {slippage o snaps}

/-- When the look number `i` fills a new order. -/
theorem isSome_fillAt (hnew : o.stopTriggered = false) (i : ℕ) : (o.fillAt slippage snaps i).isSome ↔
    i < snaps.length ∧ (o.HasStop → o.TriggeredBy snaps i) ∧ (o.HasLimit → o.MeetsAt snaps i) := by
  unfold fillAt
  rcases Nat.lt_or_ge i snaps.length with hlt | hge
  · rw [List.getElem?_eq_getElem hlt, Option.bind_some, isSome_fillIn, stopTriggered_afterLooks]
    have hsame := o.afterLooks_eq slippage (snaps.take i)
    have hstop : (o.afterLooks slippage (snaps.take i)).HasStop ↔ o.HasStop := by rw [hsame]; rfl
    have hlimit : (o.afterLooks slippage (snaps.take i)).HasLimit ↔ o.HasLimit := by rw [hsame]; rfl
    have hreached : (o.afterLooks slippage (snaps.take i)).Reached snaps[i] ↔ o.Reached snaps[i] := by
      rw [hsame]; rfl
    have hmeets : (o.afterLooks slippage (snaps.take i)).Meets snaps[i] ↔ o.MeetsAt snaps i := by
      rw [hsame]
      simp [MeetsAt, List.getElem?_eq_getElem hlt, Meets]
    have htriggered : (∃ snap ∈ snaps.take i, o.Reached snap) ∨ o.Reached snaps[i] ↔
        o.TriggeredBy snaps i := by
      constructor
      · rintro (⟨snap, hsnap, hr⟩ | hr)
        · obtain ⟨k, hk, hget⟩ := List.mem_take_iff_getElem.mp hsnap
          exact ⟨k, by omega, snap, by rw [List.getElem?_eq_getElem (by omega), hget], hr⟩
        · exact ⟨i, le_refl i, snaps[i], List.getElem?_eq_getElem hlt, hr⟩
      · rintro ⟨k, hk, snap, hget, hr⟩
        rcases Nat.lt_or_eq_of_le hk with hk | rfl
        · refine .inl ⟨snap, List.mem_take_iff_getElem.mpr ⟨k, by omega, ?_⟩, hr⟩
          rw [List.getElem_eq_iff]
          exact hget
        · rw [List.getElem?_eq_getElem hlt] at hget
          exact .inr (Option.some.inj hget ▸ hr)
    rw [hstop, hlimit, hreached, hmeets, hnew]
    constructor
    · rintro ⟨htrig, hmeet⟩
      refine ⟨hlt, ?_, hmeet⟩
      intro hkind
      refine htriggered.mp ?_
      simpa [hkind] using htrig hkind
    · rintro ⟨-, htrig, hmeet⟩
      refine ⟨?_, hmeet⟩
      intro hkind
      simpa [hkind] using htriggered.mpr (htrig hkind)
  · rw [List.getElem?_eq_none hge]
    simp [not_lt.mpr hge]

theorem MeetsAt.lt {i : ℕ} (h : o.MeetsAt snaps i) : i < snaps.length := by
  obtain ⟨snap, hget, -⟩ := h
  exact (List.getElem?_eq_some_iff.mp hget).1

theorem ReachedAt.lt {i : ℕ} (h : o.ReachedAt snaps i) : i < snaps.length := by
  obtain ⟨snap, hget, -⟩ := h
  exact (List.getElem?_eq_some_iff.mp hget).1

/-- The first fill is that of the first look that can fill. -/
theorem fillsFirst_iff {i : ℕ} {P : ℕ → Prop} (h : ∀ j, (o.fillAt slippage snaps j).isSome ↔ P j) :
    o.FillsFirst slippage snaps i ↔ P i ∧ ∀ j < i, ¬P j := by
  unfold FillsFirst
  rw [h]
  refine and_congr_right fun _ => forall_congr' fun j => imp_congr_right fun _ => ?_
  rw [← h, Option.not_isSome_iff_eq_none]

end

/-- What an order may trust the fill model in. -/
structure Honest (slippage : SlippageKind) (o : OrderRecord) (snaps : List MarketSnapshot) : Prop where
  price : o.HasLimit → ∀ i fill limit, o.fillAt slippage snaps i = some fill →
    o.limitPrice = some limit →
      match o.side with
      | .buy => fill.price ≤ limit
      | .sell => limit ≤ fill.price
  limit : o.kind = .limit → ∀ i,
    (o.FillsFirst slippage snaps i ↔ o.MeetsAt snaps i ∧ ∀ j < i, ¬o.MeetsAt snaps j)
  stopLimit : o.kind = .stopLimit → ∀ i, (o.FillsFirst slippage snaps i ↔
    (o.TriggeredBy snaps i ∧ o.MeetsAt snaps i) ∧
      ∀ j < i, ¬(o.TriggeredBy snaps j ∧ o.MeetsAt snaps j))
  waits : o.HasStop → ∀ i, (o.fillAt slippage snaps i).isSome → o.TriggeredBy snaps i
  stays : ∀ i j, i ≤ j → (o.afterLooks slippage (snaps.take i)).stopTriggered = true →
    (o.afterLooks slippage (snaps.take j)).stopTriggered = true
  stop : o.kind = .stop → ∀ i,
    (o.FillsFirst slippage snaps i ↔ o.ReachedAt snaps i ∧ ∀ j < i, ¬o.ReachedAt snaps j)

/-- A limit of whole cents is kept by each fill, and met by the first look that can, which for a
    stop-limit is one from the trigger on; a stop fills on the look that triggers it, and not
    before. -/
theorem prices_honest (req : PlaceOrderReq) (created : VirtualInstant) (slippage : SlippageKind)
    (snaps : List MarketSnapshot) (hcents : ∀ limit, req.limitPrice = some limit → WholeCents limit) :
    Honest slippage (fromPlaceReq req created) snaps := by
  have hsome : ∀ i, (fillAt slippage (fromPlaceReq req created) snaps i).isSome ↔ i < snaps.length ∧
      (HasStop (fromPlaceReq req created) → TriggeredBy (fromPlaceReq req created) snaps i) ∧
      (HasLimit (fromPlaceReq req created) → MeetsAt (fromPlaceReq req created) snaps i) :=
    isSome_fillAt rfl
  constructor
  case price =>
    intro hkind i fill limit hfill hlimit
    obtain ⟨snap, -, hfill⟩ := Option.bind_eq_some_iff.mp hfill
    have hsame := afterLooks_eq slippage (fromPlaceReq req created) (snaps.take i)
    have hprice :=
      price_fillIn _ snap slippage (by rw [hsame]; exact hkind) (by rw [hsame]; exact hlimit)
      (hcents limit hlimit) hfill
    rw [hsame] at hprice
    exact hprice
  case limit =>
    intro hkind i
    refine fillsFirst_iff fun j => (hsome j).trans ?_
    refine ⟨fun h => h.2.2 (.inl hkind), fun h => ⟨h.lt, ?_, fun _ => h⟩⟩
    rintro (hstop | hstop) <;> rw [hkind] at hstop <;> cases hstop
  case stopLimit =>
    intro hkind i
    refine fillsFirst_iff (P := fun j => TriggeredBy (fromPlaceReq req created) snaps j ∧
      MeetsAt (fromPlaceReq req created) snaps j) fun j => (hsome j).trans ?_
    refine ⟨fun h => ⟨h.2.1 (.inr hkind), h.2.2 (.inr hkind)⟩, ?_⟩
    rintro ⟨htrig, hmeets⟩
    exact ⟨hmeets.lt, fun _ => htrig, fun _ => hmeets⟩
  case waits =>
    intro hkind i h
    exact ((hsome i).mp h).2.1 hkind
  case stays =>
    intro i j hij
    rw [stopTriggered_afterLooks, stopTriggered_afterLooks]
    rintro (hold | ⟨hkind, snap, hsnap, hr⟩)
    · exact .inl hold
    · exact .inr ⟨hkind, snap, List.take_subset_take_left snaps hij hsnap, hr⟩
  case stop =>
    intro hkind i
    have hstop : ∀ j, (fillAt slippage (fromPlaceReq req created) snaps j).isSome ↔
        j < snaps.length ∧ TriggeredBy (fromPlaceReq req created) snaps j := by
      intro j
      refine (hsome j).trans ⟨fun h => ⟨h.1, h.2.1 (.inl hkind)⟩, fun h => ⟨h.1, fun _ => h.2, ?_⟩⟩
      rintro (hlimit | hlimit) <;> rw [hkind] at hlimit <;> cases hlimit
    rw [fillsFirst_iff hstop]
    constructor
    · rintro ⟨⟨hlt, k, hk, hr⟩, hfirst⟩
      have hki : k = i := by
        by_contra hne
        exact hfirst k (by omega) ⟨hr.lt, k, le_refl k, hr⟩
      subst hki
      exact ⟨hr, fun j hj hrj => hfirst j hj ⟨hrj.lt, j, le_refl j, hrj⟩⟩
    · rintro ⟨hr, hfirst⟩
      refine ⟨⟨hr.lt, i, le_refl i, hr⟩, ?_⟩
      rintro j hj ⟨-, k, hk, hrk⟩
      exact hfirst k (by omega) hrk

/-- A stop-limit order to buy at up to 10.05, once the mid has reached 10. -/
def breakout : PlaceOrderReq where
  orderId := 1
  contract := .stock "AAPL" "SMART" "USD"
  side := .buy
  kind := .stopLimit
  totalQuantity := 100
  limitPrice := some (1005 / 100)
  auxPrice := some 10
  tif := "DAY"
  account := "DU1"
  transmit := true
  parentId := none
  ocaGroup := none

theorem prices_honest_breakout : Honest .none (fromPlaceReq breakout 0)
    [⟨⟨265598, "AAPL"⟩, 9, 8, 10, 1⟩, ⟨⟨265598, "AAPL"⟩, 10, 9, 11, 2⟩,
      ⟨⟨265598, "AAPL"⟩, 10, 99 / 10, 10044 / 1000, 3⟩] :=
  prices_honest breakout 0 .none _ fun _ hlimit => ⟨1005, (Option.some.inj hlimit).symm⟩

end OrderRecord

end Midas.IbSim
