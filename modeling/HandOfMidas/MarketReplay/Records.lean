import HandOfMidas.MarketReplay.Engine

/-! What the replay engine says of each record. The calls made before the first step leave an order
    of the subscriptions that is the same for each walk through the map, so what a record comes to
    is a function of the calls and of the records before it. -/

namespace Midas.MarketReplay

open IbSim

variable {F : Type}

namespace ReplayEngine

/-- The calls that may come before the first step. -/
inductive Call where
  | registerInstrument (instrumentId : UInt32) (symbol : SymbolKey)
  | subscribe (key : SubKey) (mode : SubMode)
  | unsubscribe (key : SubKey)

def call (e : ReplayEngine F) : Call → ReplayEngine F
  | .registerInstrument id symbol => e.registerInstrument id symbol
  | .subscribe key mode => e.subscribe key mode
  | .unsubscribe key => e.unsubscribe key

/-- An engine that was opened on a file and called. -/
def setUp (file : List (DbnEmission F)) (calls : List Call) : ReplayEngine F :=
  calls.foldl call { reader := file }

/-- The order is still to be taken, or there is nothing to order. -/
def Unordered (e : ReplayEngine F) : Prop :=
  e.subsDirty = true ∨ e.subs.items = [] ∧ e.subsOrder = []

theorem setUp_spec (file : List (DbnEmission F)) (calls : List Call) :
    (setUp file calls).reader = file ∧ (setUp file calls).Unordered := by
  suffices h : ∀ e : ReplayEngine F, e.reader = file → e.Unordered →
      (calls.foldl call e).reader = file ∧ (calls.foldl call e).Unordered from
    h { reader := file } rfl (Or.inr ⟨rfl, rfl⟩)
  induction calls with
  | nil => exact fun e hr hu => ⟨hr, hu⟩
  | cons c calls ih =>
    intro e hr hu
    rw [List.foldl_cons]
    cases c with
    | registerInstrument id symbol => exact ih _ hr hu
    | subscribe key mode => exact ih _ hr (Or.inl rfl)
    | unsubscribe key => exact ih _ hr (Or.inl rfl)

/-! ### The order of the subscriptions -/

theorem keyLe_trans (a b c : SubKey) (hab : keyLe a b = true) (hbc : keyLe b c = true) :
    keyLe a c = true := by
  simp only [keyLe, decide_eq_true_eq] at hab hbc ⊢
  omega

theorem keyLe_total (a b : SubKey) : (keyLe a b || keyLe b a) = true := by
  simp only [keyLe, Bool.or_eq_true, decide_eq_true_eq]
  omega

theorem keyLe_antisymm {a b : SubKey} (hab : keyLe a b = true) (hba : keyLe b a = true)
    (hs : a.symbol = b.symbol) : a = b := by
  obtain ⟨session, reqId, symbol⟩ := a
  obtain ⟨session', reqId', symbol'⟩ := b
  obtain rfl : symbol = symbol' := hs
  simp only [keyLe, decide_eq_true_eq] at hab hba
  obtain ⟨rfl, rfl⟩ : session = session' ∧ reqId = reqId' := by omega
  rfl

/-- The subscriptions of a symbol, in order. -/
def keysOf (e : ReplayEngine F) (symbol : SymbolKey) : List SubKey :=
  e.subsOrder.filter fun k => k.symbol = symbol

theorem subsOrder_perm {walk : List SubKey → List SubKey} (hw : ∀ l, (walk l).Perm l)
    {e : ReplayEngine F} (he : e.Unordered) :
    (e.refreshSubsOrder walk).subsOrder.Perm (e.subs.items.map (·.key)) := by
  rw [refreshSubsOrder]
  split
  · exact (List.mergeSort_perm _ _).trans (hw _)
  · rename_i hd
    obtain hd' | ⟨hs, ho⟩ := he
    · exact absurd hd' hd
    · rw [hs, ho, List.map_nil]

theorem mem_subsOrder {e : ReplayEngine F} (he : e.Unordered) (key : SubKey) :
    key ∈ (e.refreshSubsOrder id).subsOrder ↔ ∃ sub ∈ e.subs.items, sub.key = key := by
  rw [(subsOrder_perm (fun l => List.Perm.refl (id l)) he).mem_iff, List.mem_map]

theorem subsOrder_sorted {walk : List SubKey → List SubKey} {e : ReplayEngine F} (he : e.Unordered) :
    (e.refreshSubsOrder walk).subsOrder.Pairwise fun a b => keyLe a b = true := by
  rw [refreshSubsOrder]
  split
  · exact List.pairwise_mergeSort keyLe_trans keyLe_total _
  · rename_i hd
    obtain hd' | ⟨-, ho⟩ := he
    · exact absurd hd' hd
    · rw [ho]; exact List.Pairwise.nil

/-- However the map is walked, the subscriptions of one symbol come in one order. -/
theorem keysOf_refreshSubsOrder {walk walk' : List SubKey → List SubKey} (hw : ∀ l, (walk l).Perm l)
    (hw' : ∀ l, (walk' l).Perm l) {e : ReplayEngine F} (he : e.Unordered) (symbol : SymbolKey) :
    (e.refreshSubsOrder walk).keysOf symbol = (e.refreshSubsOrder walk').keysOf symbol := by
  have hperm := (subsOrder_perm hw he).trans (subsOrder_perm hw' he).symm
  refine List.Perm.eq_of_pairwise ?_ ((subsOrder_sorted he).filter _) ((subsOrder_sorted he).filter _)
    (hperm.filter _)
  intro a b ha hb hab hba
  have has := (List.mem_filter.mp ha).2
  have hbs := (List.mem_filter.mp hb).2
  rw [decide_eq_true_eq] at has hbs
  exact keyLe_antisymm hab hba (has.trans hbs.symm)

theorem refreshSubsOrder_fields (walk : List SubKey → List SubKey) (e : ReplayEngine F) :
    (e.refreshSubsOrder walk).reader = e.reader ∧ (e.refreshSubsOrder walk).idToSymbol = e.idToSymbol ∧
      (e.refreshSubsOrder walk).subs = e.subs ∧ (e.refreshSubsOrder walk).cumVolume = e.cumVolume ∧
      (e.refreshSubsOrder walk).subsDirty = false := by
  rw [refreshSubsOrder]
  split
  · exact ⟨rfl, rfl, rfl, rfl, rfl⟩
  · rename_i hd
    exact ⟨rfl, rfl, rfl, rfl, Bool.eq_false_of_not_eq_true hd⟩

/-- Once the order is taken, it stays. -/
theorem refreshSubsOrder_of_clean (walk : List SubKey → List SubKey) {e : ReplayEngine F}
    (he : e.subsDirty = false) : e.refreshSubsOrder walk = e := by
  rw [refreshSubsOrder, he, if_neg Bool.false_ne_true]

/-! ### Record after record -/

/-- Two engines that say the same of each record. -/
structure Alike (e e' : ReplayEngine F) : Prop where
  ids : e.idToSymbol = e'.idToSymbol
  subs : e.subs = e'.subs
  volumes : e.cumVolume = e'.cumVolume
  keys : ∀ symbol, e.keysOf symbol = e'.keysOf symbol

theorem alike_refreshSubsOrder {walk walk' : List SubKey → List SubKey} (hw : ∀ l, (walk l).Perm l)
    (hw' : ∀ l, (walk' l).Perm l) {e : ReplayEngine F} (he : e.Unordered) :
    Alike (e.refreshSubsOrder walk) (e.refreshSubsOrder walk') where
  ids := (refreshSubsOrder_fields walk e).2.1.trans (refreshSubsOrder_fields walk' e).2.1.symm
  subs := (refreshSubsOrder_fields walk e).2.2.1.trans (refreshSubsOrder_fields walk' e).2.2.1.symm
  volumes :=
    (refreshSubsOrder_fields walk e).2.2.2.1.trans (refreshSubsOrder_fields walk' e).2.2.2.1.symm
  keys := keysOf_refreshSubsOrder hw hw' he

section
variable [F64 F]

/-- The cumulative volumes after a record. -/
def volumesAfter (e : ReplayEngine F) (em : DbnEmission F) : SymbolKey → Option ℤ :=
  match e.idToSymbol em.instrumentId with
  | none => e.cumVolume
  | some symbol => (e.count symbol em).1.cumVolume

/-- What a record is to the subscriptions of its symbol. -/
theorem emissionsFor_eq (e : ReplayEngine F) (em : DbnEmission F) :
    e.emissionsFor em =
      ({ e with cumVolume := e.volumesAfter em },
        match e.idToSymbol em.instrumentId with
        | none => []
        | some symbol => (e.keysOf symbol).flatMap fun key =>
          match e.subs.get? key with
          | some sub => ticks em (e.count symbol em).2 key sub.mode
          | none => []) := by
  rw [emissionsFor, volumesAfter]
  cases e.idToSymbol em.instrumentId with
  | none => rfl
  | some symbol => cases em <;> rfl

theorem Alike.emissionsFor {e e' : ReplayEngine F} (h : Alike e e') (em : DbnEmission F) :
    (e.emissionsFor em).2 = (e'.emissionsFor em).2 ∧
      Alike (e.emissionsFor em).1 (e'.emissionsFor em).1 := by
  have hcount : ∀ symbol, (e.count symbol em).2 = (e'.count symbol em).2 ∧
      (e.count symbol em).1.cumVolume = (e'.count symbol em).1.cumVolume := by
    intro symbol
    cases em <;> simp only [count, volumeAfter, h.volumes, and_self]
  have hvol : e.volumesAfter em = e'.volumesAfter em := by
    rw [volumesAfter, volumesAfter, h.ids, h.volumes]
    simp only [hcount]
  rw [emissionsFor_eq, emissionsFor_eq]
  refine ⟨?_, ⟨h.ids, h.subs, hvol, h.keys⟩⟩
  simp only [h.ids, h.subs, h.keys, hcount]

/-- What each of these records comes to, one after another. -/
def outputs : List (DbnEmission F) → ReplayEngine F → List (DbnEmission F × List (MarketEmission F))
  | [], _ => []
  | r :: rs, e => (r, (e.emissionsFor r).2) :: outputs rs (e.emissionsFor r).1

/-- The engine after these records. -/
def past (rs : List (DbnEmission F)) (e : ReplayEngine F) : ReplayEngine F :=
  rs.foldl (fun e r => (e.emissionsFor r).1) e

theorem Alike.outputs (rs : List (DbnEmission F)) {e e' : ReplayEngine F} (h : Alike e e') :
    outputs rs e = ReplayEngine.outputs rs e' := by
  induction rs generalizing e e' with
  | nil => rfl
  | cons r rs ih =>
    rw [ReplayEngine.outputs, ReplayEngine.outputs, (h.emissionsFor r).1, ih (h.emissionsFor r).2]

theorem outputs_append (rs ts : List (DbnEmission F)) (e : ReplayEngine F) :
    outputs (rs ++ ts) e = outputs rs e ++ outputs ts (past rs e) := by
  induction rs generalizing e with
  | nil => rfl
  | cons r rs ih =>
    rw [List.cons_append, outputs, outputs, ih, List.cons_append, past, past, List.foldl_cons]

/-- The records are there one by one, in their order. -/
theorem outputs_fst (rs : List (DbnEmission F)) (e : ReplayEngine F) :
    (outputs rs e).map Prod.fst = rs := by
  induction rs generalizing e with
  | nil => rfl
  | cons r rs ih => rw [outputs, List.map_cons, ih]

theorem fst_mem_of_mem_outputs {rs : List (DbnEmission F)} {e : ReplayEngine F}
    {p : DbnEmission F × List (MarketEmission F)} (h : p ∈ outputs rs e) : p.1 ∈ rs := by
  rw [← outputs_fst rs e]
  exact List.mem_map_of_mem h

/-- What is still to be read says nothing of what has been. -/
theorem outputs_reader (rs file : List (DbnEmission F)) (e : ReplayEngine F) :
    outputs rs { e with reader := file } = outputs rs e :=
  Alike.outputs rs ⟨rfl, rfl, rfl, fun _ => rfl⟩

theorem past_fields (rs : List (DbnEmission F)) (e : ReplayEngine F) :
    (past rs e).idToSymbol = e.idToSymbol ∧ (past rs e).subs = e.subs ∧
      (past rs e).subsOrder = e.subsOrder ∧ (past rs e).subsDirty = e.subsDirty := by
  induction rs generalizing e with
  | nil => exact ⟨rfl, rfl, rfl, rfl⟩
  | cons r rs ih =>
    obtain ⟨hids, hsubs, hkeys, hdirty⟩ := ih (e.emissionsFor r).1
    rw [past, List.foldl_cons, ← past, hids, hsubs, hkeys, hdirty, emissionsFor_eq]
    exact ⟨rfl, rfl, rfl, rfl⟩

/-- A step reads the records that are due. -/
theorem drain_eq (now : VirtualInstant) (rs : List (DbnEmission F)) (e : ReplayEngine F) :
    drain now rs e =
      ({ past (rs.takeWhile fun r => r.ts ≤ now) e with reader := rs.dropWhile fun r => r.ts ≤ now },
        (outputs (rs.takeWhile fun r => r.ts ≤ now) e).map Prod.snd) := by
  induction rs generalizing e with
  | nil => rfl
  | cons r rs ih =>
    rw [drain]
    by_cases hr : r.ts ≤ now
    · rw [if_pos hr, List.takeWhile_cons_of_pos (by simpa using hr),
        List.dropWhile_cons_of_pos (by simpa using hr)]
      simp only [ih, outputs, past, List.foldl_cons, List.map_cons]
    · rw [if_neg hr, List.takeWhile_cons_of_neg (by simpa using hr),
        List.dropWhile_cons_of_neg (by simpa using hr)]
      rfl

/-! ### What a record comes to -/

/-- A record is emitted to the subscriptions of its symbol. -/
theorem mem_outputs {rs : List (DbnEmission F)} {e : ReplayEngine F}
    (hk : ∀ key, key ∈ e.subsOrder ↔ ∃ sub ∈ e.subs.items, sub.key = key) {r : DbnEmission F}
    {out : List (MarketEmission F)} (h : (r, out) ∈ outputs rs e) :
    ∃ cum, ∀ em, em ∈ out ↔ ∃ sub ∈ e.subs.items,
      e.idToSymbol r.instrumentId = some sub.key.symbol ∧ em ∈ ticks r cum sub.key sub.mode := by
  induction rs generalizing e with
  | nil => exact absurd h List.not_mem_nil
  | cons x rs ih =>
    rw [outputs, List.mem_cons] at h
    obtain heq | h := h
    · obtain ⟨rfl, rfl⟩ := Prod.mk.inj heq
      rw [emissionsFor_eq]
      cases hid : e.idToSymbol r.instrumentId with
      | none => exact ⟨0, fun em => by simp⟩
      | some symbol =>
        refine ⟨(e.count symbol r).2, fun em => ?_⟩
        simp only [keysOf, List.mem_flatMap, List.mem_filter, decide_eq_true_eq, hk]
        constructor
        · rintro ⟨key, ⟨⟨sub, hsub, rfl⟩, hs⟩, hem⟩
          rw [Store.get?_of_mem hsub] at hem
          exact ⟨sub, hsub, by rw [hs], hem⟩
        · rintro ⟨sub, hsub, hs, hem⟩
          refine ⟨sub.key, ⟨⟨sub, hsub, rfl⟩, (Option.some.inj hs).symm⟩, ?_⟩
          rw [Store.get?_of_mem hsub]
          exact hem
    · have hnext := ih (e := (e.emissionsFor x).1) (by rw [emissionsFor_eq]; exact hk) h
      rwa [emissionsFor_eq] at hnext

theorem emissionSymbol_ticks {r : DbnEmission F} {cum : ℤ} {key : SubKey} {mode : SubMode}
    {em : MarketEmission F} (h : em ∈ ticks r cum key mode) : emissionSymbol em = key.symbol := by
  cases r with
  | trade ts id price size =>
    rw [ticks, tradeTicks.eq_def] at h
    split at h <;> simp only [List.mem_cons, List.not_mem_nil, or_false] at h
    · obtain rfl | rfl := h <;> rfl
    · subst h; rfl
    · subst h; rfl
  | quote ts id bid ask =>
    rw [ticks, quoteTicks.eq_def] at h
    split at h <;> simp only [List.mem_cons, List.not_mem_nil, or_false] at h
    · obtain rfl | rfl := h <;> rfl
    · obtain rfl | rfl := h <;> rfl
    · subst h; rfl
  | ohlcv ts id o hi l c volume =>
    rw [ticks, barBatch.eq_def] at h
    split at h <;> simp only [List.mem_cons, List.not_mem_nil, or_false] at h
    subst h; rfl

/-- The cumulative volume is no price: two shifts that move what a record is at one volume in the same
    way do so at each. -/
theorem movedBy_ticks (shift shift' : Option F) (r : DbnEmission F) (cum : ℤ) (key : SubKey)
    (mode : SubMode) (p q : Prop) :
    (∀ em ∈ ticks r cum key mode, p ∧ (q → movedBy shift em = movedBy shift' em)) ↔
      ∀ em ∈ ticks r 0 key mode, p ∧ (q → movedBy shift em = movedBy shift' em) := by
  have hsize : ∀ (s : Option F) (v : ℤ),
      movedBy s (.tickSize key .volume v) = .tickSize key .volume v := by
    intro s v
    cases s with
    | none => rfl
    | some x => simp only [movedBy, shiftPrice, ite_self]
  cases r with
  | trade ts id price size =>
    rw [ticks, ticks, tradeTicks.eq_def, tradeTicks.eq_def]
    split
    · simp only [List.forall_mem_cons, hsize]
    · exact Iff.rfl
    · exact Iff.rfl
    · exact Iff.rfl
  | quote ts id bid ask => exact Iff.rfl
  | ohlcv ts id o hi l c volume => exact Iff.rfl

end

end ReplayEngine

end Midas.MarketReplay
