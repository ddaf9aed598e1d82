import HandOfMidas.Broker.SimRefines

/-! Which orders a call executes, read off the state before it (`Executes`): the limit orders a price
    step finds met, the stops it finds hit that no sibling's limit fill has just cancelled, and the
    market order a transmit activates. `hasFill_step` says these are all the fills there are. The
    other half of the family's book-keeping is `Linked`: a child is listed under its parent. A child of a
    bracket should execute only once its entry has filled; no function of the simulator checks that, so
    it holds of a run exactly when each call of the run respects it. -/

namespace Midas.Broker

variable {cfg : SimOrderConfig}

/-! ### Fills, pass by pass -/

/-- Something of the order has been filled. -/
def View.HasFill (v : View) : Prop := ∃ o, v.record = some o ∧ 0 < o.filledQty

theorem View.hasFill_iff {v : View} {o : SimulatedOrder} (h : v.record = some o) :
    v.HasFill ↔ 0 < o.filledQty := by
  simp [View.HasFill, h]

theorem View.not_hasFill_of_none {v : View} (h : v.record = none) : ¬ v.HasFill := by
  simp [View.HasFill, h]

/-- A view that keeps the filled quantity keeps the fill. -/
theorem View.hasFill_congr {v w : View}
    (h : w.record.map (·.filledQty) = v.record.map (·.filledQty)) : w.HasFill ↔ v.HasFill := by
  have key : ∀ u : View, u.HasFill ↔ ∃ q, u.record.map (·.filledQty) = some q ∧ 0 < q := by
    intro u; simp [View.HasFill]
  rw [key, key, h]

theorem View.hasFill_cancel (v : View) : v.cancel.HasFill ↔ v.HasFill := by
  refine View.hasFill_congr ?_
  unfold View.cancel
  split
  · rename_i o h; split <;> simp [h]
  · rfl

theorem View.hasFill_activate (parentFilled : Bool) (v : View) :
    (v.activate parentFilled).HasFill ↔ v.HasFill := by
  refine View.hasFill_congr ?_
  unfold View.activate
  split
  · rename_i o h
    split
    · split <;> simp [h]
    · rfl
  · rfl

theorem View.hasFill_fill {v : View} {o : SimulatedOrder} (h : v.record = some o) (price : ℚ) :
    (v.fill cfg price).HasFill ↔ v.HasFill ∨ 0 < o.quantity := by
  unfold View.fill
  simp only [h]
  split
  · rename_i hq; simp [View.HasFill, SimulatedOrder.filledAt, hq]
  · rename_i hq; simp [hq]

theorem View.hasFill_limit (symbol : String) (price : ℚ) (v : View) :
    (v.limit cfg symbol price).HasFill ↔ v.HasFill ∨
      ∃ o, v.record = some o ∧ (limitFill? symbol price o).isSome ∧ 0 < o.quantity := by
  unfold View.limit
  split
  · rename_i p hp
    obtain ⟨o, ho, hpick⟩ := Option.bind_eq_some_iff.mp hp
    rw [View.hasFill_fill ho]
    simp [ho, hpick]
  · rename_i hp
    refine ⟨Or.inl, ?_⟩
    rintro (h | ⟨o, ho, hpick, _⟩)
    · exact h
    · rw [ho, Option.bind_some] at hp; simp [hp] at hpick

theorem View.hasFill_trigger {v : View} {o : SimulatedOrder} (h : v.record = some o) (price : ℚ) :
    (v.trigger cfg price).HasFill ↔
      v.HasFill ∨ (stopFill? cfg price o).isSome ∧ 0 < o.quantity := by
  have hworking : View.HasFill ⟨some { o with status := .working }, v.statuses ++ [.submitted]⟩ ↔
      v.HasFill := by simp [View.HasFill, h]
  simp only [View.trigger, h]
  split
  · rename_i p hp; rw [View.hasFill_fill rfl, hworking]; simp [hp]
  · rename_i hp; rw [hworking]; simp [hp]

theorem View.hasFill_stop (symbol : String) (price : ℚ) (v : View) :
    (v.stop cfg symbol price).HasFill ↔ v.HasFill ∨ ∃ o, v.record = some o ∧
      (stopHit? symbol price o).isSome ∧ (stopFill? cfg price o).isSome ∧ 0 < o.quantity := by
  unfold View.stop
  split
  · rename_i hhit
    obtain ⟨j, hj⟩ := Option.isSome_iff_exists.mp hhit
    obtain ⟨o, ho, hj⟩ := Option.bind_eq_some_iff.mp hj
    rw [View.hasFill_trigger ho]
    simp [ho, hj]
  · rename_i hhit
    refine ⟨Or.inl, ?_⟩
    rintro (h | ⟨o, ho, ho', _⟩)
    · exact h
    · rw [ho, Option.bind_some] at hhit; exact absurd ho' hhit

theorem View.hasFill_enter {v : View} {o : SimulatedOrder} (h : v.record = some o) (price : ℚ) :
    (v.enter cfg price).HasFill ↔ v.HasFill ∨ fillsOnEntry cfg o = true := by
  rw [View.hasFill_iff (View.enter_record cfg price h), View.hasFill_iff h]
  cases hf : fillsOnEntry cfg o with
  | false => simp
  | true =>
    have hq : 0 < o.quantity := by
      rw [fillsOnEntry, Bool.and_eq_true] at hf; exact of_decide_eq_true hf.2
    simp [SimulatedOrder.filledAt, hq]

/-! ### The price step: the stops that the limit pass leaves -/

/-- The limit pass neither makes nor unmakes a waiting stop. -/
theorem View.limit_triggered (symbol : String) (price : ℚ) (v : View) (o : SimulatedOrder) :
    ((v.limit cfg symbol price).record = some o ∧ o.status = .triggered) ↔
      (v.record = some o ∧ o.status = .triggered) := by
  unfold View.limit
  split
  · rename_i p hp
    obtain ⟨o', ho', hpick⟩ := Option.bind_eq_some_iff.mp hp
    have hworking := (limitFill?_eq_some hpick).2.1
    constructor
    · rintro ⟨ho, ht⟩
      unfold View.fill at ho
      simp only [ho'] at ho
      split at ho
      · cases ho; simp [SimulatedOrder.filledAt] at ht
      · rw [ho'] at ho; cases ho; simp [hworking] at ht
    · rintro ⟨ho, ht⟩
      rw [ho'] at ho; cases ho; simp [hworking] at ht
  · rfl

theorem View.cancel_not_triggered {v : View} {o : SimulatedOrder}
    (h : v.cancel.record = some o) : o.status ≠ .triggered := by
  cases hv : v.record with
  | none => rw [View.cancel_of_none hv, hv] at h; cases h
  | some o' =>
    cases ht : o'.status.isTerminal with
    | true =>
      rw [View.cancel_of_terminal hv ht, hv] at h; cases h
      rintro hs; simp [hs, SimOrderStatus.isTerminal] at ht
    | false => rw [View.cancel_of_live hv ht] at h; cases h; simp

/-- The order `o` executes in the call `op` made in the state `s`. -/
def Executes (cfg : SimOrderConfig) (s : SimState) : Op → SimulatedOrder → Prop
  | .place _ spec, o =>
    (Accepts cfg s spec ∧ spec.transmit = true) ∧
      (s.admitted spec).orders.get? spec.target = some o ∧ o.status = .held
      ∧ fillsOnEntry cfg o = true
  | .setMarketPrice _ _ symbol price, o =>
    s.orders.get? o.ibOrderId = some o ∧ 0 < o.quantity ∧
      ((limitFill? symbol price o).isSome ∨
        (stopHit? symbol price o).isSome ∧ (stopFill? cfg price o).isSome
          ∧ ¬ LimitOca s symbol price o.ibOrderId)
  | _, _ => False

theorem hasFill_setMarketPrice (limits stops : Visit) (symbol : String) (price : ℚ) {s : SimState}
    (hs : Sound s) (k : Int32) :
    ((setMarketPrice cfg limits stops symbol price s).view k).HasFill ↔
      (s.view k).HasFill ∨ ∃ o, Executes cfg s (.setMarketPrice limits stops symbol price) o ∧
        o.ibOrderId = k := by
  have hs' := hs.priced symbol price
  set s₁ := checkLimitFills cfg limits symbol price (s.priced symbol price) with hs₁
  have hview : s₁.view k = if LimitOca s symbol price k then
      ((s.view k).limit cfg symbol price).cancel else (s.view k).limit cfg symbol price :=
    view_checkLimitFills cfg limits symbol price hs' k
  -- the limit pass
  have hfill₁ : (s₁.view k).HasFill ↔ (s.view k).HasFill ∨
      ∃ o, s.orders.get? k = some o ∧ (limitFill? symbol price o).isSome ∧ 0 < o.quantity := by
    rw [hview]
    split
    · rw [View.hasFill_cancel, View.hasFill_limit]; rfl
    · rw [View.hasFill_limit]; rfl
  -- the stops still waiting when the stop pass begins
  have hwait : ∀ o, (s₁.orders.get? k = some o ∧ o.status = .triggered) ↔
      (s.orders.get? k = some o ∧ o.status = .triggered) ∧ ¬ LimitOca s symbol price k := by
    intro o
    rw [← SimState.view_record, ← SimState.view_record, hview]
    split
    · rename_i hoca
      exact ⟨fun h => absurd h.2 (View.cancel_not_triggered h.1), fun h => absurd hoca h.2⟩
    · rename_i hoca
      rw [View.limit_triggered]
      exact ⟨fun h => ⟨h, hoca⟩, fun h => h.1⟩
  have hstep : setMarketPrice cfg limits stops symbol price s =
      checkStopTriggers cfg stops symbol price s₁ := rfl
  have hsound₁ : Sound s₁ := sound_checkLimitFills cfg limits symbol price hs'
  have hfill₂ : ((checkStopTriggers cfg stops symbol price s₁).view k).HasFill ↔
      ((s₁.view k).stop cfg symbol price).HasFill := by
    rw [view_checkStopTriggers cfg stops symbol price hsound₁]
    split
    · exact View.hasFill_cancel _
    · rfl
  rw [hstep, hfill₂, View.hasFill_stop, hfill₁, or_assoc]
  refine or_congr Iff.rfl ?_
  constructor
  · rintro (⟨o, ho, hpick, hq⟩ | ⟨o, ho, hhit, hfire, hq⟩)
    · have hid : o.ibOrderId = k := Store.key_of_get? ho
      exact ⟨o, ⟨hid ▸ ho, hq, Or.inl hpick⟩, hid⟩
    · obtain ⟨j, hj⟩ := Option.isSome_iff_exists.mp hhit
      obtain ⟨⟨ho, _⟩, hoca⟩ := (hwait o).mp ⟨ho, (stopHit?_eq_some hj).2.1⟩
      have hid : o.ibOrderId = k := Store.key_of_get? ho
      exact ⟨o, ⟨hid ▸ ho, hq, Or.inr ⟨hhit, hfire, hid ▸ hoca⟩⟩, hid⟩
  · rintro ⟨o, ⟨ho, hq, hpick | ⟨hhit, hfire, hoca⟩⟩, rfl⟩
    · exact Or.inl ⟨o, ho, hpick, hq⟩
    · obtain ⟨j, hj⟩ := Option.isSome_iff_exists.mp hhit
      obtain ⟨ho', _⟩ := (hwait o).mpr ⟨⟨ho, (stopHit?_eq_some hj).2.1⟩, hoca⟩
      exact Or.inr ⟨o, ho', hhit, hfire, hq⟩

/-! ### The other calls -/

theorem hasFill_activateBracket (live : Live) (t : Int32) {s : SimState} (hs : Sound s) (k : Int32) :
    ((activateBracket cfg live t s).view k).HasFill ↔ (s.view k).HasFill ∨
      ∃ o, (s.orders.get? t = some o ∧ o.status = .held ∧ fillsOnEntry cfg o = true) ∧
        o.ibOrderId = k := by
  by_cases h : ∀ o, s.orders.get? t = some o → o.status ≠ .held
  · rw [activateBracket_of_not_held cfg live h]
    refine ⟨Or.inl, ?_⟩
    rintro (hk | ⟨o, ⟨ho, hheld, _⟩, _⟩)
    · exact hk
    · exact absurd hheld (h o ho)
  · push Not at h
    obtain ⟨p, hp, hheld⟩ := h
    have hf : p.filledQty = 0 := (hs.wellKept hp).filledQty_eq (by simp [hheld])
    have hid : p.ibOrderId = t := Store.key_of_get? hp
    have hex : (∃ o, (s.orders.get? t = some o ∧ o.status = .held ∧ fillsOnEntry cfg o = true) ∧
        o.ibOrderId = k) ↔ k = t ∧ fillsOnEntry cfg p = true := by
      constructor
      · rintro ⟨o, ⟨ho, _, hfills⟩, rfl⟩
        rw [hp] at ho; cases ho; exact ⟨hid, hfills⟩
      · rintro ⟨rfl, hfills⟩
        exact ⟨p, ⟨hp, hheld, hfills⟩, hid⟩
    obtain ⟨price, hview⟩ := view_activateBracket cfg live hp hheld hf
    rw [hview, hex]
    split
    · rename_i hk
      rw [View.hasFill_enter (o := p) (by rw [SimState.view_record, hk, hp])]
      simp [hk]
    · rename_i hk
      rw [or_iff_left (fun h => hk h.1)]
      split
      · exact View.hasFill_activate _ _
      · rfl

theorem hasFill_admitted {s : SimState} {spec : OrderSpec} (h : Accepts cfg s spec) (k : Int32) :
    ((s.admitted spec).view k).HasFill ↔ (s.view k).HasFill := by
  rw [view_admitted]
  split
  · rename_i hk
    have hnone : (s.view k).record = none := by rw [SimState.view_record, hk, h.1]
    exact iff_of_false (by simp [View.HasFill, SimulatedOrder.ofSpec])
      (View.not_hasFill_of_none hnone)
  · rfl

theorem not_executes_of_not_accepts {s : SimState} {spec : OrderSpec} (h : ¬ Accepts cfg s spec)
    (live : Live) (o : SimulatedOrder) : ¬ Executes cfg s (.place live spec) o :=
  fun he => h he.1.1

theorem hasFill_placeOrder (live : Live) (spec : OrderSpec) {s : SimState} (hs : Sound s)
    (k : Int32) : ((placeOrder cfg live spec s).2.view k).HasFill ↔ (s.view k).HasFill ∨
      ∃ o, Executes cfg s (.place live spec) o ∧ o.ibOrderId = k := by
  by_cases hacc : Accepts cfg s spec
  · rw [placeOrder_of_accepts hacc]
    cases ht : spec.transmit with
    | false =>
      simp only [Bool.false_eq_true, if_false]
      rw [hasFill_admitted hacc, or_iff_left]
      rintro ⟨o, ⟨⟨_, ht'⟩, _⟩, _⟩
      simp [ht] at ht'
    | true =>
      rw [if_pos rfl, hasFill_activateBracket live _ (sound_admitted hacc hs),
        hasFill_admitted hacc]
      simp [Executes, hacc, ht]
  · have hnot : ¬∃ o, Executes cfg s (.place live spec) o ∧ o.ibOrderId = k := by
      rintro ⟨o, he, -⟩
      exact not_executes_of_not_accepts hacc live o he
    rw [or_iff_left hnot]
    cases hnew : s.orders.get? spec.ibOrderId with
    | some o =>
      obtain ⟨o', ha, hview⟩ := view_replaceOrder cfg hnew live
      rw [hview]
      split
      · rename_i hk
        exact View.hasFill_congr (by simp [hk, hnew, ha.filledQty])
      · rfl
    | none =>
      have hrej : shouldReject cfg (s.orderCount + 1) = true := by
        by_contra hr
        exact hacc ⟨hnew, by simpa using hr⟩
      rw [view_placeOrder_of_reject hnew hrej]
      split
      · rename_i hk
        exact iff_of_false (by simp [View.HasFill, SimulatedOrder.ofSpec])
          (View.not_hasFill_of_none (by rw [SimState.view_record, hk, hnew]))
      · rfl

variable (cfg) in
/-- A call fills exactly the orders it executes. -/
theorem hasFill_step {s : SimState} (hs : Sound s) (op : Op) (k : Int32) :
    ((step cfg s op).view k).HasFill ↔
      (s.view k).HasFill ∨ ∃ o, Executes cfg s op o ∧ o.ibOrderId = k := by
  cases op with
  | nextOrderId => simp only [Executes, false_and, exists_false, or_false]; rfl
  | place live spec => exact hasFill_placeOrder live spec hs k
  | modify id spec =>
    simp only [Executes, false_and, exists_false, or_false]
    cases ho : s.orders.get? id with
    | none => simp only [step, modifyOrder, ho]
    | some o =>
      obtain ⟨o', ha, hview⟩ := view_modifyOrder id spec ho
      rw [step, hview]
      split
      · rename_i hk; exact View.hasFill_congr (by simp [hk, ho, ha.filledQty])
      · rfl
  | cancel id =>
    simp only [Executes, false_and, exists_false, or_false]
    rw [step, view_cancelOrder]
    split
    · exact View.hasFill_cancel _
    · rfl
  | setMarketPrice limits stops symbol price =>
    exact hasFill_setMarketPrice limits stops symbol price hs k

/-- An order that a call executes is there before the call, or is the one the call places, and is
    there after it. -/
theorem Executes.record {s : SimState} (hs : Sound s) {op : Op} {o : SimulatedOrder}
    (h : Executes cfg s op o) :
    ∃ o', (step cfg s op).orders.get? o.ibOrderId = some o' ∧ SameOrder o o' := by
  cases op with
  | nextOrderId | modify | cancel => exact h.elim
  | setMarketPrice limits stops symbol price =>
    exact (life_step_any cfg hs (.setMarketPrice limits stops symbol price) o.ibOrderId).same h.1
  | place live spec =>
    obtain ⟨⟨hacc, ht⟩, ho, -⟩ := h
    have hid : o.ibOrderId = spec.target := Store.key_of_get? ho
    have hstep : step cfg s (.place live spec) =
        activateBracket cfg live spec.target (s.admitted spec) := by
      rw [step, placeOrder_of_accepts hacc, ht, if_pos rfl]
    rw [hstep, hid]
    exact (life_activateBracket cfg (C := fun _ => True) (R := fun _ => True) live spec.target
      (sound_admitted hacc hs) spec.target).same ho

/-! ### Bracket gating -/

/-- Every child with something filled has a filled parent. -/
def Gated (s : SimState) : Prop :=
  ∀ k o p, s.orders.get? k = some o → o.parentId = some p → 0 < o.filledQty →
    ∃ po, s.orders.get? p = some po ∧ po.status = .filled

/-- Every child the call executes has a parent that is filled already or executes in the same call. -/
def Gate (cfg : SimOrderConfig) (s : SimState) (op : Op) : Prop :=
  ∀ o p, Executes cfg s op o → o.parentId = some p →
    (∃ po, s.orders.get? p = some po ∧ po.status = .filled) ∨
      ∃ po, Executes cfg s op po ∧ po.ibOrderId = p

theorem filled_iff_hasFill {s : SimState} (hs : Sound s) (p : Int32) :
    (∃ po, s.orders.get? p = some po ∧ po.status = .filled) ↔ (s.view p).HasFill := by
  constructor
  · rintro ⟨po, hpo, hst⟩
    exact ⟨po, hpo, (hs.wellKept hpo).filled_iff.mpr hst⟩
  · rintro ⟨po, hpo, hpos⟩
    exact ⟨po, hpo, (hs.wellKept hpo).filled_iff.mp hpos⟩

/-- A call keeps the brackets gated exactly when it respects the gate. -/
theorem gated_step_iff {s : SimState} (op : Op) (hs : Sound s) (hg : Gated s) :
    Gated (step cfg s op) ↔ Gate cfg s op := by
  have hs' : Sound (step cfg s op) := sound_step hs op
  constructor
  · intro hg' o p he hp
    obtain ⟨o', ho', hsame⟩ := he.record hs
    have hfill : ((step cfg s op).view o.ibOrderId).HasFill :=
      (hasFill_step cfg hs op _).mpr (Or.inr ⟨o, he, rfl⟩)
    have hparent := hg' _ o' p ho' (hsame.parentId.trans hp) ((View.hasFill_iff ho').mp hfill)
    rw [filled_iff_hasFill hs', hasFill_step cfg hs, ← filled_iff_hasFill hs] at hparent
    exact hparent
  · intro hgate k o' p ho' hp hpos
    rw [filled_iff_hasFill hs', hasFill_step cfg hs, ← filled_iff_hasFill hs]
    rcases (hasFill_step cfg hs op k).mp ⟨o', ho', hpos⟩ with ⟨o, ho, hpos⟩ | ⟨o, he, rfl⟩
    · obtain ⟨o'', ho'', hsame⟩ := (life_step_any cfg hs op k).same ho
      obtain rfl : o' = o'' := Option.some.inj (ho'.symm.trans ho'')
      exact Or.inl (hg k o p ho (hsame.parentId.symm.trans hp) hpos)
    · obtain ⟨o'', ho'', hsame⟩ := he.record hs
      obtain rfl : o' = o'' := Option.some.inj (ho'.symm.trans ho'')
      exact hgate o p he (hsame.parentId.symm.trans hp)

/-- Along any run the brackets stay gated in every state reached exactly when every call of the run
    respects the gate. -/
theorem gated_iff_gate (cfg : SimOrderConfig) (ops : List Op) :
    AllStates (step cfg) Gated (.new cfg) ops ↔ AllSteps (step cfg) (Gate cfg) (.new cfg) ops :=
  allStates_iff_allSteps (step cfg) (fun _ op hs => sound_step hs op)
    (fun _ op hs hg => gated_step_iff op hs hg) (sound_new cfg)
    (fun _ _ _ ho => (Option.some_ne_none _ ho.symm).elim) ops

/-- A limit entry at 150 with a take-profit at 160 and a stop-loss at 155, and a price of 152: the
    entry does not fill, the stop-loss does. -/
def stopUnderRestingEntry : List Op :=
  let buy : OrderSpec := { symbol := ⟨1, "AAPL"⟩, quantity := 100, transmit := false }
  let sell : OrderSpec := { buy with action := .sell, parentId := some 1 }
  [.place .unpaired { buy with ibOrderId := 1, orderType := .limit, limitPrice := some 150 },
    .place .unpaired { sell with ibOrderId := 2, orderType := .limit, limitPrice := some 160 },
    .place .unpaired { sell with
      ibOrderId := 3, orderType := .stop, stopPrice := some 155, transmit := true },
    .setMarketPrice .asStored .asStored "AAPL" 152]

theorem child_executes_before_entry :
    ¬ ∀ (cfg : SimOrderConfig) (ops : List Op), AllStates (step cfg) Gated (.new cfg) ops := by
  intro h
  have hg : Gated (runFrom {} stopUnderRestingEntry) := (h {} stopUnderRestingEntry).last
  have hchild : ((runFrom {} stopUnderRestingEntry).orders.get? 3).map
      (fun o => (o.parentId, o.filledQty)) = some (some 1, 100) := by decide +kernel
  have hentry : ((runFrom {} stopUnderRestingEntry).orders.get? 1).map (·.status)
      = some .working := by decide +kernel
  obtain ⟨o, ho, hfields⟩ := Option.map_eq_some_iff.mp hchild
  obtain ⟨hp, hq⟩ := Prod.mk.inj hfields
  obtain ⟨po, hpo, hst⟩ := hg 3 o 1 ho hp (by rw [hq]; norm_num)
  rw [hpo, Option.map_some, hst] at hentry
  cases hentry

end Midas.Broker
