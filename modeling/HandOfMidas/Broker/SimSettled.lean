import HandOfMidas.Broker.SimMoves
import HandOfMidas.Broker.SimStatus

/-! An order of the simulator is never filled beyond its quantity, and stays as it is when it is
    over, except that both ways to modify an order look at neither: a filled order can get another
    quantity. -/

namespace Midas.Broker

variable {cfg : SimOrderConfig}

/-- What is filled of an order fits it. -/
structure SimulatedOrder.FillsFit (o : SimulatedOrder) : Prop where
  nonneg : 0 ≤ o.filledQty
  le : o.filledQty ≤ o.quantity
  filled_iff : o.filledQty = o.quantity ↔ o.status = .filled

/-- The executions of one order. -/
def SimState.fillsOf (s : SimState) (k : Int32) : List Execution :=
  s.money.executions.filter (·.ibOrderId = k)

/-- What is filled of every order fits it. -/
def AllFit (s : SimState) : Prop := ∀ k o, s.orders.get? k = some o → o.FillsFit

/-- A call leaves every order that is over as it is, and executes no more of it. -/
def LeavesSettled (cfg : SimOrderConfig) (s : SimState) (op : Op) : Prop :=
  ∀ k o, s.orders.get? k = some o → o.status.isTerminal = true →
    (step cfg s op).orders.get? k = some o ∧ (step cfg s op).fillsOf k = s.fillsOf k

/-- A call gives no order a quantity that is not positive, and an order that is over no new terms. -/
structure TermsFit (s : SimState) (op : Op) : Prop where
  placed : ∀ live spec, op = .place live spec → s.orders.get? spec.ibOrderId = none → 0 < spec.quantity
  live : ∀ k o, op.target = some k → s.orders.get? k = some o → o.status.isTerminal = false →
    0 < (op.amended o).quantity
  settled : ∀ k o, op.target = some k → s.orders.get? k = some o → o.status.isTerminal = true →
    op.amended o = o

/-! ### Quantities -/

/-- An order is filled whole or not at all. -/
def SimulatedOrder.Whole (o : SimulatedOrder) : Prop :=
  0 < o.quantity ∧ o.filledQty = if o.status = .filled then o.quantity else 0

theorem SimulatedOrder.WellKept.fillsFit_iff {o : SimulatedOrder} (h : o.WellKept) :
    o.FillsFit ↔ o.Whole := by
  by_cases hst : o.status = .filled
  · constructor
    · intro hfit
      have hwhole : o.filledQty = o.quantity := hfit.filled_iff.mpr hst
      exact ⟨hwhole ▸ h.filledQty_pos hst, by rw [if_pos hst, hwhole]⟩
    · rintro ⟨hpos, hfilled⟩
      rw [if_pos hst] at hfilled
      exact ⟨hfilled ▸ hpos.le, hfilled.le, iff_of_true hfilled hst⟩
  · have hzero := h.filledQty_eq hst
    constructor
    · intro hfit
      have hne : o.filledQty ≠ o.quantity := fun he => hst (hfit.filled_iff.mp he)
      exact ⟨hzero ▸ hfit.le.lt_of_ne hne, by rw [if_neg hst, hzero]⟩
    · rintro ⟨hpos, -⟩
      exact ⟨hzero.ge, hzero ▸ hpos.le, iff_of_false (hzero ▸ hpos.ne) hst⟩

variable (cfg) in
/-- An order of which something remains is filled to its quantity. -/
theorem executeFill_get? {s : SimState} {o : SimulatedOrder} (ho : s.orders.get? o.ibOrderId = some o)
    (hrem : 0 < o.quantity - o.filledQty) {shares : ℚ} (hshares : o.quantity - o.filledQty ≤ shares)
    (price : ℚ) :
    ∃ avg, (executeFill cfg o.ibOrderId shares price s).orders.get? o.ibOrderId =
      some { o with filledQty := o.quantity, avgFillPrice := avg, status := .filled } := by
  simp only [executeFill, ho, if_neg (not_le.mpr hrem), min_eq_right hshares]
  obtain ⟨n, hn⟩ := Nat.exists_eq_add_one.mpr (trancheCount_pos cfg (o.quantity - o.filledQty))
  rw [hn]
  set size := (o.quantity - o.filledQty) / ((n + 1 : ℕ) : ℚ)
  have horder := fillTranches_order cfg price size n ⟨s, o, o.quantity - o.filledQty⟩
  have hbook := sameBook_fillTranches cfg price size (n + 1) ⟨s, o, o.quantity - o.filledQty⟩
  set st := fillTranches cfg price size (n + 1) ⟨s, o, o.quantity - o.filledQty⟩
  have hfilled : o.filledQty + (o.quantity - o.filledQty) = o.quantity := by ring
  simp only [hfilled] at horder
  have hdone : st.order.quantity - st.order.filledQty ≤ 0 := by rw [horder]; simp
  refine ⟨st.order.avgFillPrice, ?_⟩
  rw [if_pos hdone, horder]
  simp

/-- Every move keeps orders whole that creates and amends none but with a positive quantity. -/
theorem whole_move {C : SimulatedOrder → Prop} {A : SimulatedOrder → SimulatedOrder → Prop}
    (hC : ∀ o, C o → 0 < o.quantity)
    (hA : ∀ o o', A o o' → (o.status.isTerminal = true → o' = o) ∧ (o.status.isTerminal = false →
      0 < o'.quantity))
    {s s' : SimState} (hmove : Move cfg C A s s') (h : ∀ k o, s.orders.get? k = some o → o.Whole) :
    ∀ k o, s'.orders.get? k = some o → o.Whole := by
  -- A record that is put over one, or is new.
  have hput (o' : SimulatedOrder) (ho' : o'.Whole) :
      ∀ k o, (s.setOrder o').orders.get? k = some o → o.Whole := by
    intro k o ho
    rw [SimState.setOrder_orders, Store.get?_put] at ho
    split at ho
    · exact Option.some.inj ho ▸ ho'
    · exact h k o ho
  cases hmove with
  | note _ horders _ => exact horders ▸ h
  | restatus o st ho hlive hst =>
    obtain ⟨hpos, hfilled⟩ := h _ o ho
    have hopen : o.status ≠ .filled := by rintro hf; simp [hf, SimOrderStatus.isTerminal] at hlive
    refine hput _ ⟨hpos, ?_⟩
    simpa [hst, hopen] using hfilled
  | fill o shares price ho hworking hshares =>
    obtain ⟨hpos, hfilled⟩ := h _ o ho
    have hzero : o.filledQty = 0 := by simpa [hworking] using hfilled
    have hrem : 0 < o.quantity - o.filledQty := by rw [hzero, sub_zero]; exact hpos
    have hall : o.quantity - o.filledQty ≤ shares := by rcases hshares with rfl | rfl <;> simp [hzero]
    obtain ⟨avg, hget⟩ := executeFill_get? cfg ho hrem hall price
    intro k o' ho'
    by_cases hk : k = o.ibOrderId
    · rw [hk, hget] at ho'
      exact Option.some.inj ho' ▸ ⟨hpos, by simp⟩
    · rw [executeFill_get?_of_ne hk] at ho'
      exact h k o' ho'
  | amend o o' ho hid htally hstatus hterms =>
    obtain ⟨hpos, hfilled⟩ := h _ o ho
    obtain ⟨hsettled, hlive⟩ := hA o o' hterms
    cases ht : o.status.isTerminal with
    | true => exact hput o' (hsettled ht ▸ ⟨hpos, hfilled⟩)
    | false =>
      have hopen : o.status ≠ .filled := by rintro hf; simp [hf, SimOrderStatus.isTerminal] at ht
      have hsame : o'.filledQty = o.filledQty := congrArg Tally.filledQty htally
      refine hput o' ⟨hlive ht, ?_⟩
      rw [hstatus, if_neg hopen, hsame, hfilled, if_neg hopen]
  | create o _ hstatus hfilled _ hnew => exact hput o ⟨hC o hnew, by rw [if_neg hstatus, hfilled]⟩

/-! ### Orders that are over -/

theorem fillsOf_setOrder (s : SimState) (o : SimulatedOrder) (k : Int32) :
    (s.setOrder o).fillsOf k = s.fillsOf k := rfl

theorem fillsOf_fillTranches (price trancheSize : ℚ) {k : Int32} : ∀ (n : ℕ) (st : FillLoop),
    st.order.ibOrderId ≠ k → (fillTranches cfg price trancheSize n st).sim.fillsOf k = st.sim.fillsOf k
  | 0, _, _ => rfl
  | n + 1, st, hk => by
    have hone : (fillTranche cfg price trancheSize (n == 0) st).sim.fillsOf k = st.sim.fillsOf k := by
      simp [SimState.fillsOf, SimState.money, fillTranche, reportTranche, applyPositionOnFill,
        SimState.nextExecId, OrderEvent.execution?, SimulatedOrder.book, hk]
    exact (fillsOf_fillTranches price trancheSize n (fillTranche cfg price trancheSize (n == 0) st)
      hk).trans hone

theorem fillsOf_executeFill_of_ne {id k : Int32} (hk : k ≠ id) (shares price : ℚ) (s : SimState) :
    (executeFill cfg id shares price s).fillsOf k = s.fillsOf k := by
  unfold executeFill
  cases ho : s.orders.get? id with
  | none => rfl
  | some o =>
    obtain rfl : o.ibOrderId = id := Store.key_of_get? ho
    dsimp only
    split
    · rfl
    · rw [fillsOf_setOrder]
      exact fillsOf_fillTranches price _ _ ⟨s, o, _⟩ (Ne.symm hk)

/-- Every move leaves an order that is over alone, if it is not amended. -/
theorem settled_move {C : SimulatedOrder → Prop} {A : SimulatedOrder → SimulatedOrder → Prop}
    (hA : ∀ o o', A o o' → o.status.isTerminal = true → o' = o) {k : Int32} {o : SimulatedOrder}
    (ht : o.status.isTerminal = true) {fills : List Execution} {s s' : SimState}
    (hmove : Move cfg C A s s')
    (h : s.orders.get? k = some o ∧ s.fillsOf k = fills) :
    s'.orders.get? k = some o ∧ s'.fillsOf k = fills := by
  obtain ⟨ho, hfills⟩ := h
  have hother {o' : SimulatedOrder} (hne : k ≠ o'.ibOrderId) :
      (s.setOrder o').orders.get? k = some o ∧ (s.setOrder o').fillsOf k = fills := by
    rw [SimState.setOrder_orders, Store.get?_put, if_neg hne]
    exact ⟨ho, hfills⟩
  have hlive {o' : SimulatedOrder} (ho' : s.orders.get? o'.ibOrderId = some o')
      (hlive : o'.status.isTerminal = false) : k ≠ o'.ibOrderId := by
    rintro rfl
    rw [ho] at ho'
    cases ho'
    rw [ht] at hlive
    cases hlive
  cases hmove with
  | note _ horders hmoney =>
    rw [SimState.fillsOf, hmoney, horders]
    exact ⟨ho, hfills⟩
  | restatus o' st ho' hopen =>
    have hne := hlive ho' hopen
    exact hother hne
  | fill o' shares price ho' hworking =>
    have hne := hlive ho' (by simp [hworking, SimOrderStatus.isTerminal])
    rw [executeFill_get?_of_ne hne, fillsOf_executeFill_of_ne hne]
    exact ⟨ho, hfills⟩
  | amend o' o'' ho' hid _ _ hterms =>
    by_cases hk : k = o'.ibOrderId
    · rw [← hk, ho] at ho'
      obtain rfl := Option.some.inj ho'
      obtain rfl := hA _ _ hterms ht
      refine ⟨?_, hfills⟩
      rw [SimState.setOrder_orders, Store.get?_put, if_pos hk]
    · exact hother (hid ▸ hk)
  | create o' hnew =>
    refine hother ?_
    rintro rfl
    rw [ho] at hnew
    cases hnew

/-! ### One call -/

/-- A call gives an order that exists its new terms and does nothing else to it. -/
theorem get?_step_of_target {s : SimState} {op : Op} {k : Int32} {o : SimulatedOrder}
    (hop : op.target = some k)
    (ho : s.orders.get? k = some o) : (step cfg s op).orders.get? k = some (op.amended o) := by
  cases op with
  | nextOrderId | cancel _ | setMarketPrice _ _ _ _ => cases hop
  | modify id spec =>
    obtain rfl := Option.some.inj hop
    have hid : o.ibOrderId = id := Store.key_of_get? ho
    simp [step, modifyOrder, ho, hid, Op.amended]
  | place live spec =>
    obtain rfl := Option.some.inj hop
    have hid : o.ibOrderId = spec.ibOrderId := Store.key_of_get? ho
    simp only [step, placeOrder, ho, replaceOrder]
    rw [← hid]
    cases hl : spec.limitPrice <;> cases hsp : spec.stopPrice <;> simp [Op.amended, hl, hsp]

/-- A new order is there after the call, with the quantity it asked for. -/
theorem get?_step_of_new {s : SimState} (hs : Sound s) (live : Live) {spec : OrderSpec}
    (hnew : s.orders.get? spec.ibOrderId = none) :
    ∃ o, (step cfg s (.place live spec)).orders.get? spec.ibOrderId = some o ∧
      o.quantity = spec.quantity := by
  obtain ⟨o, ho, -⟩ := createdAs_placeOrder cfg hs live hnew
  refine ⟨o, ho, ?_⟩
  have hmoves : Moves cfg (fun o => o.quantity = spec.quantity) (fun _ _ => False) s
      (step cfg s (.place live spec)) := by
    refine moves_step (fun live' spec' hop _ => ?_) fun k o' hop ho' => ?_
    · cases hop
      rfl
    · cases hop
      rw [hnew] at ho'
      cases ho'
  refine inv_of_path (I := fun s => ∀ o, s.orders.get? spec.ibOrderId = some o →
    o.quantity = spec.quantity)
    (fun s s' hmove h => ?_) hmoves (fun o ho => by rw [hnew] at ho; cases ho) o ho
  have hput {o' : SimulatedOrder} (ho' : o'.ibOrderId = spec.ibOrderId → o'.quantity = spec.quantity) :
      ∀ o, (s.setOrder o').orders.get? spec.ibOrderId = some o → o.quantity = spec.quantity := by
    intro o ho
    rw [SimState.setOrder_orders, Store.get?_put] at ho
    split at ho
    · rename_i hid
      exact Option.some.inj ho ▸ ho' hid.symm
    · exact h o ho
  cases hmove with
  | note _ horders _ => exact horders ▸ h
  | restatus o' st ho' => exact hput fun hid => h o' (hid ▸ ho')
  | fill o' shares price ho' =>
    intro o ho
    obtain ⟨o'', ho'', hquantity⟩ := executeFill_quantity ho' shares price ho
    exact hquantity.trans (h o'' ho'')
  | amend _ _ _ _ _ _ hno => exact hno.elim
  | create o' _ _ _ _ hq => exact hput fun _ => hq

theorem Sound.allFit_iff {s : SimState} (hs : Sound s) :
    AllFit s ↔ ∀ k o, s.orders.get? k = some o → o.Whole :=
  forall₂_congr fun _ _ => forall_congr' fun ho => (hs.wellKept ho).fillsFit_iff

/-- What a call with fitting terms does. -/
theorem fit_step {s : SimState} {op : Op} (hs : Sound s) (hfit : AllFit s) (hterms : TermsFit s op) :
    AllFit (step cfg s op) ∧ LeavesSettled cfg s op := by
  have hmoves : Moves cfg (fun o => 0 < o.quantity) (fun o o' => (o.status.isTerminal = true → o' = o) ∧
      (o.status.isTerminal = false → 0 < o'.quantity)) s (step cfg s op) :=
    moves_step hterms.placed fun k o hop ho => ⟨hterms.settled k o hop ho, hterms.live k o hop ho⟩
  constructor
  · rw [(sound_step hs op).allFit_iff]
    exact inv_of_path (I := fun s => ∀ k o, s.orders.get? k = some o → o.Whole)
      (fun _ _ hmove => whole_move (fun _ h => h) (fun _ _ h => h) hmove) hmoves (hs.allFit_iff.mp hfit)
  · intro k o ho ht
    exact inv_of_path (I := fun s' => s'.orders.get? k = some o ∧ s'.fillsOf k = s.fillsOf k)
      (fun _ _ hmove => settled_move (fun _ _ h => h.1) ht hmove) hmoves ⟨ho, rfl⟩

/-- And only one with fitting terms does it. -/
theorem termsFit_of_step {s : SimState} {op : Op} (hs : Sound s) (hfit : AllFit (step cfg s op))
    (hsettled : LeavesSettled cfg s op) : TermsFit s op := by
  have hwhole := (sound_step hs op).allFit_iff.mp hfit
  constructor
  · rintro live spec rfl hnew
    obtain ⟨o, ho, hquantity⟩ := get?_step_of_new hs live hnew
    exact hquantity ▸ (hwhole _ o ho).1
  · intro k o hop ho _
    exact (hwhole k _ (get?_step_of_target hop ho)).1
  · intro k o hop ho ht
    have hsame := (hsettled k o ho ht).1
    rw [get?_step_of_target hop ho] at hsame
    exact Option.some.inj hsame

/-! ### Every run -/

/-- Ten shares are bought, and then the order is modified to five. -/
def modifiedWhenFilled : List Op :=
  [.place .unpaired { ibOrderId := 1, symbol := ⟨1, "AAPL"⟩, quantity := 10 },
    .modify 1 { quantity := some 5 }]

end Midas.Broker
