import HandOfMidas.Broker.SimFill
import HandOfMidas.Lib.KeyFold

/-! The life of one simulated order, seen from outside: the record the client holds under an id and
    the statuses it has broadcast for it. `LifeStep` says what can happen to it, one thing at a time:
    it is created, released to the market, parked until its stop is hit, triggered, filled,
    cancelled, or has its terms changed. Nothing here looks at another order; that a call does to
    every order no more than this is proved in `SimRefines`. -/

namespace Midas.Broker

/-- What the client holds under one id, and the statuses it has sent for it. -/
@[ext] structure View where
  record : Option SimulatedOrder
  statuses : List OrderStatus

def SimState.view (s : SimState) (k : Int32) : View := ⟨s.orders.get? k, statusesOf k s.orderTx⟩

@[simp] theorem SimState.view_record (s : SimState) (k : Int32) :
    (s.view k).record = s.orders.get? k := rfl

@[simp] theorem SimState.view_statuses (s : SimState) (k : Int32) :
    (s.view k).statuses = statusesOf k s.orderTx := rfl

/-- Between two calls an order is filled whole or not at all, and its status says which. -/
structure SimulatedOrder.WellKept (o : SimulatedOrder) : Prop where
  ne_partiallyFilled : o.status ≠ .partiallyFilled
  filledQty_pos : o.status = .filled → 0 < o.filledQty
  filledQty_eq : o.status ≠ .filled → o.filledQty = 0

theorem SimulatedOrder.WellKept.filled_iff {o : SimulatedOrder} (h : o.WellKept) :
    0 < o.filledQty ↔ o.status = .filled := by
  refine ⟨fun hpos => ?_, h.filledQty_pos⟩
  by_contra hne
  exact hpos.ne' (h.filledQty_eq hne)

/-- `o'` is `o` under other terms: only what a modification may change differs. -/
structure Amended (o o' : SimulatedOrder) : Prop where
  ibOrderId : o'.ibOrderId = o.ibOrderId
  symbol : o'.symbol = o.symbol
  action : o'.action = o.action
  orderType : o'.orderType = o.orderType
  parentId : o'.parentId = o.parentId
  status : o'.status = o.status
  filledQty : o'.filledQty = o.filledQty
  avgFillPrice : o'.avgFillPrice = o.avgFillPrice

/-- One thing that happens to one order. `C` says which orders are created. The modify path of
    `place_order` reports the status again (`restate`); `R` says on which orders that is used. -/
inductive LifeStep (cfg : SimOrderConfig) (C R : SimulatedOrder → Prop) (v : View) : View → Prop
  | create (o) (h : v.record = none) (hm : C o)
      (hs : o.status = .held ∨ o.status = .rejected) (hf : o.filledQty = 0) :
      LifeStep cfg C R v ⟨some o, v.statuses⟩
  | amend (o o') (h : v.record = some o) (ha : Amended o o') :
      LifeStep cfg C R v ⟨some o', v.statuses⟩
  | restate (o o') (h : v.record = some o) (ha : Amended o o') (hm : R o) :
      LifeStep cfg C R v ⟨some o', v.statuses ++ [restatedStatus o.status]⟩
  | release (o) (h : v.record = some o) (hs : o.status = .held) :
      LifeStep cfg C R v ⟨some { o with status := .working }, v.statuses ++ [.submitted]⟩
  | park (o) (h : v.record = some o) (hs : o.status = .held) (hchild : o.parentId ≠ none) :
      LifeStep cfg C R v
        ⟨some { o with status := .triggered }, v.statuses ++ [.preSubmitted]⟩
  | trigger (o) (h : v.record = some o) (hs : o.status = .triggered) :
      LifeStep cfg C R v ⟨some { o with status := .working }, v.statuses ++ [.submitted]⟩
  | fill (o) (price : ℚ) (h : v.record = some o) (hs : o.status = .working) (hq : 0 < o.quantity) :
      LifeStep cfg C R v
        ⟨some (o.filledAt price), v.statuses ++ fillStatuses cfg o.quantity⟩
  | cancel (o) (h : v.record = some o) (hs : o.status.isTerminal = false) :
      LifeStep cfg C R v
        ⟨some { o with status := .cancelled }, v.statuses ++ [.cancelled]⟩

/-- What can happen to one order over time. -/
abbrev Life (cfg : SimOrderConfig) (C R : SimulatedOrder → Prop) : View → View → Prop :=
  Relation.ReflTransGen (LifeStep cfg C R)

/-- A view between two calls: the record is well kept, and nothing was said of an id never used. -/
structure View.Sound (v : View) : Prop where
  wellKept : ∀ o, v.record = some o → o.WellKept
  silent : v.record = none → v.statuses = []

variable {cfg : SimOrderConfig} {C R : SimulatedOrder → Prop} {v v' : View}

/-! ### What a life keeps -/

theorem Amended.wellKept {o o' : SimulatedOrder} (ha : Amended o o') (h : o.WellKept) :
    o'.WellKept := by
  refine ⟨?_, ?_, ?_⟩
  · rw [ha.status]; exact h.ne_partiallyFilled
  · rw [ha.status, ha.filledQty]; exact h.filledQty_pos
  · rw [ha.status, ha.filledQty]; exact h.filledQty_eq

theorem LifeStep.sound (hstep : LifeStep cfg C R v v') (hv : v.Sound) : v'.Sound := by
  -- Every step but a fill leaves the filled quantity at zero with a status other than filled.
  have hopen : ∀ (o : SimulatedOrder) (st : SimOrderStatus), v.record = some o →
      o.status ≠ .filled → st ≠ .partiallyFilled → st ≠ .filled →
      ({ o with status := st } : SimulatedOrder).WellKept := fun o st h ho hp hf =>
    ⟨hp, fun h' => absurd h' hf, fun _ => (hv.wellKept o h).filledQty_eq ho⟩
  refine ⟨?_, by cases hstep <;> simp⟩
  cases hstep with
  | create o h hm hs hf =>
    rintro _ ⟨⟩
    refine ⟨?_, ?_, fun _ => hf⟩ <;> rcases hs with hs | hs <;> simp [hs]
  | amend o o' h ha => rintro _ ⟨⟩; exact ha.wellKept (hv.wellKept o h)
  | restate o o' h ha hm => rintro _ ⟨⟩; exact ha.wellKept (hv.wellKept o h)
  | release o h hs => rintro _ ⟨⟩; exact hopen o _ h (by simp [hs]) (by simp) (by simp)
  | park o h hs => rintro _ ⟨⟩; exact hopen o _ h (by simp [hs]) (by simp) (by simp)
  | trigger o h hs => rintro _ ⟨⟩; exact hopen o _ h (by simp [hs]) (by simp) (by simp)
  | fill o price h hs hq =>
    rintro _ ⟨⟩
    exact ⟨by simp [SimulatedOrder.filledAt], fun _ => hq, fun h => absurd rfl h⟩
  | cancel o h hs =>
    rintro _ ⟨⟩
    refine hopen o _ h ?_ (by simp) (by simp)
    rintro hf; simp [hf, SimOrderStatus.isTerminal] at hs

/-- What never changes about an order once it exists. -/
structure SameOrder (o o' : SimulatedOrder) : Prop where
  ibOrderId : o'.ibOrderId = o.ibOrderId
  symbol : o'.symbol = o.symbol
  action : o'.action = o.action
  orderType : o'.orderType = o.orderType
  parentId : o'.parentId = o.parentId

theorem SameOrder.refl (o : SimulatedOrder) : SameOrder o o := ⟨rfl, rfl, rfl, rfl, rfl⟩

theorem SameOrder.trans {o o' o'' : SimulatedOrder} (h : SameOrder o o') (h' : SameOrder o' o'') :
    SameOrder o o'' :=
  ⟨h'.ibOrderId.trans h.ibOrderId, h'.symbol.trans h.symbol, h'.action.trans h.action,
    h'.orderType.trans h.orderType, h'.parentId.trans h.parentId⟩

theorem Amended.sameOrder {o o' : SimulatedOrder} (ha : Amended o o') : SameOrder o o' :=
  ⟨ha.ibOrderId, ha.symbol, ha.action, ha.orderType, ha.parentId⟩

theorem LifeStep.same (hstep : LifeStep cfg C R v v') {o : SimulatedOrder}
    (ho : v.record = some o) : ∃ o', v'.record = some o' ∧ SameOrder o o' := by
  cases hstep with
  | create _ h => simp [h] at ho
  | amend _ o' h ha => rw [ho] at h; cases h; exact ⟨o', rfl, ha.sameOrder⟩
  | restate _ o' h ha => rw [ho] at h; cases h; exact ⟨o', rfl, ha.sameOrder⟩
  | release _ h | park _ h | trigger _ h | cancel _ h =>
    rw [ho] at h; cases h; exact ⟨_, rfl, rfl, rfl, rfl, rfl, rfl⟩
  | fill _ _ h => rw [ho] at h; cases h; exact ⟨_, rfl, rfl, rfl, rfl, rfl, rfl⟩

theorem Life.sound (hlife : Life cfg C R v v') (hv : v.Sound) : v'.Sound :=
  inv_of_path (fun _ _ h => h.sound) hlife hv

theorem Life.same (hlife : Life cfg C R v v') {o : SimulatedOrder}
    (ho : v.record = some o) : ∃ o', v'.record = some o' ∧ SameOrder o o' := by
  refine inv_of_path (I := fun w => ∃ o', w.record = some o' ∧ SameOrder o o') ?_ hlife
    ⟨o, ho, SameOrder.refl o⟩
  rintro _ _ hstep ⟨o₁, h₁, hsame⟩
  obtain ⟨o₂, h₂, hsame'⟩ := hstep.same h₁
  exact ⟨o₂, h₂, hsame.trans hsame'⟩

/-- A terminal status is for good, and so is the quantity filled by then. -/
theorem LifeStep.terminal (hstep : LifeStep cfg C R v v') {o : SimulatedOrder}
    (ho : v.record = some o) (ht : o.status.isTerminal = true) :
    ∃ o', v'.record = some o' ∧ o'.status = o.status ∧ o'.filledQty = o.filledQty := by
  cases hstep with
  | create _ h => simp [h] at ho
  | amend _ o' h ha => rw [ho] at h; cases h; exact ⟨o', rfl, ha.status, ha.filledQty⟩
  | restate _ o' h ha => rw [ho] at h; cases h; exact ⟨o', rfl, ha.status, ha.filledQty⟩
  | release _ h hs | park _ h hs | trigger _ h hs =>
    rw [ho] at h; cases h; simp [hs, SimOrderStatus.isTerminal] at ht
  | fill _ _ h hs => rw [ho] at h; cases h; simp [hs, SimOrderStatus.isTerminal] at ht
  | cancel _ h hs => rw [ho] at h; cases h; simp [hs] at ht

theorem Life.terminal (hlife : Life cfg C R v v') {o : SimulatedOrder}
    (ho : v.record = some o) (ht : o.status.isTerminal = true) :
    ∃ o', v'.record = some o' ∧ o'.status = o.status ∧ o'.filledQty = o.filledQty := by
  refine inv_of_path (I := fun w => ∃ o', w.record = some o' ∧ o'.status = o.status ∧
    o'.filledQty = o.filledQty) ?_ hlife ⟨o, ho, rfl, rfl⟩
  rintro _ _ hstep ⟨o₁, h₁, hst, hfq⟩
  obtain ⟨o₂, h₂, hst', hfq'⟩ := hstep.terminal h₁ (by rw [hst]; exact ht)
  exact ⟨o₂, h₂, hst'.trans hst, hfq'.trans hfq⟩

end Midas.Broker
