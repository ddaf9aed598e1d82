import HandOfMidas.Broker.SimOrderClient
import Mathlib.Tactic.Ring
import Mathlib.Tactic.Linarith
import Mathlib.Tactic.FieldSimp

/-! What `execute_fill` does, once for every caller. The tranche loop hands out exactly the shares
    it was given, at one price, so an order that nothing has filled yet is filled whole in one call
    however many tranches the configuration asks for, and the statuses it sends on the way are
    `PartiallyFilled` for each tranche but the last and `Filled` for the last. -/

namespace Midas.Broker

variable (cfg : SimOrderConfig)

/-! ### The loop leaves the order map and the brackets alone -/

/-- Two states that agree on everything `execute_fill` may not touch besides the order map. -/
structure SameBook (s s' : SimState) : Prop where
  orders : s'.orders = s.orders
  bracketLinks : s'.bracketLinks = s.bracketLinks
  orderCount : s'.orderCount = s.orderCount
  nextId : s'.nextId = s.nextId

theorem SameBook.refl (s : SimState) : SameBook s s := ⟨rfl, rfl, rfl, rfl⟩

theorem SameBook.trans {s s' s'' : SimState} (h : SameBook s s') (h' : SameBook s' s'') :
    SameBook s s'' :=
  ⟨h'.orders.trans h.orders, h'.bracketLinks.trans h.bracketLinks,
    h'.orderCount.trans h.orderCount, h'.nextId.trans h.nextId⟩

theorem sameBook_send (s : SimState) (e : OrderEvent) : SameBook s (s.send e) :=
  ⟨rfl, rfl, rfl, rfl⟩

theorem sameBook_applyPositionOnFill (symbol : String) (action : OrderAction)
    (shares price commission : ℚ) (s : SimState) :
    SameBook s (applyPositionOnFill symbol action shares price commission s).2 :=
  ⟨rfl, rfl, rfl, rfl⟩

theorem sameBook_reportTranche (price fillShares : ℚ) (isLast : Bool) (order : SimulatedOrder)
    (s : SimState) : SameBook s (reportTranche cfg price fillShares isLast order s) := by
  have hexec : SameBook s s.nextExecId.2 := ⟨rfl, rfl, rfl, rfl⟩
  have hpos : ∀ (s : SimState) p, SameBook s (s.sendPosition p) := fun _ _ => ⟨rfl, rfl, rfl, rfl⟩
  exact ((((hexec.trans (sameBook_send _ _)).trans (sameBook_applyPositionOnFill ..)).trans
    (sameBook_send _ _)).trans (sameBook_send _ _)).trans (hpos _ _)

theorem sameBook_fillTranche (price trancheSize : ℚ) (isLast : Bool) (st : FillLoop) :
    SameBook st.sim (fillTranche cfg price trancheSize isLast st).sim :=
  sameBook_reportTranche cfg price _ isLast _ st.sim

theorem sameBook_fillTranches (price trancheSize : ℚ) : ∀ (n : ℕ) (st : FillLoop),
    SameBook st.sim (fillTranches cfg price trancheSize n st).sim
  | 0, st => SameBook.refl st.sim
  | n + 1, st =>
    (sameBook_fillTranche cfg price trancheSize (n == 0) st).trans
      (sameBook_fillTranches price trancheSize n _)

/-! ### What the loop does to the order -/

theorem shares_last (st : FillLoop) (trancheSize : ℚ) : st.shares trancheSize true = st.left := rfl

theorem shares_le_left (st : FillLoop) (trancheSize : ℚ) (isLast : Bool) :
    st.shares trancheSize isLast ≤ st.left := by
  cases isLast
  · exact min_le_right _ _
  · exact le_rfl

/-- A tranche takes no negative number of shares while something is left to hand out. -/
theorem shares_nonneg {st : FillLoop} {trancheSize : ℚ} (isLast : Bool) (hsize : 0 ≤ trancheSize)
    (hleft : 0 ≤ st.left) : 0 ≤ st.shares trancheSize isLast := by
  cases isLast
  · exact le_min hsize hleft
  · exact hleft

/-- The loop hands out exactly what it was given. -/
theorem fillTranches_order (price trancheSize : ℚ) : ∀ (n : ℕ) (st : FillLoop),
    (fillTranches cfg price trancheSize (n + 1) st).order = { st.order with
      filledQty := st.order.filledQty + st.left
      avgFillPrice := (fillTranches cfg price trancheSize (n + 1) st).order.avgFillPrice }
  | 0, st => rfl
  | n + 1, st => by
    have hrec := fillTranches_order price trancheSize n
      (fillTranche cfg price trancheSize (n + 1 == 0) st)
    have hsum : st.order.filledQty + st.shares trancheSize (n + 1 == 0)
        + (st.left - st.shares trancheSize (n + 1 == 0)) = st.order.filledQty + st.left := by ring
    rw [fillTranches]
    simp only [fillTranche, SimulatedOrder.book, hsum] at hrec ⊢
    exact hrec

/-- What the loop knows between two tranches: nothing is filled yet, or what is was filled at the
    price of this call. -/
structure AtPrice (price : ℚ) (st : FillLoop) : Prop where
  filled : 0 ≤ st.order.filledQty
  left : 0 ≤ st.left
  avg : st.order.filledQty = 0 ∨ st.order.avgFillPrice = price

theorem AtPrice.fillTranche {price trancheSize : ℚ} (isLast : Bool) {st : FillLoop}
    (hsize : 0 ≤ trancheSize) (h : AtPrice price st) :
    AtPrice price (fillTranche cfg price trancheSize isLast st) := by
  have hshares := shares_nonneg isLast hsize h.left
  refine ⟨add_nonneg h.filled hshares, ?_, Or.inr ?_⟩
  · exact sub_nonneg.mpr (shares_le_left st trancheSize isLast)
  · show (if st.order.filledQty = 0 then price else _) = price
    split
    · rfl
    · rename_i hne
      have hpos : 0 < st.order.filledQty := lt_of_le_of_ne h.filled (Ne.symm hne)
      have hsum : st.order.filledQty + st.shares trancheSize isLast ≠ 0 := by linarith
      rw [h.avg.resolve_left hne, ← mul_add, mul_div_assoc, div_self hsum, mul_one]

theorem AtPrice.fillTranches {price trancheSize : ℚ} (hsize : 0 ≤ trancheSize) :
    ∀ (n : ℕ) {st : FillLoop}, AtPrice price st →
      AtPrice price (fillTranches cfg price trancheSize n st)
  | 0, _, h => h
  | n + 1, _, h => AtPrice.fillTranches hsize n (AtPrice.fillTranche cfg (n == 0) hsize h)

/-! ### The statuses the loop sends -/

theorem statusesOf_fillTranche (price trancheSize : ℚ) (isLast : Bool) (st : FillLoop)
    (k : Int32) :
    statusesOf k (fillTranche cfg price trancheSize isLast st).sim.orderTx
      = statusesOf k st.sim.orderTx ++
        if st.order.ibOrderId = k then
          [trancheStatus isLast (st.order.book (st.shares trancheSize isLast) price)]
        else [] := by
  simp only [fillTranche, reportTranche, SimState.sendPosition_orderTx, SimState.send_orderTx,
    applyPositionOnFill, SimState.nextExecId, List.append_assoc, statusesOf_append]
  congr 1
  split <;> simp_all [statusesOf, SimulatedOrder.book]

/-- A tranche of an order says nothing about the status of another order. -/
theorem statusesOf_fillTranches_of_ne (price trancheSize : ℚ) {k : Int32} :
    ∀ (n : ℕ) (st : FillLoop), st.order.ibOrderId ≠ k →
      statusesOf k (fillTranches cfg price trancheSize n st).sim.orderTx
        = statusesOf k st.sim.orderTx
  | 0, _, _ => rfl
  | n + 1, st, hk => by
    have hk' : (fillTranche cfg price trancheSize (n == 0) st).order.ibOrderId ≠ k := hk
    rw [fillTranches, statusesOf_fillTranches_of_ne price trancheSize n _ hk',
      statusesOf_fillTranche, if_neg hk, List.append_nil]

/-- Each tranche but the last reports a partial fill, the last one a complete one. -/
theorem statusesOf_fillTranches (price trancheSize : ℚ) (hsize : 0 < trancheSize) :
    ∀ (n : ℕ) (st : FillLoop), 0 ≤ st.order.filledQty →
      (n + 1 : ℕ) * trancheSize = st.left → st.order.quantity = st.order.filledQty + st.left →
      statusesOf st.order.ibOrderId (fillTranches cfg price trancheSize (n + 1) st).sim.orderTx
        = statusesOf st.order.ibOrderId st.sim.orderTx
          ++ (List.replicate n .partiallyFilled ++ [.filled])
  | 0, st, _, _, hq => by
    have hdone : trancheStatus true (st.order.book (st.shares trancheSize true) price)
        = .filled := by
      simp [trancheStatus, SimulatedOrder.book, shares_last, hq]
    rw [fillTranches, fillTranches, statusesOf_fillTranche, if_pos rfl]
    simp [hdone]
  | n + 1, st, hfilled, hleft, hq => by
    have hshares : st.shares trancheSize (n + 1 == 0) = trancheSize := by
      have hle : trancheSize ≤ st.left := by
        rw [← hleft]; push_cast; nlinarith [(Nat.cast_nonneg n : (0 : ℚ) ≤ n)]
      simp [FillLoop.shares, hle]
    have hpart : trancheStatus (n + 1 == 0)
        (st.order.book (st.shares trancheSize (n + 1 == 0)) price) = .partiallyFilled := by
      have hpos : 0 < st.order.filledQty + trancheSize := by linarith
      rw [hshares]
      simp [trancheStatus, SimulatedOrder.book, hpos]
    have hrec := statusesOf_fillTranches price trancheSize hsize n
      (fillTranche cfg price trancheSize (n + 1 == 0) st)
      (by show 0 ≤ st.order.filledQty + st.shares trancheSize (n + 1 == 0)
          rw [hshares]; linarith)
      (by show _ = st.left - st.shares trancheSize (n + 1 == 0)
          rw [hshares, ← hleft]; push_cast; ring)
      (by show st.order.quantity = (st.order.filledQty + st.shares trancheSize (n + 1 == 0))
            + (st.left - st.shares trancheSize (n + 1 == 0))
          rw [hq]; ring)
    have hid : (fillTranche cfg price trancheSize (n + 1 == 0) st).order.ibOrderId
        = st.order.ibOrderId := rfl
    rw [hid, statusesOf_fillTranche, if_pos rfl, hpart] at hrec
    rw [fillTranches, hrec, List.append_assoc, ← List.append_assoc [_], List.singleton_append,
      ← List.replicate_succ]

/-! ### The whole call -/

/-- The record a complete fill at `price` leaves. -/
def SimulatedOrder.filledAt (o : SimulatedOrder) (price : ℚ) : SimulatedOrder :=
  { o with filledQty := o.quantity, avgFillPrice := price, status := .filled }

theorem trancheCount_pos (shares : ℚ) : 0 < trancheCount cfg shares := by
  unfold trancheCount
  split
  · rename_i h; exact lt_trans Nat.one_pos h.2.2
  · exact Nat.one_pos

/-- The statuses a complete fill of `shares` sends: a partial fill for each tranche but the last. -/
def fillStatuses (shares : ℚ) : List OrderStatus :=
  List.replicate (trancheCount cfg shares - 1) .partiallyFilled ++ [.filled]

theorem executeFill_of_none {id : Int32} {s : SimState} (h : s.orders.get? id = none)
    (shares price : ℚ) : executeFill cfg id shares price s = s := by
  simp [executeFill, h]

/-- Nothing is filled when nothing remains. -/
theorem executeFill_of_done {id : Int32} {s : SimState} {o : SimulatedOrder}
    (h : s.orders.get? id = some o) (hdone : o.quantity - o.filledQty ≤ 0) (shares price : ℚ) :
    executeFill cfg id shares price s = s := by
  simp only [executeFill, h]
  exact if_pos hdone

section Fresh

variable {id : Int32} {s : SimState} {o : SimulatedOrder} {shares : ℚ} (price : ℚ)
  (h : s.orders.get? id = some o) (hfilled : o.filledQty = 0) (hq : 0 < o.quantity)
  (hshares : o.quantity ≤ shares)

include h hfilled hq hshares

/-- The call on an order with nothing filled yet, written out. -/
theorem executeFill_eq : ∃ n, trancheCount cfg o.quantity = n + 1 ∧
    ∃ size > 0, (n + 1 : ℕ) * size = o.quantity ∧ executeFill cfg id shares price s =
      (fillTranches cfg price size (n + 1) ⟨s, o, o.quantity⟩).sim.setOrder (o.filledAt price) := by
  obtain ⟨n, hn⟩ := Nat.exists_eq_add_one.mpr (trancheCount_pos cfg o.quantity)
  have hn0 : (0 : ℚ) < (n + 1 : ℕ) := by exact_mod_cast Nat.succ_pos n
  have hsize : 0 < o.quantity / (n + 1 : ℕ) := div_pos hq hn0
  refine ⟨n, hn, o.quantity / (n + 1 : ℕ), hsize, mul_div_cancel₀ _ hn0.ne', ?_⟩
  have hrem : ¬ o.quantity - o.filledQty ≤ 0 := by rw [hfilled, sub_zero]; exact not_le.mpr hq
  have hmin : min shares (o.quantity - o.filledQty) = o.quantity := by
    rw [hfilled, sub_zero]; exact min_eq_right hshares
  set st := fillTranches cfg price (o.quantity / (n + 1 : ℕ)) (n + 1) ⟨s, o, o.quantity⟩ with hst
  have hord := fillTranches_order cfg price (o.quantity / (n + 1 : ℕ)) n ⟨s, o, o.quantity⟩
  have hat : AtPrice price st :=
    AtPrice.fillTranches cfg hsize.le (n + 1) ⟨hfilled.ge, hq.le, Or.inl hfilled⟩
  rw [← hst, hfilled, zero_add] at hord
  have havg : st.order.avgFillPrice = price := by
    refine hat.avg.resolve_left ?_
    rw [hord]; exact hq.ne'
  have hdone : st.order.quantity - st.order.filledQty ≤ 0 := by rw [hord]; simp
  simp only [executeFill, h, if_neg hrem, hmin, hn, ← hst, if_pos hdone]
  rw [hord, havg, SimulatedOrder.filledAt]

/-- An order that nothing has filled yet is filled whole. -/
theorem executeFill_orders :
    (executeFill cfg id shares price s).orders = s.orders.put (o.filledAt price) := by
  obtain ⟨n, _, size, _, _, he⟩ := executeFill_eq cfg price h hfilled hq hshares
  rw [he, SimState.setOrder_orders, (sameBook_fillTranches cfg price size (n + 1) _).orders]

/-- The statuses it sends: partial fills, then the complete one. -/
theorem statusesOf_executeFill (k : Int32) :
    statusesOf k (executeFill cfg id shares price s).orderTx = statusesOf k s.orderTx ++
      if k = id then fillStatuses cfg o.quantity else [] := by
  obtain ⟨n, hn, size, hsize, hleft, he⟩ := executeFill_eq cfg price h hfilled hq hshares
  have hid : o.ibOrderId = id := Store.key_of_get? h
  rw [he, SimState.setOrder_orderTx]
  split
  · rename_i hk
    rw [hk, ← hid, fillStatuses, hn]
    exact statusesOf_fillTranches cfg price size hsize n ⟨s, o, o.quantity⟩ hfilled.ge hleft
      (by rw [hfilled, zero_add])
  · rename_i hk
    rw [statusesOf_fillTranches_of_ne cfg price size (n + 1) ⟨s, o, o.quantity⟩
      (by rw [hid]; exact Ne.symm hk), List.append_nil]

end Fresh

/-- Whatever it fills, the brackets and the counters stay as they are. -/
theorem executeFill_keeps (id : Int32) (shares price : ℚ) (s : SimState) :
    (executeFill cfg id shares price s).bracketLinks = s.bracketLinks ∧
      (executeFill cfg id shares price s).orderCount = s.orderCount := by
  unfold executeFill
  split
  · exact ⟨rfl, rfl⟩
  · rename_i order h
    dsimp only
    split
    · exact ⟨rfl, rfl⟩
    · have hbook := sameBook_fillTranches cfg price
        (min shares (order.quantity - order.filledQty) /
          (trancheCount cfg (min shares (order.quantity - order.filledQty)) : ℚ))
        (trancheCount cfg (min shares (order.quantity - order.filledQty)))
        ⟨s, order, min shares (order.quantity - order.filledQty)⟩
      exact ⟨hbook.bracketLinks, hbook.orderCount⟩

theorem executeFill_bracketLinks (id : Int32) (shares price : ℚ) (s : SimState) :
    (executeFill cfg id shares price s).bracketLinks = s.bracketLinks :=
  (executeFill_keeps cfg id shares price s).1

end Midas.Broker
