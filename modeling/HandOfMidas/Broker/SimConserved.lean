import HandOfMidas.Broker.SimMoves

/-! The money of the simulator over whole runs. A fill is the only move that moves money; every
    other one leaves the books as they are, or adds an order with nothing filled. -/

namespace Midas.Broker

open Trade

variable (cfg : SimOrderConfig)

/-! ### Fills -/

/-- One tranche is one fill. The order that the loop holds stands for the one in the map. -/
theorem money_fillTranche (price trancheSize : ℚ) (isLast : Bool) (st : FillLoop) :
    ((fillTranche cfg price trancheSize isLast st).sim.setOrder
        (fillTranche cfg price trancheSize isLast st).order).money =
      (st.sim.setOrder st.order).money.fill st.order.ibOrderId st.order.tally st.sim.nextExecId.1
        (st.shares trancheSize isLast) price
          (max (st.shares trancheSize isLast * cfg.commissionPerShare) 0) := by
  set shares := st.shares trancheSize isLast with hshares
  have hcash : (fillTranche cfg price trancheSize isLast st).sim.cash =
      st.sim.cash - (st.order.action.signed shares * price +
        max (shares * cfg.commissionPerShare) 0) := by
    simp only [fillTranche, reportTranche, SimState.sendPosition_cash, SimState.send_cash,
      applyPositionOnFill, SimState.nextExecId, SimulatedOrder.book, ← hshares]
    cases st.order.action with
    | buy => rfl
    | sell =>
      simp only [OrderAction.signed]
      ring
  have horders := (sameBook_fillTranche cfg price trancheSize isLast st).orders
  apply Money.ext
  case cash => exact hcash
  case realizedPnl => rfl
  case positions => rfl
  case tally =>
    have hid : (fillTranche cfg price trancheSize isLast st).order.ibOrderId = st.order.ibOrderId := rfl
    have htally : (fillTranche cfg price trancheSize isLast st).order.tally =
      st.order.tally.book shares price := rfl
    funext k
    by_cases hk : k = st.order.ibOrderId <;>
      simp [SimState.money, Money.fill, SimState.setOrder, horders, Store.get?_put, hk, hid, htally]
  case executions =>
    simp [SimState.money, Money.fill, fillTranche, reportTranche, applyPositionOnFill,
      SimState.nextExecId,
      OrderEvent.execution?, SimulatedOrder.book, ← hshares]
  case charges =>
    simp only [SimState.money, Money.fill, fillTranche, reportTranche, applyPositionOnFill,
      SimState.nextExecId, SimState.sendPosition_orderTx, SimState.setOrder_orderTx,
        SimState.send_orderTx,
      List.filterMap_append, List.append_assoc, ← hshares]
    rfl

/-- All tranches, of equal size, of what is left. -/
theorem balanced_fillTranches {initialCash : ℚ} (price : ℚ) {trancheSize : ℚ}
    (hsize : 0 < trancheSize) :
    ∀ (n : ℕ) (st : FillLoop), n * trancheSize = st.left →
      (st.sim.setOrder st.order).money.Balanced initialCash →
        ((fillTranches cfg price trancheSize n st).sim.setOrder
          (fillTranches cfg price trancheSize n st).order).money.Balanced initialCash
  | 0, _, _, h => h
  | n + 1, st, hleft, h => by
    have hshares : st.shares trancheSize (n == 0) = trancheSize := by
      cases n with
      | zero => simpa [FillLoop.shares] using hleft.symm
      | succ n =>
        have hle : trancheSize ≤ st.left := by
          rw [← hleft]
          push_cast
          nlinarith [(Nat.cast_nonneg n : (0 : ℚ) ≤ n)]
        simp [FillLoop.shares, hle]
    have htally : (st.sim.setOrder st.order).money.tally st.order.ibOrderId = some st.order.tally := by
      simp [SimState.money]
    refine balanced_fillTranches price hsize n (fillTranche cfg price trancheSize (n == 0) st) ?_ ?_
    · have hrest : (fillTranche cfg price trancheSize (n == 0) st).left = st.left - trancheSize := by
        rw [fillTranche, hshares]
      rw [hrest, ← hleft]
      push_cast
      ring
    · rw [money_fillTranche]
      exact h.fill htally _ (by rw [hshares]; exact hsize) _ _

/-- The books stay balanced over `execute_fill`. -/
theorem balanced_executeFill {initialCash : ℚ} {s : SimState} (h : s.money.Balanced initialCash)
    {id : Int32}
    {shares : ℚ} (price : ℚ)
    (hshares : ∀ o, s.orders.get? id = some o → 0 < o.quantity - o.filledQty → 0 < shares) :
    (executeFill cfg id shares price s).money.Balanced initialCash := by
  unfold executeFill
  cases ho : s.orders.get? id with
  | none => exact h
  | some o =>
    obtain rfl : o.ibOrderId = id := Store.key_of_get? ho
    dsimp only
    split
    · exact h
    rename_i hrem
    have hmin : 0 < min shares (o.quantity - o.filledQty) :=
      lt_min (hshares o ho (not_le.mp hrem)) (not_le.mp hrem)
    set shares' := min shares (o.quantity - o.filledQty)
    have hn : (0 : ℚ) < trancheCount cfg shares' := by exact_mod_cast trancheCount_pos cfg shares'
    have hloop := balanced_fillTranches cfg price (div_pos hmin hn) (trancheCount cfg shares')
      ⟨s, o, shares'⟩ (mul_div_cancel₀ _ hn.ne') ((money_restate _ ho rfl).symm ▸ h)
    set st := fillTranches cfg price (shares' / trancheCount cfg shares') (trancheCount cfg shares')
      ⟨s, o, shares'⟩
    -- The status that the order ends in is no part of its tally.
    have hstatus (o' : SimulatedOrder) (hid : o'.ibOrderId = st.order.ibOrderId)
        (htally : o'.tally = st.order.tally) : (st.sim.setOrder o').money =
          (st.sim.setOrder st.order).money := by
      rw [money_setOrder, money_setOrder, hid, htally]
    refine (hstatus _ ?_ ?_).symm ▸ hloop
    · split_ifs <;> rfl
    · split_ifs <;> rfl

/-! ### Every run -/

/-- Every move keeps the books balanced. -/
theorem balanced_move {cfg : SimOrderConfig} {C : SimulatedOrder → Prop}
    {A : SimulatedOrder → SimulatedOrder → Prop}
    {initialCash : ℚ} {s s' : SimState} (hmove : Move cfg C A s s') (h : s.money.Balanced initialCash) :
    s'.money.Balanced initialCash := by
  cases hmove with
  | note _ _ hmoney => exact hmoney ▸ h
  | restatus o st ho => exact (money_restate { o with status := st } ho rfl).symm ▸ h
  | fill o shares price ho _ hshares =>
    refine balanced_executeFill cfg h price fun o' ho' hrem => ?_
    obtain rfl : o = o' := Option.some.inj (ho.symm.trans ho')
    have hnonneg : 0 ≤ o.filledQty := h.nonneg o.ibOrderId o.tally (by simp [SimState.money, ho])
    rcases hshares with rfl | rfl <;> linarith
  | amend o o' ho hid htally => exact (money_restate o' (hid ▸ ho) htally).symm ▸ h
  | create o hnew _ hfilled havg =>
    rw [money_setOrder]
    exact h.place (by simp [SimState.money, hnew]) hfilled havg

theorem balanced_step {cfg : SimOrderConfig} {initialCash : ℚ} (s : SimState) (op : Op)
    (h : s.money.Balanced initialCash) : (step cfg s op).money.Balanced initialCash :=
  inv_of_path (I := fun s => s.money.Balanced initialCash) (fun _ _ hmove => balanced_move hmove)
    (moves_step (C := fun _ => True) (A := fun _ _ => True) (fun _ _ _ _ => trivial) fun _ _ _ _ =>
      trivial) h

theorem balanced_new (cfg : SimOrderConfig) : (SimState.new cfg).money.Balanced cfg.initialCash := by
  have htally (k : Int32) (t : Tally) : (SimState.new cfg).money.tally k ≠ some t := by
    simp [SimState.money, SimState.new]
  constructor
  case paired => rfl
  case known => exact fun e he => absurd he List.not_mem_nil
  case nonneg => exact fun k t ht => absurd ht (htally k t)
  case filled => exact fun k t ht => absurd ht (htally k t)
  case average => exact fun k t ht => absurd ht (htally k t)
  case unpriced => exact fun k t ht => absurd ht (htally k t)
  case position => exact fun _ => rfl
  case money =>
    change cfg.initialCash + 0 = cfg.initialCash + 0 - 0
    ring

theorem balanced_runFrom (cfg : SimOrderConfig) (ops : List Op) :
    (runFrom cfg ops).money.Balanced cfg.initialCash :=
  inv_run (step cfg) (I := fun s => s.money.Balanced cfg.initialCash) balanced_step
    (balanced_new cfg) ops

/-- Money is conserved in every run. The executions, each with the commission that has its id, are
    trades that add up to the positions; an order is filled by its executions, at their mean price;
    and cash and the cost of the positions make what there was at first and the profit realized
    since, less the commissions of the shares that were opened. -/
theorem money_conserved (cfg : SimOrderConfig) (ops : List Op) :
    let s := runFrom cfg ops
    let executions := s.money.executions
    let trades := s.money.trades
    (s.money.charges.map (·.execId) = executions.map (·.execId) ∧ trades.length = executions.length) ∧
      (∀ symbol, (s.position symbol).quantity = quantityOf trades symbol) ∧
      (∀ k o, s.orders.get? k = some o → o.filledQty = sharesOf k executions ∧
        o.avgFillPrice = notionalOf k executions / sharesOf k executions) ∧
      s.cash + (s.positions.items.map fun p => p.quantity * p.avgCost).sum =
        cfg.initialCash + s.realizedPnl - openingFees trades := by
  intro s executions trades
  have h : s.money.Balanced cfg.initialCash := balanced_runFrom cfg ops
  refine ⟨⟨h.paired, h.length_trades⟩, h.position, fun k o ho => ?_, h.money⟩
  have htally : s.money.tally k = some o.tally := by simp [SimState.money, ho]
  have hfilled : o.filledQty = sharesOf k executions := h.filled k o.tally htally
  refine ⟨hfilled, ?_⟩
  by_cases hzero : o.filledQty = 0
  · rw [← hfilled, hzero, div_zero]
    exact h.unpriced k o.tally htally hzero
  · have havg : o.avgFillPrice * o.filledQty = notionalOf k executions := h.average k o.tally htally
    rw [← hfilled, ← havg, mul_div_cancel_right₀ _ hzero]

end Midas.Broker
