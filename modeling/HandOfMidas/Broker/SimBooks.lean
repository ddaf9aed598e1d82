import HandOfMidas.Broker.SimMoney

/-! The books of the simulator: cash, profit and positions, the executions and commissions that were
    sent, and what is filled of each order. They stay balanced when an order is new and when a part of
    one is filled. -/

namespace Midas.Broker

open Trade

/-! ### What was executed -/

/-- An `ExecutionDetails` event. -/
structure Execution where
  ibOrderId : Int32
  execId : String
  shares : ℚ
  price : ℚ

/-- What a `Commission` event charges for an execution. -/
structure Charge where
  execId : String
  commission : ℚ

def OrderEvent.execution? : OrderEvent → Option Execution
  | .executionDetails ibOrderId execId shares price => some ⟨ibOrderId, execId, shares, price⟩
  | _ => none

def OrderEvent.charge? : OrderEvent → Option Charge
  | .commission execId fee _ _ => some ⟨execId, fee⟩
  | _ => none

/-- The shares executed of one order. -/
def sharesOf (ibOrderId : Int32) (executions : List Execution) : ℚ :=
  ((executions.filter (·.ibOrderId = ibOrderId)).map (·.shares)).sum

/-- The shares executed of one order, each at its price. -/
def notionalOf (ibOrderId : Int32) (executions : List Execution) : ℚ :=
  ((executions.filter (·.ibOrderId = ibOrderId)).map fun e => e.shares * e.price).sum

theorem sharesOf_concat (k : Int32) (es : List Execution) (e : Execution) :
    sharesOf k (es ++ [e]) = sharesOf k es + if e.ibOrderId = k then e.shares else 0 := by
  unfold sharesOf
  by_cases h : e.ibOrderId = k <;> simp [h]

theorem notionalOf_concat (k : Int32) (es : List Execution) (e : Execution) :
    notionalOf k (es ++ [e]) = notionalOf k es + if e.ibOrderId = k then e.shares * e.price else 0 := by
  unfold notionalOf
  by_cases h : e.ibOrderId = k <;> simp [h]

/-- What is filled of an order, and what it trades. -/
structure Tally where
  symbol : String
  action : OrderAction
  filledQty : ℚ
  avgFillPrice : ℚ

def SimulatedOrder.tally (o : SimulatedOrder) : Tally :=
  ⟨o.symbol.symbol, o.action, o.filledQty, o.avgFillPrice⟩

/-- A tally with more filled. -/
def Tally.book (t : Tally) (shares price : ℚ) : Tally :=
  { t with
    filledQty := t.filledQty + shares
    avgFillPrice :=
      if t.filledQty = 0 then price
      else (t.avgFillPrice * t.filledQty + price * shares) / (t.filledQty + shares) }

/-! ### The view -/

/-- The money of a state, and what it is accounted for by. -/
@[ext] structure Money where
  cash : ℚ
  realizedPnl : ℚ
  positions : Store PositionState.symbol
  executions : List Execution
  charges : List Charge
  tally : Int32 → Option Tally

namespace Money

/-- The executions as trades, each with its commission. -/
def trades (m : Money) : List (Trade String ℚ) :=
  (m.executions.zip m.charges).filterMap fun p =>
    (m.tally p.1.ibOrderId).map fun t =>
      ⟨t.symbol, t.action.signed p.1.shares, p.1.price, p.2.commission⟩

def position (m : Money) (symbol : String) : PositionState :=
  (m.positions.get? symbol).getD ⟨symbol, 0, 0⟩

/-- The positions at their average cost. -/
def cost (m : Money) : ℚ := (m.positions.items.map fun p => p.quantity * p.avgCost).sum

/-- A fill of the order `k`, which has the tally `t`. -/
def fill (m : Money) (k : Int32) (t : Tally) (execId : String) (shares price commission : ℚ) : Money :=
  let after := (m.position t.symbol).afterFill (t.action.signed shares) shares price commission
  { cash := m.cash - (t.action.signed shares * price + commission)
    realizedPnl := m.realizedPnl + after.2.getD 0
    positions := m.positions.put after.1
    executions := m.executions ++ [⟨k, execId, shares, price⟩]
    charges := m.charges ++ [⟨execId, commission⟩]
    tally := Function.update m.tally k (some (t.book shares price)) }

/-- An order `k` that is new, with the tally `t`. -/
def place (m : Money) (k : Int32) (t : Tally) : Money :=
  { m with tally := Function.update m.tally k (some t) }

/-- The books balance. -/
structure Balanced (m : Money) (initialCash : ℚ) : Prop where
  paired : m.charges.map (·.execId) = m.executions.map (·.execId)
  known : ∀ e ∈ m.executions, (m.tally e.ibOrderId).isSome
  nonneg : ∀ k t, m.tally k = some t → 0 ≤ t.filledQty
  filled : ∀ k t, m.tally k = some t → t.filledQty = sharesOf k m.executions
  average : ∀ k t, m.tally k = some t → t.avgFillPrice * t.filledQty = notionalOf k m.executions
  unpriced : ∀ k t, m.tally k = some t → t.filledQty = 0 → t.avgFillPrice = 0
  position : ∀ symbol, (m.position symbol).quantity = quantityOf m.trades symbol
  money : m.cash + m.cost = initialCash + m.realizedPnl - openingFees m.trades

theorem abs_signed {shares : ℚ} (h : 0 < shares) (action : OrderAction) :
    |action.signed shares| = shares := by
  cases action
  · exact abs_of_pos h
  · exact (abs_neg shares).trans (abs_of_pos h)

/-- Trades are read off the orders that were executed. -/
theorem trades_congr {m m' : Money} (hexecutions : m'.executions = m.executions)
    (hcharges : m'.charges = m.charges)
    (htally : ∀ e ∈ m.executions, ((m'.tally e.ibOrderId).map fun t => (t.symbol, t.action)) =
      (m.tally e.ibOrderId).map fun t => (t.symbol, t.action)) : m'.trades = m.trades := by
  rw [trades, trades, hexecutions, hcharges]
  refine List.filterMap_congr fun p hp => ?_
  have hsame := htally p.1 (List.of_mem_zip hp).1
  cases h : m.tally p.1.ibOrderId <;> cases h' : m'.tally p.1.ibOrderId <;> simp_all

/-- Every execution is a trade. -/
theorem Balanced.length_trades {m : Money} {initialCash : ℚ} (h : m.Balanced initialCash) :
    m.trades.length = m.executions.length := by
  have hlength : m.charges.length = m.executions.length := by simpa using congrArg List.length h.paired
  have hall : m.trades.length = (m.executions.zip m.charges).length :=
    List.filterMap_length_eq_length.mpr fun p hp => by
      simpa using h.known p.1 (List.of_mem_zip hp).1
  rw [hall, List.length_zip, hlength, min_self]

/-- A fill is one more trade. -/
theorem trades_fill {m : Money} (hpaired : m.charges.map (·.execId) = m.executions.map (·.execId))
    {k : Int32} {t : Tally} (ht : m.tally k = some t) (execId : String) (shares price commission : ℚ) :
    (m.fill k t execId shares price commission).trades =
      m.trades ++ [⟨t.symbol, t.action.signed shares, price, commission⟩] := by
  have hlast : (m.fill k t execId shares price commission).tally k = some (t.book shares price) := by
    simp [fill]
  have hold : (m.executions.zip m.charges).filterMap (fun p =>
      ((m.fill k t execId shares price commission).tally p.1.ibOrderId).map fun t =>
        (⟨t.symbol, t.action.signed p.1.shares, p.1.price, p.2.commission⟩ : Trade String ℚ)) =
          m.trades := by
    refine List.filterMap_congr fun p _ => ?_
    by_cases hp : p.1.ibOrderId = k
    · rw [hp, hlast, ht]
      rfl
    · simp [fill, hp]
  have hzip : (m.fill k t execId shares price commission).executions.zip
      (m.fill k t execId shares price commission).charges =
        m.executions.zip m.charges ++ [(⟨k, execId, shares, price⟩, ⟨execId, commission⟩)] :=
    List.zip_append (by simpa using congrArg List.length hpaired.symm)
  rw [trades, hzip, List.filterMap_append, hold]
  simp [hlast, Tally.book]

theorem position_symbol (m : Money) (symbol : String) : (m.position symbol).symbol = symbol := by
  unfold position
  cases h : m.positions.get? symbol with
  | none => rfl
  | some p => exact Store.key_of_get? h

theorem position_fill (m : Money) (k : Int32) (t : Tally) (execId : String)
    (shares price commission : ℚ)
    (symbol : String) :
    ((m.fill k t execId shares price commission).position symbol).quantity =
      (m.position symbol).quantity + if t.symbol = symbol then t.action.signed shares else 0 := by
  rw [position, fill, Store.get?_put, PositionState.afterFill_symbol, position_symbol]
  by_cases h : t.symbol = symbol
  · simp [h]
  · simp [h, Ne.symm h, position]

/-- The cost of the positions changes by that of one. -/
theorem cost_fill (m : Money) (k : Int32) (t : Tally) (execId : String) {shares : ℚ}
    (hshares : 0 < shares)
    (price commission : ℚ) :
    (m.fill k t execId shares price commission).cost +
      (m.fill k t execId shares price commission).cash =
      m.cost + m.cash + ((m.fill k t execId shares price commission).realizedPnl - m.realizedPnl) -
        openingFee (m.position t.symbol).quantity ⟨t.symbol, t.action.signed shares, price,
          commission⟩ := by
  have hcost :=
    (m.position t.symbol).afterFill_cost hshares (abs_signed hshares t.action) price commission
  have hold : ((m.positions.get? t.symbol).elim 0 fun p => p.quantity * p.avgCost) =
      (m.position t.symbol).quantity * (m.position t.symbol).avgCost := by
    unfold position
    cases m.positions.get? t.symbol <;> simp
  simp only [cost, fill, Store.sum_put, PositionState.afterFill_symbol, position_symbol, hold, hcost,
    openingFee]
  ring

/-- A fill keeps the books balanced. -/
theorem Balanced.fill {m : Money} {initialCash : ℚ} (h : m.Balanced initialCash) {k : Int32} {t : Tally}
    (ht : m.tally k = some t) (execId : String) {shares : ℚ} (hshares : 0 < shares)
    (price commission : ℚ) :
    (m.fill k t execId shares price commission).Balanced initialCash := by
  have htally (j : Int32) (u : Tally) (hu : (m.fill k t execId shares price commission).tally j =
    some u) :
      j = k ∧ u = t.book shares price ∨ j ≠ k ∧ m.tally j = some u := by
    by_cases hj : j = k
    · rw [hj] at hu ⊢
      exact .inl ⟨rfl, by simpa [Money.fill, eq_comm] using hu⟩
    · exact .inr ⟨hj, by simpa [Money.fill, hj] using hu⟩
  have hnonneg := h.nonneg k t ht
  have hmore : 0 < t.filledQty + shares := add_pos_of_nonneg_of_pos hnonneg hshares
  have htrades := trades_fill h.paired ht execId shares price commission
  constructor
  · simp [Money.fill, h.paired]
  · intro e he
    by_cases hk : e.ibOrderId = k
    · simp [Money.fill, hk]
    · rcases List.mem_append.mp he with he | he
      · simpa [Money.fill, hk] using h.known e he
      · exact absurd (congrArg Execution.ibOrderId (List.mem_singleton.mp he)) hk
  · intro j u hu
    rcases htally j u hu with ⟨rfl, rfl⟩ | ⟨-, hu⟩
    · exact hmore.le
    · exact h.nonneg j u hu
  · intro j u hu
    rw [Money.fill, sharesOf_concat]
    rcases htally j u hu with ⟨rfl, rfl⟩ | ⟨hj, hu⟩
    · simp [Tally.book, h.filled j t ht]
    · simp [h.filled j u hu, Ne.symm hj]
  · intro j u hu
    rw [Money.fill, notionalOf_concat]
    rcases htally j u hu with ⟨rfl, rfl⟩ | ⟨hj, hu⟩
    · rw [← h.average j t ht]
      unfold Tally.book
      by_cases hzero : t.filledQty = 0
      · simp [hzero, mul_comm]
      · simp only [hzero, if_false, if_true]
        field_simp
    · simp [h.average j u hu, Ne.symm hj]
  · intro j u hu hzero
    rcases htally j u hu with ⟨rfl, rfl⟩ | ⟨-, hu⟩
    · exact absurd hzero hmore.ne'
    · exact h.unpriced j u hu hzero
  · intro symbol
    rw [htrades, quantityOf_concat, position_fill, h.position symbol]
  · have hcost := m.cost_fill k t execId hshares price commission
    have hquantity := h.position t.symbol
    rw [hquantity] at hcost
    rw [htrades, openingFees_concat]
    linear_combination hcost + h.money

/-- So does a new order, with nothing filled. -/
theorem Balanced.place {m : Money} {initialCash : ℚ} (h : m.Balanced initialCash) {k : Int32}
    {t : Tally}
    (hnew : m.tally k = none) (hfilled : t.filledQty = 0) (havg : t.avgFillPrice = 0) :
    (m.place k t).Balanced initialCash := by
  have hother {j : Int32} (hj : (m.tally j).isSome) : j ≠ k := by
    rintro rfl
    simp [hnew] at hj
  have htally (j : Int32) (u : Tally) (hu : (m.place k t).tally j = some u) :
      j = k ∧ u = t ∨ m.tally j = some u := by
    by_cases hj : j = k
    · rw [hj] at hu ⊢
      exact .inl ⟨rfl, by simpa [Money.place, eq_comm] using hu⟩
    · exact .inr (by simpa [Money.place, hj] using hu)
  have hnone : m.executions.filter (·.ibOrderId = k) = [] := by
    refine List.filter_eq_nil_iff.mpr fun e he => ?_
    simpa using hother (h.known e he)
  have htrades : (m.place k t).trades = m.trades := by
    refine trades_congr rfl rfl fun e he => ?_
    simp [Money.place, hother (h.known e he)]
  constructor
  · exact h.paired
  · intro e he
    simpa [Money.place, hother (h.known e he)] using h.known e he
  · intro j u hu
    rcases htally j u hu with ⟨rfl, rfl⟩ | hu
    · exact hfilled.ge
    · exact h.nonneg j u hu
  · intro j u hu
    rcases htally j u hu with ⟨rfl, rfl⟩ | hu
    · simp [Money.place, sharesOf, hnone, hfilled]
    · exact h.filled j u hu
  · intro j u hu
    rcases htally j u hu with ⟨rfl, rfl⟩ | hu
    · simp [Money.place, notionalOf, hnone, hfilled]
    · exact h.average j u hu
  · intro j u hu hzero
    rcases htally j u hu with ⟨rfl, rfl⟩ | hu
    · exact havg
    · exact h.unpriced j u hu hzero
  · intro symbol
    rw [htrades]
    exact h.position symbol
  · rw [htrades]
    exact h.money

end Money

/-! ### The books of a state -/

def SimState.money (s : SimState) : Money where
  cash := s.cash
  realizedPnl := s.realizedPnl
  positions := s.positions
  executions := s.orderTx.filterMap OrderEvent.execution?
  charges := s.orderTx.filterMap OrderEvent.charge?
  tally k := (s.orders.get? k).map SimulatedOrder.tally

/-- Only executions and commissions tell of money. -/
theorem money_send {e : OrderEvent} (s : SimState) (he : e.execution? = none) (hc : e.charge? = none) :
    (s.send e).money = s.money := by
  simp [SimState.money, SimState.send, he, hc]

@[simp] theorem money_send_status (s : SimState) (id : Int32) (st : OrderStatus) (a b c : ℚ) :
    (s.send (.statusChanged id st a b c)).money = s.money := money_send s rfl rfl

@[simp] theorem money_send_submitted (s : SimState) (id : Int32) :
    (s.send (.submitted id)).money = s.money := money_send s rfl rfl

@[simp] theorem money_send_cancelled (s : SimState) (id : Int32) :
    (s.send (.cancelled id)).money = s.money := money_send s rfl rfl

@[simp] theorem money_send_rejected (s : SimState) (id : Int32) (reason : String) :
    (s.send (.rejected id reason)).money = s.money := money_send s rfl rfl

/-- A record that is put in the map. -/
theorem money_setOrder (s : SimState) (o : SimulatedOrder) :
    (s.setOrder o).money = s.money.place o.ibOrderId o.tally := by
  apply Money.ext <;> try rfl
  funext k
  by_cases hk : k = o.ibOrderId <;> simp [SimState.money, Money.place, Store.get?_put, hk]

/-- A record over one with the same tally. -/
theorem money_restate {s : SimState} {o : SimulatedOrder} (o' : SimulatedOrder)
    (h : s.orders.get? o'.ibOrderId = some o) (htally : o'.tally = o.tally) :
    (s.setOrder o').money = s.money := by
  rw [money_setOrder, Money.place, Function.update_eq_self_iff.mpr]
  simp [SimState.money, h, htally]

end Midas.Broker
