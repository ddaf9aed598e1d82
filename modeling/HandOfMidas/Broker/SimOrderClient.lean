import HandOfMidas.Lib.Store
import HandOfMidas.Lib.Run
import HandOfMidas.Broker.OrderClient
import Mathlib.Algebra.Order.Field.Rat
import Mathlib.Algebra.Order.Group.Unbundled.Abs
import Mathlib.Logic.Function.Basic
import Mathlib.Tactic.Simps.Basic

/-! The IB-faithful simulator `SimOrderClient` (`sim/order_client.rs`), function by function. The
    mutex makes every call one step, so a call is a function from state to state; what the client
    sends on its broadcast channels is appended to `orderTx` and `positionTx`. Two things the
    source leaves open come from outside: the live price a paired market-data backend would answer
    with (`live`), and the order in which a hash map hands out its values (`Visit`). -/

namespace Midas.Broker

inductive SimOrderStatus where
  | held | working | triggered | partiallyFilled | filled | cancelled | rejected
  deriving DecidableEq, Repr

def SimOrderStatus.isTerminal : SimOrderStatus → Bool
  | .filled | .cancelled | .rejected => true
  | _ => false

/-- `map_status`: the canonical status a sim-internal one stands for. -/
def mapStatus : SimOrderStatus → OrderStatus
  | .held => .preSubmitted
  | .working => .submitted
  | .triggered => .preSubmitted
  | .partiallyFilled => .partiallyFilled
  | .filled => .filled
  | .cancelled => .cancelled
  | .rejected => .rejected

structure SimulatedOrder where
  ibOrderId : Int32
  symbol : SymbolKey
  action : OrderAction
  orderType : OrderType
  quantity : ℚ
  limitPrice : Option ℚ
  stopPrice : Option ℚ
  parentId : Option Int32
  transmit : Bool
  status : SimOrderStatus
  filledQty : ℚ
  avgFillPrice : ℚ
  tif : Tif
  outsideRth : Bool
  deriving DecidableEq

structure PositionState where
  symbol : String
  quantity : ℚ
  avgCost : ℚ
  deriving DecidableEq

/-- `SimOrderConfig`. -/
structure SimOrderConfig where
  fillTiming : String := "instant"
  initialCash : ℚ := 100000
  commissionPerShare : ℚ := 5 / 1000
  partialFillThreshold : ℚ := 0
  partialFillTranches : ℕ := 1
  rejectionRate : ℚ := 0
  nextOrderIdSeed : Int32 := 1000
  defaultSpread : ℚ := 1 / 100

/-- The mutable half of a `SimOrderClient`. A cancel stream is named by its place in `cancelTx`,
    where the events sent on it are kept. -/
structure SimState where
  orders : Store SimulatedOrder.ibOrderId
  bracketLinks : Int32 → Option (List Int32)
  marketPrices : String → Option ℚ
  positions : Store PositionState.symbol
  cash : ℚ
  realizedPnl : ℚ
  cancelStreams : Int32 → Option (List ℕ)
  orderCount : ℕ
  nextId : Int32
  execCounter : Int32
  orderTx : List OrderEvent
  positionTx : List PositionUpdate
  cancelTx : List (List CancelOrderEvent)

/-- The order in which one walk over a hash map meets the values. -/
structure Visit where
  order : List SimulatedOrder → List SimulatedOrder
  perm : ∀ l, (order l).Perm l

/-- The order in which the values are stored. -/
def Visit.asStored : Visit := ⟨id, fun _ => List.Perm.refl _⟩

/-- The prices the paired market-data backend holds, if there is one and it knows the symbol. -/
abbrev Live := SymbolKey → Option ℚ

/-- No paired backend. -/
def Live.unpaired : Live := fun _ => none

namespace SimState

def new (cfg : SimOrderConfig) : SimState where
  orders := Store.empty
  bracketLinks := fun _ => none
  marketPrices := fun _ => none
  positions := Store.empty
  cash := cfg.initialCash
  realizedPnl := 0
  cancelStreams := fun _ => none
  orderCount := 0
  nextId := cfg.nextOrderIdSeed
  execCounter := 1
  orderTx := []
  positionTx := []
  cancelTx := []

/-- `order_tx.send`. -/
@[simps] def send (s : SimState) (e : OrderEvent) : SimState := { s with orderTx := s.orderTx ++ [e] }

/-- `position_tx.send`. -/
@[simps] def sendPosition (s : SimState) (p : PositionUpdate) : SimState :=
  { s with positionTx := s.positionTx ++ [p] }

/-- Send on one cancel stream. -/
@[simps] def sendCancel (s : SimState) (stream : ℕ) (e : CancelOrderEvent) : SimState :=
  { s with cancelTx := s.cancelTx.modify stream (· ++ [e]) }

@[simps] def setOrder (s : SimState) (o : SimulatedOrder) : SimState :=
  { s with orders := s.orders.put o }

/-- `next_exec_id`. -/
def nextExecId (s : SimState) : String × SimState :=
  ("SIM." ++ toString s.execCounter, { s with execCounter := s.execCounter + 1 })

end SimState

variable (cfg : SimOrderConfig)

def getMarketPrice (live : Live) (s : SimState) (symbol : SymbolKey) : ℚ :=
  match live symbol with
  | some price => price
  | none => (s.marketPrices symbol.symbol).getD 100

def marketFillPrice (basePrice : ℚ) (action : OrderAction) : ℚ :=
  let half := cfg.defaultSpread / 2
  match action with
  | .buy => basePrice + half
  | .sell => basePrice - half

/-- The position after a fill, and the realized PnL when the fill reduces or flips it. The
    `f64::EPSILON` test is the one for zero at exact arithmetic. -/
def PositionState.afterFill (pos : PositionState) (signedShares shares price commission : ℚ) :
    PositionState × Option ℚ :=
  if signum pos.quantity = signum signedShares ∨ pos.quantity = 0 then
    let totalCost := pos.avgCost * |pos.quantity| + price * shares
    let quantity := pos.quantity + signedShares
    let avgCost := if 0 < |quantity| then totalCost / |quantity| else pos.avgCost
    ({ pos with quantity := quantity, avgCost := avgCost }, none)
  else
    let closeQty := min shares |pos.quantity|
    let r := (price - pos.avgCost) * closeQty * signum pos.quantity
    let closeRatio := closeQty / shares
    let closeCommission := closeRatio * commission
    let net := r - closeCommission
    let quantity := pos.quantity + signedShares
    let avgCost :=
      if quantity = 0 then 0
      else if signum quantity ≠ signum pos.quantity then price
      else pos.avgCost
    ({ pos with quantity := quantity, avgCost := avgCost }, some net)

/-- Shares counted with the sign of the side. -/
def OrderAction.signed (shares : ℚ) : OrderAction → ℚ
  | .buy => shares
  | .sell => -shares

/-- The position in `symbol`, flat when there is none yet. -/
def SimState.position (s : SimState) (symbol : String) : PositionState :=
  (s.positions.get? symbol).getD ⟨symbol, 0, 0⟩

/-- Apply a fill to positions and cash; the realized PnL when it reduces or flips the position. -/
def applyPositionOnFill (symbol : String) (action : OrderAction) (shares price commission : ℚ)
    (s : SimState) : Option ℚ × SimState :=
  let notional := shares * price
  let after := (s.position symbol).afterFill (action.signed shares) shares price commission
  (after.2, { s with
    cash := match action with
      | .buy => s.cash - (notional + commission)
      | .sell => s.cash + (notional - commission)
    realizedPnl := s.realizedPnl + after.2.getD 0
    positions := s.positions.put after.1 })

/-- Book `shares` at `price` on the record: filled quantity and average price. -/
def SimulatedOrder.book (o : SimulatedOrder) (shares price : ℚ) : SimulatedOrder :=
  { o with
    filledQty := o.filledQty + shares
    avgFillPrice :=
      if o.filledQty = 0 then price
      else (o.avgFillPrice * o.filledQty + price * shares) / (o.filledQty + shares) }

/-- The status a tranche reports, of the record it leaves. -/
def trancheStatus (isLast : Bool) (o : SimulatedOrder) : OrderStatus :=
  if o.quantity - o.filledQty ≤ 0 ∧ isLast = true then .filled
  else if 0 < o.filledQty then .partiallyFilled
  else .submitted

/-- Account for one tranche and send its execution, commission, status and position messages, in
    this order. `order` is the record with the tranche already booked. -/
def reportTranche (price fillShares : ℚ) (isLast : Bool) (order : SimulatedOrder) (s : SimState) :
    SimState :=
  let commission := max (fillShares * cfg.commissionPerShare) 0
  let exec := s.nextExecId
  let s := exec.2.send (.executionDetails order.ibOrderId exec.1 fillShares price)
  let applied :=
    applyPositionOnFill order.symbol.symbol order.action fillShares price commission s
  let s := applied.2.send (.commission exec.1 commission applied.1 "USD")
  let s := s.send (.statusChanged order.ibOrderId (trancheStatus isLast order) order.filledQty
    (max (order.quantity - order.filledQty) 0) order.avgFillPrice)
  let pos := s.position order.symbol.symbol
  s.sendPosition ⟨"SIM", order.symbol.symbol, order.symbol.contractId, pos.quantity, pos.avgCost⟩

/-- What the tranche loop of `execute_fill` carries: the state, the order taken out of the map, and
    `shares_remaining_to_fill`. -/
structure FillLoop where
  sim : SimState
  order : SimulatedOrder
  left : ℚ

/-- The shares of one tranche. -/
def FillLoop.shares (st : FillLoop) (trancheSize : ℚ) (isLast : Bool) : ℚ :=
  if isLast then st.left else min trancheSize st.left

/-- One tranche. -/
def fillTranche (price trancheSize : ℚ) (isLast : Bool) (st : FillLoop) : FillLoop :=
  let fillShares := st.shares trancheSize isLast
  let order := st.order.book fillShares price
  ⟨reportTranche cfg price fillShares isLast order st.sim, order, st.left - fillShares⟩

/-- The tranche loop with `n` tranches to go; the last one takes whatever is left. -/
def fillTranches (price trancheSize : ℚ) : ℕ → FillLoop → FillLoop
  | 0, st => st
  | n + 1, st => fillTranches price trancheSize n (fillTranche cfg price trancheSize (n == 0) st)

/-- In how many tranches `shares` are filled. -/
def trancheCount (shares : ℚ) : ℕ :=
  if 0 < cfg.partialFillThreshold ∧ cfg.partialFillThreshold < shares
      ∧ 1 < cfg.partialFillTranches then cfg.partialFillTranches
  else 1

/-- `execute_fill`. The source takes the record out of the map for the loop and puts it back; the
    loop does not look at the map. -/
def executeFill (ibOrderId : Int32) (shares price : ℚ) (s : SimState) : SimState :=
  match s.orders.get? ibOrderId with
  | none => s
  | some order =>
    let remaining := order.quantity - order.filledQty
    if remaining ≤ 0 then s
    else
      let shares := min shares remaining
      let tranches := trancheCount cfg shares
      let trancheSize := shares / tranches
      let st := fillTranches cfg price trancheSize tranches ⟨s, order, shares⟩
      let order :=
        if st.order.quantity - st.order.filledQty ≤ 0 then { st.order with status := .filled }
        else if 0 < st.order.filledQty then { st.order with status := .partiallyFilled }
        else st.order
      st.sim.setOrder order

def fillMarketOrder (live : Live) (ibOrderId : Int32) (s : SimState) : SimState :=
  match s.orders.get? ibOrderId with
  | none => s
  | some o =>
    let base := getMarketPrice live s o.symbol
    let price := marketFillPrice cfg base o.action
    executeFill cfg ibOrderId o.quantity price s

/-- `cancel_order_inner`: cancel a live order and flush the streams waiting for it. -/
def cancelOrderInner (ibOrderId : Int32) (s : SimState) : SimState :=
  let flush (s : SimState) : SimState :=
    match s.cancelStreams ibOrderId with
    | none => s
    | some streams =>
      streams.foldl (fun s tx => s.sendCancel tx (.cancelled ibOrderId))
        { s with cancelStreams := Function.update s.cancelStreams ibOrderId none }
  match s.orders.get? ibOrderId with
  | none => flush s
  | some order =>
    if order.status.isTerminal then s
    else
      let s := s.setOrder { order with status := .cancelled }
      let s := s.send (.statusChanged ibOrderId .cancelled order.filledQty
        (order.quantity - order.filledQty) order.avgFillPrice)
      flush (s.send (.cancelled ibOrderId))

/-- `check_oca_inner`: a filled child cancels its siblings. -/
def checkOcaInner (filledOrderId : Int32) (s : SimState) : SimState :=
  match s.orders.get? filledOrderId with
  | none => s
  | some o =>
    match o.parentId with
    | none => s
    | some parentId =>
      match s.bracketLinks parentId with
      | none => s
      | some siblings =>
        siblings.foldl (fun s sib => if sib ≠ filledOrderId then cancelOrderInner sib s else s) s

/-- One child in `activate_bracket`'s loop. -/
def activateChild (parentFilled : Bool) (s : SimState) (childId : Int32) : SimState :=
  match s.orders.get? childId with
  | none => s
  | some child =>
    if child.status ≠ .held then s
    else if parentFilled then
      match child.orderType with
      | .stop | .stopLimit =>
        (s.setOrder { child with status := .triggered }).send
          (.statusChanged childId .preSubmitted 0 child.quantity 0)
      | _ =>
        ((s.setOrder { child with status := .working }).send (.submitted childId)).send
          (.statusChanged childId .submitted 0 child.quantity 0)
    else
      (s.setOrder { child with status := .triggered }).send
        (.statusChanged childId .preSubmitted 0 child.quantity 0)

def activateBracket (live : Live) (parentId : Int32) (s : SimState) : SimState :=
  match s.orders.get? parentId with
  | none => s
  | some p =>
    if p.status ≠ .held then s
    else
      let s := ((s.setOrder { p with status := .working }).send (.submitted parentId)).send
        (.statusChanged parentId .submitted 0 p.quantity 0)
      let parentIsMkt := (s.orders.get? parentId).any (fun o => decide (o.orderType = .market))
      let s :=
        if parentIsMkt = true ∧ cfg.fillTiming = "instant" then fillMarketOrder cfg live parentId s
        else s
      let children := (s.bracketLinks parentId).getD []
      let parentFilled := (s.orders.get? parentId).any (fun o => decide (o.status = .filled))
      children.foldl (activateChild parentFilled) s

/-- Does `newPrice` meet the limit of an order of this side? -/
def limitMet (newPrice limit : ℚ) : OrderAction → Bool
  | .buy => decide (newPrice ≤ limit)
  | .sell => decide (newPrice ≥ limit)

/-- Does `newPrice` reach the stop of an order of this side? -/
def stopMet (newPrice stop : ℚ) : OrderAction → Bool
  | .sell => decide (newPrice ≤ stop)
  | .buy => decide (newPrice ≥ stop)

/-- The pick of `check_limit_fills`: the order's id and fill price when it is to be filled. -/
def limitFill? (symbol : String) (newPrice : ℚ) (o : SimulatedOrder) : Option (Int32 × ℚ) :=
  if o.symbol.symbol = symbol ∧ o.status = .working ∧ o.orderType = .limit then
    o.limitPrice.bind fun limit =>
      if limitMet newPrice limit o.action then
        some (o.ibOrderId, match o.action with
          | .buy => min limit newPrice
          | .sell => max limit newPrice)
      else none
  else none

def checkLimitFills (visit : Visit) (symbol : String) (newPrice : ℚ) (s : SimState) : SimState :=
  let toFill := (visit.order s.orders.items).filterMap (limitFill? symbol newPrice)
  let s := toFill.foldl (fun s p =>
    match s.orders.get? p.1 with
    | some o => executeFill cfg p.1 (o.quantity - o.filledQty) p.2 s
    | none => s) s
  toFill.foldl (fun s p => checkOcaInner p.1 s) s

/-- The pick of `check_stop_triggers`: the order's id when its stop is hit. -/
def stopHit? (symbol : String) (newPrice : ℚ) (o : SimulatedOrder) : Option Int32 :=
  if o.symbol.symbol = symbol ∧ o.status = .triggered
      ∧ (o.orderType = .stop ∨ o.orderType = .stopLimit) then
    o.stopPrice.bind fun stop =>
      if stopMet newPrice stop o.action then some o.ibOrderId else none
  else none

/-- One triggered order in `check_stop_triggers`'s loop, with the ids filled so far. -/
def triggerStop (newPrice : ℚ) (acc : SimState × List Int32) (id : Int32) :
    SimState × List Int32 :=
  match acc.1.orders.get? id with
  | none => acc
  | some o =>
    let s := (acc.1.setOrder { o with status := .working }).send
      (.statusChanged id .submitted o.filledQty (o.quantity - o.filledQty) 0)
    let remaining := o.quantity - o.filledQty
    if o.orderType = .stop then
      let fill := marketFillPrice cfg newPrice o.action
      (executeFill cfg id remaining fill s, acc.2 ++ [id])
    else
      match o.limitPrice with
      | some limit =>
        if limitMet newPrice limit o.action then
          (executeFill cfg id remaining limit s, acc.2 ++ [id])
        else (s, acc.2)
      | none => (s, acc.2)

def checkStopTriggers (visit : Visit) (symbol : String) (newPrice : ℚ) (s : SimState) : SimState :=
  let triggered := (visit.order s.orders.items).filterMap (stopHit? symbol newPrice)
  let acc := triggered.foldl (triggerStop cfg newPrice) (s, [])
  acc.2.foldl (fun s id => checkOcaInner id s) acc.1

/-- `set_market_price`; each of its two walks over the orders has its own order. -/
def setMarketPrice (limits stops : Visit) (symbol : String) (price : ℚ) (s : SimState) : SimState :=
  let s := { s with marketPrices := Function.update s.marketPrices symbol (some price) }
  checkStopTriggers cfg stops symbol price (checkLimitFills cfg limits symbol price s)

/-- `next_order_id`, once the paired backend (if any) is ready. -/
def nextOrderId (s : SimState) : Int32 × SimState :=
  (s.nextId, { s with nextId := s.nextId + 1 })

/-- The deterministic rejection knob: every `n`-th new order, `n = round(1 / rejection_rate)`. -/
def shouldReject (orderCount : ℕ) : Bool :=
  if 0 < cfg.rejectionRate then
    let n := asU64 (roundHalfAway (1 / cfg.rejectionRate))
    decide (0 < n ∧ orderCount % n = 0)
  else false

/-- The status the modify path of `place_order` reports for an order it finds in `status`. -/
def restatedStatus : SimOrderStatus → OrderStatus
  | .working => .submitted
  | .triggered => .preSubmitted
  | _ => .submitted

/-- The modify path of `place_order`: the id already exists, its prices are replaced and a status is
    sent again. -/
def replaceOrder (existing : SimulatedOrder) (spec : OrderSpec) (s : SimState) : SimState :=
  let existing := match spec.limitPrice with
    | some l => { existing with limitPrice := some l }
    | none => existing
  let existing := match spec.stopPrice with
    | some sp => { existing with stopPrice := some sp }
    | none => existing
  let status := restatedStatus existing.status
  let filled := existing.filledQty
  let remaining := existing.quantity - existing.filledQty
  (s.setOrder existing).send
    (.statusChanged spec.ibOrderId status filled remaining existing.avgFillPrice)

/-- The record `place_order` makes of a specification. -/
def SimulatedOrder.ofSpec (spec : OrderSpec) (shouldReject : Bool) : SimulatedOrder where
  ibOrderId := spec.ibOrderId
  symbol := spec.symbol
  action := spec.action
  orderType := spec.orderType
  quantity := spec.quantity
  limitPrice := spec.limitPrice
  stopPrice := spec.stopPrice
  parentId := spec.parentId
  transmit := spec.transmit
  status := if shouldReject then .rejected else .held
  filledQty := 0
  avgFillPrice := 0
  tif := spec.tif
  outsideRth := spec.outsideRth

/-- `bracket_links.entry(pid).or_default().push(id)`. -/
@[simps] def SimState.linkChild (s : SimState) (pid id : Int32) : SimState :=
  { s with bracketLinks :=
      Function.update s.bracketLinks pid (some ((s.bracketLinks pid).getD [] ++ [id])) }

/-- `place_order`. It never answers `Err`; a rejected order is reported as an event. -/
def placeOrder (live : Live) (spec : OrderSpec) (s : SimState) : Except OrderError Int32 × SimState :=
  match s.orders.get? spec.ibOrderId with
  | some existing => (.ok spec.ibOrderId, replaceOrder existing spec s)
  | none =>
    let s := { s with orderCount := s.orderCount + 1 }
    let reject := shouldReject cfg s.orderCount
    let s := s.setOrder (.ofSpec spec reject)
    if reject then
      (.ok spec.ibOrderId,
        s.send (.rejected spec.ibOrderId "Order rejected by sim (error injection)"))
    else
      let s := match spec.parentId with
        | some pid => s.linkChild pid spec.ibOrderId
        | none => s
      let s :=
        if spec.transmit then activateBracket cfg live (spec.parentId.getD spec.ibOrderId) s else s
      (.ok spec.ibOrderId, s)

/-- `cancel_order`: the stream it returns, and the state after. -/
def cancelOrder (ibOrderId : Int32) (s : SimState) : Except OrderError ℕ × SimState :=
  let stream := s.cancelTx.length
  let s := { s with cancelTx := s.cancelTx ++ [[]] }
  match s.orders.get? ibOrderId with
  | none =>
    (.ok stream, s.sendCancel stream (.error ibOrderId .orderCancelNotFound
      ("order " ++ toString ibOrderId ++ " not found")))
  | some o =>
    if o.status.isTerminal then (.ok stream, s.sendCancel stream (.cancelled ibOrderId))
    else
      let s := s.sendCancel stream (.submitted ibOrderId)
      let pending := (s.cancelStreams ibOrderId).getD [] ++ [stream]
      let s := { s with cancelStreams := Function.update s.cancelStreams ibOrderId (some pending) }
      let s := cancelOrderInner ibOrderId s
      let s := match s.bracketLinks ibOrderId with
        | some children => children.foldl (fun s c => cancelOrderInner c s) s
        | none => s
      (.ok stream, s)

/-- `modify_order`. -/
def modifyOrder (ibOrderId : Int32) (spec : OrderModify) (s : SimState) :
    Except OrderError Unit × SimState :=
  match s.orders.get? ibOrderId with
  | none => (.error (.notFound ibOrderId), s)
  | some order =>
    (.ok (), s.setOrder { order with
      quantity := spec.quantity.getD order.quantity
      limitPrice := spec.limitPrice.or order.limitPrice
      stopPrice := spec.stopPrice.or order.stopPrice
      tif := spec.tif.getD order.tif
      outsideRth := spec.outsideRth.getD order.outsideRth })

/-- One call on the client, with what the source leaves open about it. -/
inductive Op where
  | nextOrderId
  | place (live : Live) (spec : OrderSpec)
  | modify (ibOrderId : Int32) (spec : OrderModify)
  | cancel (ibOrderId : Int32)
  | setMarketPrice (limits stops : Visit) (symbol : String) (price : ℚ)

/-- The state after one call. -/
def step (s : SimState) : Op → SimState
  | .nextOrderId => (nextOrderId s).2
  | .place live spec => (placeOrder cfg live spec s).2
  | .modify id spec => (modifyOrder id spec s).2
  | .cancel id => (cancelOrder id s).2
  | .setMarketPrice limits stops symbol price => setMarketPrice cfg limits stops symbol price s

/-- The state after a run of calls on a new client. -/
def runFrom (ops : List Op) : SimState := run (step cfg) (.new cfg) ops

end Midas.Broker
