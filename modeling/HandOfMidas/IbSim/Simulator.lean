import HandOfMidas.Lib.Placing
import HandOfMidas.Lib.Run
import HandOfMidas.IbSim.Accounts
import HandOfMidas.IbSim.FillModel
import HandOfMidas.IbSim.StateMachine
import HandOfMidas.IbSim.Brackets
import Mathlib.Data.List.Sort
import Mathlib.Logic.Function.Basic

/-! The order simulator `BasicOrderSimulator` (`orders/mod.rs`), function by function. A call takes
    the state to the messages it returns and the next state. Two fields of the state are history
    that the source does not keep: `log` has every message in the order in which it was generated,
    and `ledger` says which order moved which position from where to where. -/

namespace Midas.IbSim

/-- One application of a fill to the account. -/
structure Booking where
  orderId : OrderId
  symbol : SymbolKey
  before : ℚ
  after : ℚ
  deriving DecidableEq

structure Sim where
  orders : Store OrderRecord.orderId
  brackets : Store BracketGroup.parentId
  bracketChildToParent : OrderId → Option OrderId
  account : AccountState
  seenOrderIds : OrderId → Bool
  partialThreshold : ℚ
  slippage : SlippageKind
  execCounter : ℕ
  commissionDelay : OrderId → Option Duration
  deferred : List (VirtualInstant × OrderEmission)
  duplicateOrderStatusNext : Bool
  outOfOrderOverrides : OrderId → Option (List UInt8)
  log : List OrderEmission
  ledger : List Booking

/-- What a call returns, and the state it leaves. -/
abbrev Emits := List OrderEmission × Sim

/-- Go on with a call and append what it returns. -/
def andEmit (f : Sim → Emits) (done : Emits) : Emits := (done.1 ++ (f done.2).1, (f done.2).2)

@[simp] theorem andEmit_fst (f : Sim → Emits) (done : Emits) :
    (andEmit f done).1 = done.1 ++ (f done.2).1 := rfl

@[simp] theorem andEmit_snd (f : Sim → Emits) (done : Emits) :
    (andEmit f done).2 = (f done.2).2 := rfl

/-- One call for each item, their messages in the order of the calls. -/
def emitAll {ι : Type*} (f : ι → Sim → Emits) (items : List ι) (s : Sim) : Emits :=
  items.foldl (fun done i => andEmit (f i) done) ([], s)

theorem emitAll_snd {ι : Type*} (f : ι → Sim → Emits) (items : List ι) (s : Sim) :
    (emitAll f items s).2 = items.foldl (fun s i => (f i s).2) s := by
  have h : ∀ (items : List ι) (done : Emits), (items.foldl (fun done i => andEmit (f i) done) done).2 =
      items.foldl (fun s i => (f i s).2) done.2 := by
    intro items
    induction items with
    | nil => exact fun _ => rfl
    | cons i items ih => exact fun done => ih (andEmit (f i) done)
  exact h items ([], s)

/-- `with_seed`. -/
def Sim.new : Sim where
  orders := Store.empty
  brackets := Store.empty
  bracketChildToParent := fun _ => none
  account := AccountState.new "U0000001" 1000000
  seenOrderIds := fun _ => false
  partialThreshold := 1000
  slippage := .fixedBps 1
  execCounter := 0
  commissionDelay := fun _ => none
  deferred := []
  duplicateOrderStatusNext := false
  outOfOrderOverrides := fun _ => none
  log := []
  ledger := []

/-- Return the messages `out`, which are generated here. -/
@[simps] def Sim.emit (out : List OrderEmission) (s : Sim) : Emits :=
  (out, { s with log := s.log ++ out })

/-! ### Messages -/

/-- `exec-` and the counter, in eight hexadecimal digits at least. -/
def execId (counter : ℕ) : String :=
  let digits := Nat.toDigits 16 counter
  "exec-" ++ String.ofList (List.replicate (8 - digits.length) '0' ++ digits)

def emitOpenOrder (o : OrderRecord) (status : OrderStatusCode) : OrderEmission :=
  .openOrder
    { orderId := o.orderId
      contract := o.contract
      side := o.side
      totalQuantity := o.totalQty
      kind := o.kind
      limitPrice := o.limitPrice
      auxPrice := o.auxPrice
      status := status
      tif := o.tif
      account := o.account
      parentId := o.parentId
      ocaGroup := o.ocaGroup }

def orderStatusOf (o : OrderRecord) (status : OrderStatusCode) : OrderStatus where
  orderId := o.orderId
  status := status
  filled := o.filledQty
  remaining := o.remainingQty
  avgFillPrice := o.avgFillPrice
  permId := o.orderId * 31
  parentId := o.parentId.getD 0
  lastFillPrice := o.avgFillPrice

def emitOrderStatus (o : OrderRecord) (status : OrderStatusCode) : OrderEmission :=
  .orderStatus (orderStatusOf o status)

/-! ### Placing and cancelling -/

def duplicateOrderId : Int32 := 103
def cantModifyFilled : Int32 := 104
def priceNotMinTick : Int32 := 110
def noSecurityDef : Int32 := 200
def orderRejected : Int32 := 201
def orderCancelled : Int32 := 202
def orderNotYetTransmitted : Int32 := 10147

def respectsMinTick (price : ℚ) : Bool :=
  let units := price / (1 / 100)
  |units - roundHalfAway units| < 1 / 1000000

def minTickMessage : String :=
  "The price does not conform to the minimum price variation for this contract."

/-- The code and the text with which `place` refuses a request, if it does. -/
def refusal (req : PlaceOrderReq) (s : Sim) : Option (Int32 × String) :=
  if s.seenOrderIds req.orderId then some (duplicateOrderId, "Duplicate order id")
  else if req.contract.symbol = "" then
    some (noSecurityDef, "No security definition has been found for the request")
  else if !(req.limitPrice.map respectsMinTick).getD true then some (priceNotMinTick, minTickMessage)
  else if !(req.auxPrice.map respectsMinTick).getD true then some (priceNotMinTick, minTickMessage)
  else
    match req.kind, req.limitPrice, req.auxPrice with
    | .limit, none, _ => some (orderRejected, "Limit order missing limit price")
    | .stop, _, none => some (orderRejected, "Stop order missing stop price")
    | .stopLimit, none, _ | .stopLimit, _, none =>
      some (orderRejected, "Stop-limit order missing limit or stop price")
    | _, _, _ => none

/-- The group of `parentId`, opened when there is none yet. -/
def Sim.groupOf (s : Sim) (parentId : OrderId) (ocaGroup : Option String) : BracketGroup :=
  (s.brackets.get? parentId).getD (.new parentId ocaGroup)

/-- Accept a child: it waits `Inactive` in the slot for its kind. -/
def placeChild (req : PlaceOrderReq) (parentId : OrderId) (now : VirtualInstant) (s : Sim) : Emits :=
  let o := { OrderRecord.fromPlaceReq req now with status := .inactive }
  let group := (s.groupOf parentId req.ocaGroup).slot req.kind o.orderId
  { s with
    seenOrderIds := Function.update s.seenOrderIds req.orderId true
    bracketChildToParent := Function.update s.bracketChildToParent o.orderId (some parentId)
    brackets := s.brackets.put group
    orders := s.orders.put o }.emit
      [emitOpenOrder o .inactive, emitOrderStatus o .inactive]

/-- Accept an order without a parent. -/
def placeRoot (req : PlaceOrderReq) (now : VirtualInstant) (s : Sim) : Emits :=
  let o := ((OrderRecord.fromPlaceReq req now).transition .pendingSubmit).transition .preSubmitted
  let out := [emitOpenOrder o .preSubmitted, emitOrderStatus o .preSubmitted]
  let resting := o.transition .submitted
  let placed := if o.kind = .limit then resting else o
  let out := if o.kind = .limit then out ++ [emitOrderStatus resting .submitted] else out
  let brackets :=
    if req.ocaGroup.isSome then s.brackets.put (s.groupOf placed.orderId req.ocaGroup)
    else s.brackets
  { s with
    seenOrderIds := Function.update s.seenOrderIds req.orderId true
    brackets := brackets
    orders := s.orders.put placed }.emit out

def place (req : PlaceOrderReq) (now : VirtualInstant) (s : Sim) : Emits :=
  match refusal req s with
  | some (code, message) => s.emit [.reject req.orderId code message]
  | none =>
    match req.parentId with
    | some parentId => placeChild req parentId now s
    | none => placeRoot req now s

def cancel (orderId : OrderId) (s : Sim) : Emits :=
  match s.orders.get? orderId with
  | none =>
    s.emit [.reject orderId orderNotYetTransmitted
      "OrderId that needs to be cancelled is not yet transmitted."]
  | some o =>
    if o.isFilled then
      s.emit [.reject orderId cantModifyFilled "Cannot modify a filled order."]
    else if transitionAllowed o.kind o.status .cancelled then
      let o := o.transition .cancelled
      { s with orders := s.orders.put o }.emit [emitOrderStatus o .cancelled]
    else s.emit [.reject orderId orderCancelled "Order cancelled"]

/-- `open_orders_snapshot`: the live orders by id, each with its current status. -/
def openOrdersSnapshot (s : Sim) : Emits :=
  let live := s.orders.items.filter fun o => !o.isFilled && !o.isCancelled
  let byId := live.insertionSort fun a b => a.orderId ≤ b.orderId
  s.emit (byId.flatMap fun o => [emitOpenOrder o o.status, emitOrderStatus o o.status])

def drainDue (now : VirtualInstant) (s : Sim) : Emits :=
  ((s.deferred.filter fun d => d.1 ≤ now).map Prod.snd,
    { s with deferred := s.deferred.filter fun d => !decide (d.1 ≤ now) })

/-! ### Fills -/

variable (rng : Rng) (baseSeed : UInt64)

/-- A message of a fill: how long after the fill it is due, and whether it waits for `drain_due`. -/
structure FillMessage where
  offset : Duration
  deferred : Bool
  emission : OrderEmission

/-- What the pattern loop carries: the working record, the execution counter, and the messages so
    far. -/
structure FillLoop where
  working : OrderRecord
  execCounter : ℕ
  messages : List FillMessage

/-- Add a message. -/
def FillLoop.push (loop : FillLoop) (offset : Duration) (deferred : Bool) (e : OrderEmission) :
    FillLoop :=
  { loop with messages := loop.messages ++ [⟨offset, deferred, e⟩] }

/-- Book `shares` at `price` on the record. -/
def OrderRecord.book (o : OrderRecord) (shares price : ℚ) : OrderRecord :=
  let filledQty := o.filledQty + shares
  { o with
    filledQty := filledQty
    remainingQty := max (o.totalQty - filledQty) 0
    avgFillPrice :=
      if 0 < filledQty then ((filledQty - shares) * o.avgFillPrice + shares * price) / filledQty
      else price }

/-- The record when the order is reported filled. -/
def OrderRecord.finish (o : OrderRecord) : OrderRecord :=
  { o.transition .filled with remainingQty := 0 }

/-- The execution of `shares` that the record `o` has booked last. -/
def executionOf (o : OrderRecord) (fill : Fill) (counter : ℕ) (shares : ℚ) : Execution where
  orderId := o.orderId
  execId := execId counter
  time := fill.ts
  acctNumber := o.account
  side := o.side
  shares := shares
  price := fill.price
  permId := o.orderId * 31
  cumulativeQuantity := o.filledQty
  avgPrice := o.avgFillPrice
  contract := o.contract

/-- One step of the pattern. A commission whose delay is overridden waits in the queue. -/
def fillStep (fill : Fill) (chunks : List ℚ) (delay : Option Duration) (loop : FillLoop)
    (step : (Duration × StepKind) × ℕ) : FillLoop :=
  let offset := actualOffset rng step.1.1 baseSeed loop.working.orderId (UInt32.ofNat step.2)
  match step.1.2 with
  | .openOrderSubmitted => loop.push offset false (emitOpenOrder loop.working .submitted)
  | .openOrderPreSubmitted => loop.push offset false (emitOpenOrder loop.working .preSubmitted)
  | .executionPart chunkIdx =>
    let shares := chunks.getD chunkIdx 0
    let working := loop.working.book shares fill.price
    let counter := loop.execCounter + 1
    FillLoop.push { loop with working := working, execCounter := counter } offset false
      (.execution (executionOf working fill counter shares))
  | .commissionPart chunkIdx =>
    let shares := chunks.getD chunkIdx 0
    let commission := max (5 / 1000 * shares) 1
    let e := .commission { execId := execId loop.execCounter, commission := commission }
    match delay with
    | some d => loop.push d true e
    | none => loop.push offset false e
  | .orderStatusPartiallyFilled _ =>
    let working := loop.working.transition .partiallyFilled
    FillLoop.push { loop with working := working } offset false (emitOrderStatus working .filled)
  | .orderStatusFilled =>
    let working := loop.working.finish
    FillLoop.push { loop with working := working } offset false (emitOrderStatus working .filled)

/-- The chunks in which a fill goes to the account. -/
def planChunks (orderId : OrderId) (shares : ℚ) : PatternKind → List ℚ
  | .c =>
    let c := partialChunks rng shares baseSeed orderId (max (shares / 2 - 1 / 10) 1)
    if c.length < 2 then [shares / 2, shares / 2] else c
  | _ => [shares]

/-- The pattern by which a record fills. -/
def patternOf (o : OrderRecord) (s : Sim) : PatternKind :=
  selectPattern rng baseSeed o.orderId o.kind o.totalQty s.partialThreshold

/-- The chunks of a fill of all that remains. -/
def chunksOf (o : OrderRecord) (s : Sim) : List ℚ :=
  planChunks rng baseSeed o.orderId o.remainingQty (patternOf rng baseSeed o s)

/-- The pattern loop over the steps of the pattern. -/
def fillLoop (o : OrderRecord) (fill : Fill) (chunks : List ℚ) (s : Sim) : FillLoop :=
  (stepsFor (patternOf rng baseSeed o s)).zipIdx.foldl
    (fillStep rng baseSeed fill chunks (s.commissionDelay o.orderId)) ⟨o, s.execCounter, []⟩

/-- The armed reordering; a malformed one is ignored. -/
def reorder {α : Type*} (schedule : Option (List UInt8)) (items : List α) : List α :=
  match schedule with
  | none => items
  | some perm =>
    if ValidPerm (perm.map UInt8.toNat) items.length then placeAt (perm.map UInt8.toNat) items
    else items

/-- Duplicate the first status message, if there is one. -/
def duplicateFirstStatus : List OrderEmission → Option (List OrderEmission)
  | [] => none
  | .orderStatus m :: rest => some (.orderStatus m :: .orderStatus m :: rest)
  | e :: rest => (duplicateFirstStatus rest).map (e :: ·)

/-- The messages of a fill that are returned at once, in their order. -/
def materialize (schedule : Option (List UInt8)) (messages : List FillMessage) :
    List OrderEmission :=
  (reorder schedule ((messages.filter fun m => !m.deferred).insertionSort
    fun a b => a.offset ≤ b.offset)).map FillMessage.emission

/-- The messages of a fill that wait, with their deadlines. -/
def postpone (ts : VirtualInstant) (messages : List FillMessage) :
    List (VirtualInstant × OrderEmission) :=
  (messages.filter FillMessage.deferred).map fun m => (ts + m.offset, m.emission)

/-- The messages of a fill: generate them by the pattern, queue the deferred ones, sort, reorder and
    duplicate the others, and write the record back. -/
def report (o : OrderRecord) (fill : Fill) (chunks : List ℚ) (s : Sim) : Emits :=
  let loop := fillLoop rng baseSeed o fill chunks s
  let out := materialize (s.outOfOrderOverrides o.orderId) loop.messages
  let duplicated := if s.duplicateOrderStatusNext then duplicateFirstStatus out else none
  (duplicated.getD out,
   { s with
     orders := s.orders.put loop.working
     execCounter := loop.execCounter
     commissionDelay := Function.update s.commissionDelay o.orderId none
     outOfOrderOverrides := Function.update s.outOfOrderOverrides o.orderId none
     deferred := s.deferred ++ postpone fill.ts loop.messages
     duplicateOrderStatusNext := s.duplicateOrderStatusNext && duplicated.isNone
     log := s.log ++ loop.messages.map FillMessage.emission })

/-- Apply one chunk to the account. -/
def bookChunk (o : OrderRecord) (price shares : ℚ) (s : Sim) : Emits :=
  let symbol := symbolKeyFor o.contract
  let applied := s.account.applyFill symbol o.contract o.side shares price
  let booking : Booking := ⟨o.orderId, symbol, (s.account.position symbol).shares,
    (applied.2.position symbol).shares⟩
  { s with account := applied.2, ledger := s.ledger ++ [booking] }.emit
    [.position applied.1.1, .portfolioValue applied.1.2]

def bookChunks (o : OrderRecord) (price : ℚ) (chunks : List ℚ) (s : Sim) : Emits :=
  emitAll (bookChunk o price) chunks s

/-- The status message of a child that its parent's fill activates. -/
def activationOf (parentId : OrderId) (child : OrderRecord) : OrderStatus where
  orderId := child.orderId
  status := .submitted
  filled := 0
  remaining := child.remainingQty
  avgFillPrice := 0
  permId := child.orderId * 31
  parentId := parentId
  lastFillPrice := 0

/-- Activate one child. -/
def activateChild (parentId : OrderId) (done : List (Duration × OrderEmission) × Sim)
    (childId : OrderId) : List (Duration × OrderEmission) × Sim :=
  let jitter := sampleActivationJitter rng baseSeed parentId childId
  match done.2.orders.get? childId with
  | none => done
  | some child =>
    let child := child.transition .submitted
    let e := .orderStatus (activationOf parentId child)
    (done.1 ++ [(jitter, e)],
     { done.2 with orders := done.2.orders.put child, log := done.2.log ++ [e] })

/-- A filled parent activates the children in its slots, once. -/
def activateChildren (orderId : OrderId) (s : Sim) : Emits :=
  match s.brackets.get? orderId with
  | none => ([], s)
  | some group =>
    if group.state = .parentWorking then
      let done := group.children.foldl (activateChild rng baseSeed orderId) ([], s)
      ((done.1.insertionSort fun a b => a.1 ≤ b.1).map Prod.snd,
       { done.2 with brackets := done.2.brackets.put { group with state := .parentFilled } })
    else ([], s)

/-- The status message of a child that its sibling's fill cancels. -/
def ocaCancelOf (parentId : OrderId) (sib : OrderRecord) : OrderStatus where
  orderId := sib.orderId
  status := .cancelled
  filled := sib.filledQty
  remaining := sib.remainingQty
  avgFillPrice := sib.avgFillPrice
  permId := sib.orderId * 31
  parentId := parentId
  lastFillPrice := 0
  whyHeld := "OCA group cancelled by sibling fill"

/-- The group in whose slots a child's sibling is looked for. -/
def Sim.parentGroup (s : Sim) (orderId : OrderId) : Option BracketGroup :=
  (s.bracketChildToParent orderId).bind s.brackets.get?

/-- Cancel a child whose sibling is filled, unless it is terminal. -/
def cancelChild (parentId childId : OrderId) (s : Sim) : Emits :=
  match s.orders.get? childId with
  | none => ([], s)
  | some sib =>
    if transitionAllowed sib.kind sib.status .cancelled then
      let sib := sib.transition .cancelled
      { s with orders := s.orders.put sib }.emit [.orderStatus (ocaCancelOf parentId sib)]
    else ([], s)

/-- A filled child cancels the child in the other slot. -/
def cancelSibling (orderId : OrderId) (s : Sim) : Emits :=
  match s.parentGroup orderId with
  | none => ([], s)
  | some group =>
    match group.sibling orderId with
    | none => ([], s)
    | some sid =>
      let cancelled := cancelChild group.parentId sid s
      (cancelled.1,
       { cancelled.2 with
         brackets := cancelled.2.brackets.put { group with state := .oneChildFilled } })

def finalizeFill (orderId : OrderId) (fill : Fill) (s : Sim) : Emits :=
  match s.orders.get? orderId with
  | none => ([], s)
  | some o =>
    let chunks := planChunks rng baseSeed orderId fill.shares (patternOf rng baseSeed o s)
    andEmit (cancelSibling orderId)
      (andEmit (activateChildren rng baseSeed orderId)
        (andEmit (bookChunks o fill.price chunks)
          (report rng baseSeed o fill chunks s)))

def isActive : OrderStatusCode → Bool
  | .preSubmitted | .submitted | .partiallyFilled => true
  | _ => false

/-- The orders that a snapshot looks at, by id. -/
def candidateIds (snap : MarketSnapshot) (s : Sim) : List OrderId :=
  ((s.orders.items.filter fun o => isActive o.status && (symbolKeyFor o.contract == snap.symbol)).map
    (·.orderId)).insertionSort (· ≤ ·)

/-- Look at one order and fill it if the market meets it. -/
def look (snap : MarketSnapshot) (orderId : OrderId) (s : Sim) : Emits :=
  match s.orders.get? orderId with
  | none => ([], s)
  | some o =>
    let maybe := maybeFill o snap.mid snap.bid snap.ask snap.ts s.slippage
    let s := { s with orders := s.orders.put maybe.2 }
    match maybe.1 with
    | none => ([], s)
    | some fill => finalizeFill rng baseSeed orderId fill s

def onMarketSnapshot (snap : MarketSnapshot) (s : Sim) : Emits :=
  emitAll (look rng baseSeed snap) (candidateIds snap s) s

/-! ### Runs -/

/-- A call of the simulator. -/
inductive Op where
  | place (req : PlaceOrderReq) (now : VirtualInstant)
  | cancel (orderId : OrderId)
  | snapshot (snap : MarketSnapshot)
  | drainDue (now : VirtualInstant)
  | openOrders
  | setCommissionDelay (orderId : OrderId) (delay : Duration)
  | armDuplicateOrderStatus
  | installOutOfOrderSchedule (orderId : OrderId) (permutation : List UInt8)
  | setSlippage (slippage : SlippageKind)
  | setPartialThreshold (t : ℚ)

def exec : Op → Sim → Emits
  | .place req now, s => place req now s
  | .cancel orderId, s => cancel orderId s
  | .snapshot snap, s => onMarketSnapshot rng baseSeed snap s
  | .drainDue now, s => drainDue now s
  | .openOrders, s => openOrdersSnapshot s
  | .setCommissionDelay orderId delay, s =>
    ([], { s with commissionDelay := Function.update s.commissionDelay orderId (some delay) })
  | .armDuplicateOrderStatus, s => ([], { s with duplicateOrderStatusNext := true })
  | .installOutOfOrderSchedule orderId permutation, s =>
    ([], { s with
      outOfOrderOverrides := Function.update s.outOfOrderOverrides orderId (some permutation) })
  | .setSlippage slippage, s => ([], { s with slippage := slippage })
  | .setPartialThreshold t, s => ([], { s with partialThreshold := t })

/-- One more call in a run, whose state is all that was returned so far and the simulator. -/
def step (done : Emits) (op : Op) : Emits := andEmit (exec rng baseSeed op) done

/-- The run of `ops` from a fresh simulator. -/
def runFrom (ops : List Op) : Emits := run (step rng baseSeed) ([], Sim.new) ops

end Midas.IbSim
