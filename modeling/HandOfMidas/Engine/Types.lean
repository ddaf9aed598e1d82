import HandOfMidas.IbSim.Types

/-! The messages of the IB simulator's engine (`engine/types.rs`): subscriptions, what a
    market-data source emits, the violations of IB's limits, and the events the engine publishes. -/

namespace Midas.IbSim.Engine

abbrev SessionId := UInt64

/-- `ReqId`: the request id a client chooses. -/
abbrev ReqId := Int32

inductive TickByTickKind where | last | allLast | bidAsk | midPoint
  deriving DecidableEq, Repr

structure HistoricalReq where
  contract : ContractSpec
  endDateTime : String
  duration : String
  barSize : String
  whatToShow : String
  useRth : Bool
  formatDate : Int32
  keepUpToDate : Bool
  deriving DecidableEq

/-- What kind of data a subscription asks for. -/
inductive SubMode where
  | streamingL1 (snapshot regulatorySnapshot : Bool)
  | tickByTick (kind : TickByTickKind)
  | realtimeBars5s
  | historical (req : HistoricalReq)
  deriving DecidableEq

/-- `SubKey`: a subscription as the market-data source knows it. -/
structure SubKey where
  session : SessionId
  reqId : ReqId
  symbol : SymbolKey
  deriving DecidableEq

/-- `TickType`; the types that the projection does not single out carry their number. -/
inductive TickType where
  | bid | ask | last | markPrice
  | other (code : ℕ)
  deriving DecidableEq

/-- `MarketEmission`, with the payloads that the engine looks at. -/
inductive MarketEmission where
  | tickPrice (key : SubKey) (tick : TickType) (price : ℚ)
  | tickSize (key : SubKey) (tick : TickType) (size : ℤ)
  | tickString (key : SubKey) (tick : TickType) (value : String)
  | tickGeneric (key : SubKey) (tick : TickType) (value : ℚ)
  | bar (key : SubKey)
  | historicalBatch (key : SubKey) (isComplete : Bool)
  deriving DecidableEq

/-- The engine's `MarketSnapshot`: what the order simulator reads, the last price and the volume. -/
structure MarketSnapshot extends IbSim.MarketSnapshot where
  last : ℚ
  volume : Option ℤ

inductive ViolationAction where | disconnectAfterError | rejectRequest | warnOnly
  deriving DecidableEq, Repr

/-- A client trips one of IB's limits. -/
inductive QuirkViolation where
  | rateLimit (code : Int32) (message : String) (action : ViolationAction)
  | lineLimit (code : Int32) (message : String) (action : ViolationAction)
  | historicalPacing (code : Int32) (message : String) (action : ViolationAction)
  | tickByTickLimit (code : Int32) (message : String) (action : ViolationAction)
  | duplicateOrderId (code : Int32) (message : String) (orderId : OrderId)
  | unknownContract (code : Int32) (message : String) (reqId : ReqId)
  | marketDataNotSubscribed (code : Int32) (message : String) (reqId : ReqId)
  deriving DecidableEq

/-- `EngineEvent`, as far as the orchestrator publishes it. -/
inductive EngineEvent where
  | connected (session : SessionId) (clientId : Int32)
  | disconnected (session : SessionId) (reason : String)
  | marketDataSubscribed (session : SessionId) (reqId : ReqId) (symbol : SymbolKey)
  | marketDataUnsubscribed (session : SessionId) (reqId : ReqId)
  | orderPlaced (session : SessionId) (orderId : OrderId)
  | orderCancelled (session : SessionId) (orderId : OrderId)
  | fillObserved (orderId : OrderId) (price shares : ℚ)
  | quirkTriggered (session : SessionId) (violation : QuirkViolation)
  | farmStatusChanged (code : Int32) (farms : List String)
  deriving DecidableEq

structure QuirkCounters where
  rateLimitTriggers : ℕ := 0
  lineLimitTriggers : ℕ := 0
  historicalPacingTriggers : ℕ := 0
  tickByTickTriggers : ℕ := 0
  deriving DecidableEq

/-- `Duration::from_secs`. -/
def fromSecs (secs : ℕ) : Duration := secs * 1000000000

end Midas.IbSim.Engine
