import HandOfMidas.IbSim.Simulator
import HandOfMidas.Quirks.Guard

/-! The engine actor of the IB simulator (`engine/orchestrator.rs`): it asks the quirk guard, drives
    the market-data source, routes what the source emits to the order simulator, and keeps the
    sessions and the subscriptions. A command is handled in one step, to the next state. -/

namespace Midas.IbSim.Engine

open Quirks

/-- `market_data::Snapshot`: the market of one symbol as the source has it. -/
structure Snapshot where
  bid : ℚ
  ask : ℚ
  last : ℚ
  volume : Option ℤ
  deriving DecidableEq

/-- A perturbation that a client injects into the market. -/
inductive Injection where
  | jump (symbol : SymbolKey) (magnitudePct : ℚ)
  | gap (symbol : SymbolKey) (fromPrice toPrice : ℚ)
  | halt (symbol : SymbolKey) (duration : Duration)
  | burst (symbols : List SymbolKey) (multiplier : ℚ) (duration : Duration)

/-- `MarketDataEngine`: a source of market data with states of type `μ`. A subscription that it
    refuses comes back with the text of the error. -/
structure MarketDataEngine (μ : Type*) where
  subscribe : SubKey → SubMode → μ → Option String × μ
  unsubscribe : SubKey → μ → μ
  step : VirtualInstant → μ → List MarketEmission × μ
  snapshot : SymbolKey → μ → Option Snapshot
  inject : Injection → VirtualInstant → μ → μ

/-- A source that takes every subscription and has no data. -/
def silentSource : MarketDataEngine Unit where
  subscribe _ _ s := (none, s)
  unsubscribe _ s := s
  step _ s := ([], s)
  snapshot _ _ := none
  inject _ _ s := s

structure SessionState where
  id : SessionId
  clientId : Int32
  connectedAt : VirtualInstant
  streamingReqs : Finset ReqId := ∅
  ownedOrders : Finset OrderId := ∅

/-- A live subscription. -/
structure SubEntry where
  session : SessionId
  reqId : ReqId
  symbol : SymbolKey
  contract : ContractSpec
  mode : SubMode
  deriving DecidableEq

/-- Subscriptions are kept by session and request id. -/
def SubEntry.key (e : SubEntry) : SessionId × ReqId := (e.session, e.reqId)

structure OrchestratedEngine (μ : Type*) where
  now : VirtualInstant
  marketData : μ
  orders : Sim
  quirks : CompositeQuirkGuard
  sessions : Store SessionState.id
  subscriptions : Store SubEntry.key
  contractToSym : Int32 → Option SymbolKey
  orderSessions : OrderId → Option SessionId
  orderContracts : OrderId → Option ContractSpec
  quirkCounters : QuirkCounters
  events : List EngineEvent
  pendingEmissions : List MarketEmission

/-- `build_engine`. -/
def OrchestratedEngine.build {μ : Type*} (cfg : QuirksConfig) (marketData : μ) :
    OrchestratedEngine μ where
  now := 0
  marketData := marketData
  orders := Sim.new
  quirks := .fromConfig cfg
  sessions := Store.empty
  subscriptions := Store.empty
  contractToSym := fun _ => none
  orderSessions := fun _ => none
  orderContracts := fun _ => none
  quirkCounters := {}
  events := []
  pendingEmissions := []

/-- `market_data_symbol_key`: the key of a contract at the source, whose id is a hash of the symbol
    alone. -/
def marketDataSymbolKey (contract : ContractSpec) : SymbolKey :=
  let hash : Int32 := contract.symbol.toUTF8.toList.foldl
    (fun hash b => hash * 33 + b.toUInt32.toInt32) 5381
  ⟨(hash ^^^ 0x5f5f5f5f).abs, contract.symbol⟩

/-- What the guard is asked about a subscription. -/
def SubMode.checkKind (symbol : SymbolKey) : SubMode → QuirkCheckKind
  | .streamingL1 _ _ | .realtimeBars5s => .l1Subscribe symbol
  | .tickByTick _ => .tickByTickSubscribe symbol
  | .historical req => .historicalRequest req

namespace OrchestratedEngine

variable {μ : Type*}

def emitEvent (e : EngineEvent) (s : OrchestratedEngine μ) : OrchestratedEngine μ :=
  { s with events := s.events ++ [e] }

def recordOrderEmission (s : OrchestratedEngine μ) : OrderEmission → OrchestratedEngine μ
  | .execution x => s.emitEvent (.fillObserved x.orderId x.price x.shares)
  | _ => s

/-- Run the order simulator and publish what it returns. -/
def withOrders (s : OrchestratedEngine μ) (f : Sim → Emits) : OrchestratedEngine μ :=
  (f s.orders).1.foldl recordOrderEmission { s with orders := (f s.orders).2 }

/-! ### Sessions and violations -/

def onStartApi (session : SessionId) (clientId : Int32) (s : OrchestratedEngine μ) :
    OrchestratedEngine μ :=
  let entry := (s.sessions.get? session).getD ⟨session, clientId, s.now, ∅, ∅⟩
  emitEvent (.connected session clientId)
    { s with sessions := s.sessions.put { entry with clientId := clientId } }

def onInjectDisconnect (session : SessionId) (reason : String) (s : OrchestratedEngine μ) :
    OrchestratedEngine μ :=
  let quirks :=
    if (s.sessions.get? session).isSome then s.quirks.forgetSession session else s.quirks
  emitEvent (.disconnected session reason)
    { s with sessions := s.sessions.erase session, quirks := quirks }

def handleViolation (session : SessionId) (v : QuirkViolation) (s : OrchestratedEngine μ) :
    OrchestratedEngine μ :=
  let c := s.quirkCounters
  let triggered := EngineEvent.quirkTriggered session v
  match v with
  | .rateLimit _ _ action =>
    let s := emitEvent triggered
      { s with quirkCounters := { c with rateLimitTriggers := c.rateLimitTriggers + 1 } }
    if action = .disconnectAfterError then s.onInjectDisconnect session "pacing violation" else s
  | .lineLimit _ _ _ =>
    emitEvent triggered
      { s with quirkCounters := { c with lineLimitTriggers := c.lineLimitTriggers + 1 } }
  | .historicalPacing _ _ _ =>
    let c := { c with historicalPacingTriggers := c.historicalPacingTriggers + 1 }
    emitEvent triggered { s with quirkCounters := c }
  | .tickByTickLimit _ _ _ =>
    emitEvent triggered
      { s with quirkCounters := { c with tickByTickTriggers := c.tickByTickTriggers + 1 } }
  | _ => s.emitEvent triggered

/-- Ask the guard, and go on if it has nothing to object. -/
def guarded (session : SessionId) (reqId : Option ReqId) (kind : QuirkCheckKind)
    (go : OrchestratedEngine μ → OrchestratedEngine μ) (s : OrchestratedEngine μ) :
    OrchestratedEngine μ :=
  let r := s.quirks.check s.now session reqId kind
  let s := { s with quirks := r.2 }
  match r.1 with
  | some v => s.handleViolation session v
  | none => go s

def onInjectPacingViolation (session : SessionId) : OrchestratedEngine μ → OrchestratedEngine μ :=
  handleViolation session
    (.rateLimit msgRateExceeded (message msgRateExceeded) .disconnectAfterError)

/-- The sessions in the order of their ids. -/
def sessionIds (s : OrchestratedEngine μ) : List SessionId :=
  (s.sessions.items.map SessionState.id).insertionSort (· ≤ ·)

/-- Drop one session at the daily restart. -/
def restartSession (s : OrchestratedEngine μ) (session : SessionId) : OrchestratedEngine μ :=
  emitEvent (.disconnected session "TWS daily restart")
    { s with
      quirks := s.quirks.forgetSession session
      sessions := s.sessions.erase session }

def onInjectDailyRestart (s : OrchestratedEngine μ) : OrchestratedEngine μ :=
  (s.sessionIds.foldl restartSession s).emitEvent (.farmStatusChanged twsDailyRestart ["tws"])

/-! ### Orders -/

def onPlaceOrder (session : SessionId) (req : PlaceOrderReq) :
    OrchestratedEngine μ → OrchestratedEngine μ :=
  guarded session none .orderPlace fun s =>
    let placed := place req s.now s.orders
    let sessions :=
      match s.sessions.get? session with
      | some owner => s.sessions.put { owner with ownedOrders := insert req.orderId owner.ownedOrders }
      | none => s.sessions
    emitEvent (.orderPlaced session req.orderId)
      (placed.1.foldl recordOrderEmission
        { s with
          orders := placed.2
          orderSessions := Function.update s.orderSessions req.orderId (some session)
          orderContracts := Function.update s.orderContracts req.orderId (some req.contract)
          sessions := sessions })

def onCancelOrder (session : SessionId) (orderId : OrderId) (s : OrchestratedEngine μ) :
    OrchestratedEngine μ :=
  (s.withOrders (cancel orderId)).emitEvent (.orderCancelled session orderId)

/-! ### Market data -/

variable (source : MarketDataEngine μ)

/-- A subscription that the guard admits goes to the source, and is kept if the source takes it. -/
def openSubscription (session : SessionId) (reqId : ReqId) (contract : ContractSpec) (mode : SubMode)
    (s : OrchestratedEngine μ) : OrchestratedEngine μ :=
  let symbol := marketDataSymbolKey contract
  let opened := source.subscribe ⟨session, reqId, symbol⟩ mode s.marketData
  let s := { s with marketData := opened.2 }
  match opened.1 with
  | some error => s.handleViolation session (.unknownContract Quirks.noSecurityDef error reqId)
  | none =>
    let sessions :=
      match s.sessions.get? session with
      | some owner => s.sessions.put { owner with streamingReqs := insert reqId owner.streamingReqs }
      | none => s.sessions
    emitEvent (.marketDataSubscribed session reqId symbol)
      { s with
        contractToSym :=
          Function.update s.contractToSym symbol.contractId (some (symbolKeyFor contract))
        subscriptions := s.subscriptions.put ⟨session, reqId, symbol, contract, mode⟩
        sessions := sessions }

def onSubscribeMarketData (session : SessionId) (reqId : ReqId) (contract : ContractSpec)
    (mode : SubMode) (s : OrchestratedEngine μ) : OrchestratedEngine μ :=
  if (s.subscriptions.get? (session, reqId)).isSome then
    s.handleViolation session
      (.unknownContract Quirks.noSecurityDef "duplicate market-data subscription" reqId)
  else
    guarded session (some reqId) (mode.checkKind (marketDataSymbolKey contract))
      (openSubscription source session reqId contract mode) s

def onUnsubscribeMarketData (session : SessionId) (reqId : ReqId) (s : OrchestratedEngine μ) :
    OrchestratedEngine μ :=
  let s :=
    match s.subscriptions.get? (session, reqId) with
    | some entry =>
      { s with
        subscriptions := s.subscriptions.erase (session, reqId)
        marketData := source.unsubscribe ⟨session, reqId, entry.symbol⟩ s.marketData
        quirks := s.quirks.releaseL1 session reqId }
    | none => s
  let sessions :=
    match s.sessions.get? session with
    | some owner => s.sessions.put { owner with streamingReqs := owner.streamingReqs.erase reqId }
    | none => s.sessions
  emitEvent (.marketDataUnsubscribed session reqId) { s with sessions := sessions }

def onReqHistoricalData (session : SessionId) (reqId : ReqId) (req : HistoricalReq) :
    OrchestratedEngine μ → OrchestratedEngine μ :=
  guarded session (some reqId) (.historicalRequest req) id

def onInject (i : Injection) (s : OrchestratedEngine μ) : OrchestratedEngine μ :=
  { s with marketData := source.inject i s.now s.marketData }

/-- The subscription and the price of an emission that moves the market. -/
def priced : MarketEmission → Option (SubKey × ℚ)
  | .tickPrice key .last price | .tickPrice key .bid price | .tickPrice key .ask price
  | .tickPrice key .markPrice price => some (key, price)
  | _ => none

/-- `project_snapshot`: the market that an emission shows to the order simulator, under the symbol
    that the last subscription with this contract id has left. -/
def projectSnapshot (s : OrchestratedEngine μ) (em : MarketEmission) : Option MarketSnapshot :=
  (priced em).map fun (key, price) =>
    let mdSnap := source.snapshot key.symbol s.marketData
    let bid := (mdSnap.map Snapshot.bid).getD (price - 1 / 100)
    let ask := (mdSnap.map Snapshot.ask).getD (price + 1 / 100)
    { symbol := (s.contractToSym key.symbol.contractId).getD key.symbol
      mid := (bid + ask) / 2
      bid := bid
      ask := ask
      ts := s.now
      last := price
      volume := mdSnap.bind Snapshot.volume }

variable (rng : Rng) (baseSeed : UInt64)

/-- Show one emission to the order simulator. -/
def deliver (s : OrchestratedEngine μ) (em : MarketEmission) : OrchestratedEngine μ :=
  let s :=
    match s.projectSnapshot source em with
    | some snap => s.withOrders (onMarketSnapshot rng baseSeed snap.toMarketSnapshot)
    | none => s
  { s with pendingEmissions := s.pendingEmissions ++ [em] }

def driveMarketData (s : OrchestratedEngine μ) : OrchestratedEngine μ :=
  let stepped := source.step s.now s.marketData
  let s := stepped.1.foldl (deliver source rng baseSeed) { s with marketData := stepped.2 }
  s.withOrders (drainDue s.now)

/-! ### Runs -/

end OrchestratedEngine

/-- `EngineCmd`, as far as the engine acts on it. -/
inductive EngineCmd where
  | startApi (session : SessionId) (clientId : Int32)
  | placeOrder (session : SessionId) (req : PlaceOrderReq)
  | cancelOrder (session : SessionId) (orderId : OrderId)
  | subscribeMarketData (session : SessionId) (reqId : ReqId) (contract : ContractSpec) (mode : SubMode)
  | unsubscribeMarketData (session : SessionId) (reqId : ReqId)
  | reqHistoricalData (session : SessionId) (reqId : ReqId) (req : HistoricalReq)
  | injectDisconnect (session : SessionId) (reason : String)
  | injectPacingViolation (session : SessionId)
  | injectFarmOutage (code : Int32) (farms : List String)
  | injectFarmRestore (code : Int32) (farms : List String)
  | inject (i : Injection)
  | injectDailyRestart

/-- `EngineAction`, as far as the engine acts on it. -/
inductive EngineAction where
  | emitFarmStatus (code : Int32) (farm : String)
  | emitDailyRestart

/-- What can happen to the engine: a command, a scheduled action, a drive of the market data, and
    time passing. -/
inductive Op where
  | command (cmd : EngineCmd)
  | scheduled (action : EngineAction)
  | driveMarketData
  | advance (t : VirtualInstant)

variable {μ : Type*} (source : MarketDataEngine μ) (rng : Rng) (baseSeed : UInt64)

def handleCommand (s : OrchestratedEngine μ) : EngineCmd → OrchestratedEngine μ
  | .startApi session clientId => s.onStartApi session clientId
  | .placeOrder session req => s.onPlaceOrder session req
  | .cancelOrder session orderId => s.onCancelOrder session orderId
  | .subscribeMarketData session reqId contract mode =>
    s.onSubscribeMarketData source session reqId contract mode
  | .unsubscribeMarketData session reqId => s.onUnsubscribeMarketData source session reqId
  | .reqHistoricalData session reqId req => s.onReqHistoricalData session reqId req
  | .injectDisconnect session reason => s.onInjectDisconnect session reason
  | .injectPacingViolation session => s.onInjectPacingViolation session
  | .injectFarmOutage code farms | .injectFarmRestore code farms =>
    s.emitEvent (.farmStatusChanged code farms)
  | .inject i => s.onInject source i
  | .injectDailyRestart => s.onInjectDailyRestart

def handleScheduled (s : OrchestratedEngine μ) : EngineAction → OrchestratedEngine μ
  | .emitFarmStatus code farm => s.emitEvent (.farmStatusChanged code [farm])
  | .emitDailyRestart => s.onInjectDailyRestart

def step (s : OrchestratedEngine μ) : Op → OrchestratedEngine μ
  | .command cmd => handleCommand source s cmd
  | .scheduled action => handleScheduled s action
  | .driveMarketData => s.driveMarketData source rng baseSeed
  | .advance t => { s with now := max s.now t }

end Midas.IbSim.Engine
