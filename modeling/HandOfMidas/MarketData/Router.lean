import HandOfMidas.Core.Symbol
import Mathlib.Logic.Function.Basic

/-! The market-data router (`router/actor.rs`, `router/handle.rs`, `router/publisher.rs`): a control
    actor that owns the hubs, one publisher task for each upstream of a hub, and handles that report
    their drop. The actor handles one message at a time, in the order sent; the publishers take their
    own steps in between. Hubs are numbered in the order of their creation: a hub that replaces an
    earlier one of its symbol has another number. Messages name a symbol; the hub they come from is
    history that they carry here only. -/

namespace Midas.MarketData

abbrev HubId := ℕ

abbrev PublisherId := ℕ

/-- `DecKind`: the three kinds of handles, each with its own refcount. -/
inductive Kind where | tick | rtBar | watch
  deriving DecidableEq, Repr

/-- The two upstreams of a hub. -/
inductive Feed where | tick | rtBar
  deriving DecidableEq, Repr

/-- The upstream that a handle lives on. -/
def Kind.feed : Kind → Feed
  | .tick | .watch => .tick
  | .rtBar => .rtBar

inductive EndReason where | cancelled | disconnected | farmDropped | error
  deriving DecidableEq, Repr

/-- `SymbolHub`: the refcounts, the join handles of the publishers, whether the channel for bars is
    open, and the end reason. -/
structure Hub where
  symbol : SymbolKey
  refcount : Kind → ℕ
  task : Feed → Option PublisherId
  rtBarsTx : Bool
  endReason : Option EndReason

def Hub.new (symbol : SymbolKey) : Hub := ⟨symbol, fun _ => 0, fun _ => none, false, none⟩

/-- How far a publisher is. It returns after its last idle check, or after it has reported that its
    upstream is closed, and is finished some time later. -/
inductive Stage where
  | running (zeroStreak : ℕ)
  | idling
  | closing
  | finished
  deriving DecidableEq, Repr

structure Publisher where
  hub : HubId
  feed : Feed
  stage : Stage
  aborted : Bool

/-- A handle given out, with the symbol that its guard names. -/
structure Handle where
  hub : HubId
  kind : Kind
  symbol : SymbolKey
  live : Bool
  deriving DecidableEq

/-- `RouterMsg`, as far as it changes anything. `origin` is the hub the message comes from. -/
inductive Msg where
  | subscribe (kind : Kind) (symbol : SymbolKey)
  | decRef (kind : Kind) (symbol : SymbolKey) (origin : HubId)
  | upstreamClosed (symbol : SymbolKey) (reason : EndReason) (origin : HubId)
  deriving DecidableEq

/-- What was torn down: a hub, or the publisher of one of its upstreams. `origin` is the hub that the
    message behind it came from, `closed` whether this was the close of an upstream, and `live` how
    many handles still lived on what was torn down. -/
structure Teardown where
  hub : HubId
  feed : Option Feed
  origin : HubId
  closed : Bool
  live : ℕ
  deriving DecidableEq

/-- The router with its tasks, handles and messages; `torn` is history. -/
structure Router where
  perSymbol : SymbolKey → Option HubId
  hubs : HubId → Hub
  nextHub : HubId
  publishers : PublisherId → Publisher
  nextPublisher : PublisherId
  handles : List Handle
  queue : List Msg
  contractCache : SymbolKey → Option Int32
  torn : List Teardown

def Router.new : Router where
  perSymbol := fun _ => none
  hubs := fun _ => Hub.new ⟨0, ""⟩
  nextHub := 0
  publishers := fun _ => ⟨0, .tick, .finished, false⟩
  nextPublisher := 0
  handles := []
  queue := []
  contractCache := fun _ => none
  torn := []

/-- What the upstream source answers when it is asked: the contract's id and whether it opens the
    stream, each in time. -/
structure Answer where
  contractId : Option Int32
  opens : Bool

/-- `PUBLISHER_AUTO_EXIT_STREAK`. -/
def publisherAutoExitStreak : ℕ := 16

namespace Router

/-- Change one hub. -/
def onHub (h : HubId) (f : Hub → Hub) (s : Router) : Router :=
  { s with hubs := Function.update s.hubs h (f (s.hubs h)) }

/-- Change one publisher. -/
def onPublisher (p : PublisherId) (f : Publisher → Publisher) (s : Router) : Router :=
  { s with publishers := Function.update s.publishers p (f (s.publishers p)) }

/-- Is this handle of `h` live? -/
def liveOn (h : HubId) (kind : Kind) (x : Handle) : Bool := x.hub = h && x.kind = kind && x.live

/-- The live handles of a hub that its upstream `feed` serves. -/
def served (s : Router) (h : HubId) (feed : Feed) : ℕ :=
  s.handles.countP fun x => x.hub = h && x.kind.feed = feed && x.live

/-! ### Subscribing -/

/-- `resolve_con_id`: from the cache, else from the source; an answer is cached. -/
def resolveConId (answer : Answer) (symbol : SymbolKey) (s : Router) : Bool × Router :=
  match s.contractCache symbol with
  | some _ => (true, s)
  | none =>
    match answer.contractId with
    | some conId =>
      (true, { s with contractCache := Function.update s.contractCache symbol (some conId) })
    | none => (false, s)

/-- Resolve the contract and open the upstream; whether both went well. -/
def openUpstream (answer : Answer) (symbol : SymbolKey) (s : Router) : Bool × Router :=
  let resolved := s.resolveConId answer symbol
  (resolved.1 && answer.opens, resolved.2)

/-- `spawn_tick_publisher_on` and `spawn_rt_bar_publisher_on`. -/
def spawnPublisher (h : HubId) (feed : Feed) (s : Router) : Router :=
  { s.onHub h fun hub =>
      { hub with
        task := Function.update hub.task feed (some s.nextPublisher)
        rtBarsTx := hub.rtBarsTx || decide (feed = .rtBar) } with
    publishers := Function.update s.publishers s.nextPublisher ⟨h, feed, .running 0, false⟩
    nextPublisher := s.nextPublisher + 1 }

/-- A publisher whose task has not finished stands behind the upstream `feed` of hub `h`. -/
def hasPublisher (s : Router) (h : HubId) (feed : Feed) : Bool :=
  match (s.hubs h).task feed with
  | some p => decide ((s.publishers p).stage ≠ .finished)
  | none => false

/-- `ensure_tick_publisher` and its copy for bars. -/
def ensurePublisher (answer : Answer) (h : HubId) (feed : Feed) (s : Router) : Bool × Router :=
  if s.hasPublisher h feed then (true, s)
  else
    let opened := s.openUpstream answer (s.hubs h).symbol
    if opened.1 then (true, opened.2.spawnPublisher h feed) else (false, opened.2)

/-- Count a handle of hub `h` and give it out. -/
def giveHandle (h : HubId) (kind : Kind) (symbol : SymbolKey) (s : Router) : Router :=
  { s.onHub h fun hub =>
      { hub with refcount := Function.update hub.refcount kind (hub.refcount kind + 1) } with
    handles := s.handles ++ [⟨h, kind, symbol, true⟩] }

/-- A new hub for a symbol, in the map. -/
def insertHub (symbol : SymbolKey) (s : Router) : Router :=
  { s.onHub s.nextHub fun _ => Hub.new symbol with
    perSymbol := Function.update s.perSymbol symbol (some s.nextHub)
    nextHub := s.nextHub + 1 }

/-- The three subscribe handlers. Whatever can fail comes first, so that a failure counts nothing. -/
def handleSubscribe (answer : Answer) (kind : Kind) (symbol : SymbolKey) (s : Router) : Router :=
  match s.perSymbol symbol with
  | some h =>
    let ensured := s.ensurePublisher answer h kind.feed
    if ensured.1 then ensured.2.giveHandle h kind symbol else ensured.2
  | none =>
    let opened := s.openUpstream answer symbol
    if opened.1 then
      ((opened.2.insertHub symbol).spawnPublisher s.nextHub kind.feed).giveHandle s.nextHub kind symbol
    else opened.2

/-- `handle_subscribe_ticks`. -/
def handleSubscribeTicks (answer : Answer) : SymbolKey → Router → Router :=
  handleSubscribe answer .tick

/-- `handle_subscribe_rt_bars`. -/
def handleSubscribeRtBars (answer : Answer) : SymbolKey → Router → Router :=
  handleSubscribe answer .rtBar

def handleOpenHubForWatch (answer : Answer) : SymbolKey → Router → Router :=
  handleSubscribe answer .watch

/-! ### Tearing down -/

/-- Take a publisher's join handle and abort it. -/
def abortTask (h : HubId) (feed : Feed) (origin : HubId) (closed : Bool) (s : Router) : Router :=
  match (s.hubs h).task feed with
  | none => s
  | some p =>
    { (s.onHub h fun hub => { hub with task := Function.update hub.task feed none }).onPublisher p
        fun pub => { pub with aborted := true } with
      torn := s.torn ++ [⟨h, some feed, origin, closed, s.served h feed⟩] }

/-- Take a hub out of the map. -/
def removeHub (h : HubId) (origin : HubId) (closed : Bool) (s : Router) : Router :=
  { s with
    perSymbol := Function.update s.perSymbol (s.hubs h).symbol none
    torn := s.torn ++ [⟨h, none, origin, closed, s.served h .tick + s.served h .rtBar⟩] }

/-- Abort what no count stands behind any more, and remove the hub if no count is left. -/
def maybeReap (h : HubId) (origin : HubId) (s : Router) : Router :=
  let ticks := (s.hubs h).refcount .tick
  let watches := (s.hubs h).refcount .watch
  let rtBars := (s.hubs h).refcount .rtBar
  let s := if ticks = 0 ∧ watches = 0 then s.abortTask h .tick origin false else s
  let s := if rtBars = 0 then s.abortTask h .rtBar origin false else s
  if ticks = 0 ∧ watches = 0 ∧ rtBars = 0 then s.removeHub h origin false else s

/-- A `DecRef` is taken off the hub that is in the map now; at zero it changes nothing. -/
def handleDecRef (kind : Kind) (symbol : SymbolKey) (origin : HubId) (s : Router) : Router :=
  match s.perSymbol symbol with
  | none => s
  | some h =>
    let prev := (s.hubs h).refcount kind
    let s := s.onHub h fun hub => { hub with refcount := Function.update hub.refcount kind (prev - 1) }
    if prev = 1 then s.maybeReap h origin else s

def handleUpstreamClosed (symbol : SymbolKey) (reason : EndReason) (origin : HubId) (s : Router) :
    Router :=
  match s.perSymbol symbol with
  | none => s
  | some h =>
    (((s.onHub h fun hub => { hub with endReason := some reason }).abortTask h .tick origin
      true).abortTask h .rtBar origin true).removeHub h origin true

/-- The actor takes the next message, if there is one. -/
def handleNext (answer : Answer) (s : Router) : Router :=
  match s.queue with
  | [] => s
  | msg :: queue =>
    let s := { s with queue := queue }
    match msg with
    | .subscribe .tick symbol => s.handleSubscribeTicks answer symbol
    | .subscribe .rtBar symbol => s.handleSubscribeRtBars answer symbol
    | .subscribe .watch symbol => s.handleOpenHubForWatch answer symbol
    | .decRef kind symbol origin => s.handleDecRef kind symbol origin
    | .upstreamClosed symbol reason origin => s.handleUpstreamClosed symbol reason origin

/-! ### Publishers and handles -/

/-- A publisher publishes an item and counts idle rounds. A receiver that hangs on no handle
    (`others`) keeps it going too. -/
def publishItem (p : PublisherId) (others : Bool) (s : Router) : Router :=
  let pub := s.publishers p
  match pub.stage with
  | .running zeroStreak =>
    let next :=
      if pub.feed = .rtBar ∧ (s.hubs pub.hub).rtBarsTx = false then .idling
      else if 0 < s.served pub.hub pub.feed ∨ others then .running 0
      else if publisherAutoExitStreak ≤ zeroStreak + 1 then .idling
      else .running (zeroStreak + 1)
    s.onPublisher p fun pub => { pub with stage := next }
  | _ => s

/-- A publisher sees its upstream closed, reports it and returns. -/
def publishClosed (p : PublisherId) (s : Router) : Router :=
  let pub := s.publishers p
  match pub.stage with
  | .running _ =>
    { s.onPublisher p fun pub => { pub with stage := .closing } with
      queue := s.queue ++ [.upstreamClosed (s.hubs pub.hub).symbol .disconnected pub.hub] }
  | _ => s

/-- A publisher that returns has finished. -/
def finish (p : PublisherId) (s : Router) : Router :=
  match (s.publishers p).stage with
  | .idling | .closing => s.onPublisher p fun pub => { pub with stage := .finished }
  | _ => s

/-- An aborted publisher reaches its next await point and is finished; up to there it goes on. -/
def cancelled (p : PublisherId) (s : Router) : Router :=
  match (s.publishers p).stage, (s.publishers p).aborted with
  | .running _, true => s.onPublisher p fun pub => { pub with stage := .finished }
  | _, _ => s

/-- Drop a live handle: its guard sends a `DecRef`. -/
def dropHandle (i : ℕ) (s : Router) : Router :=
  match s.handles[i]? with
  | none => s
  | some x =>
    if x.live then
      { s with
        handles := s.handles.set i { x with live := false }
        queue := s.queue ++ [.decRef x.kind x.symbol x.hub] }
    else s

end Router

/-- What can happen: a client asks for a handle or drops one, the actor takes a message, a publisher
    takes a step. -/
inductive Op where
  | request (kind : Kind) (symbol : SymbolKey)
  | drop (i : ℕ)
  | handleNext (answer : Answer)
  | item (p : PublisherId) (others : Bool)
  | closed (p : PublisherId)
  | finish (p : PublisherId)
  | cancelled (p : PublisherId)

def step (s : Router) : Op → Router
  | .request kind symbol => { s with queue := s.queue ++ [.subscribe kind symbol] }
  | .drop i => s.dropHandle i
  | .handleNext answer => s.handleNext answer
  | .item p others => s.publishItem p others
  | .closed p => s.publishClosed p
  | .finish p => s.finish p
  | .cancelled p => s.cancelled p

end Midas.MarketData
