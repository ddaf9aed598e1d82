import HandOfMidas.Core.Duration
import HandOfMidas.Lib.Store
import HandOfMidas.Quirks.MsgRate
import Mathlib.Data.Finset.Card
import HandOfMidas.Quirks.HistoricalPacing

/-! The caps on streaming lines (`quirks/line_limit.rs`): Level-1 lines by request id, tick-by-tick
    lines with a cooldown for each instrument besides. An entry of a session without lines is not
    told apart from no entry. And the guard that the engine asks before it acts on a request
    (`quirks/mod.rs`): the message rate first, then the limit for the kind of request. -/

namespace Midas.IbSim.Quirks

open Engine

structure LineLimiter where
  streamingLines : SessionId → Finset ReqId
  maxLinesPerSession : ℕ

namespace LineLimiter

def withCap (maxLinesPerSession : ℕ) : LineLimiter := ⟨fun _ => ∅, maxLinesPerSession⟩

/-- Reserve a Level-1 line; a request that already has one keeps it. -/
def reserveL1 (l : LineLimiter) (session : SessionId) (reqId : ReqId) : Checked LineLimiter :=
  let lines := l.streamingLines session
  if reqId ∈ lines then (none, l)
  else if l.maxLinesPerSession ≤ lines.card then
    (some (.lineLimit lineCapOverflow (message lineCapOverflow) .rejectRequest), l)
  else
    (none, { l with streamingLines := Function.update l.streamingLines session (insert reqId lines) })

def releaseL1 (l : LineLimiter) (session : SessionId) (reqId : ReqId) : LineLimiter :=
  { l with
    streamingLines :=
      Function.update l.streamingLines session ((l.streamingLines session).erase reqId) }

def forgetSession (l : LineLimiter) (session : SessionId) : LineLimiter :=
  { l with streamingLines := Function.update l.streamingLines session ∅ }

def activeLines (l : LineLimiter) (session : SessionId) : ℕ := (l.streamingLines session).card

end LineLimiter

structure TickByTickLimiter where
  active : SessionId → Store (Prod.fst : ReqId × SymbolKey → ReqId)
  lastSub : SessionId × Int32 → Option VirtualInstant
  maxTbt : ℕ
  cooldown : Duration

namespace TickByTickLimiter

def withParams (maxTbt : ℕ) (cooldown : Duration) : TickByTickLimiter :=
  ⟨fun _ => Store.empty, fun _ => none, maxTbt, cooldown⟩

/-- How much of the cooldown is left for an instrument. -/
def cooling (l : TickByTickLimiter) (now : VirtualInstant) (session : SessionId)
    (symbol : SymbolKey) : Option Duration :=
  (l.lastSub (session, symbol.contractId)).bind fun last =>
    if now - last < l.cooldown then some (l.cooldown - (now - last)) else none

/-- Reserve a tick-by-tick line; a request that already has one keeps it. -/
def reserve (l : TickByTickLimiter) (now : VirtualInstant) (session : SessionId) (reqId : ReqId)
    (symbol : SymbolKey) : Checked TickByTickLimiter :=
  let per := l.active session
  if (per.get? reqId).isSome then (none, l)
  else
    match l.cooling now session symbol with
    | some left =>
      (some (.tickByTickLimit lineCapOverflow
        ("Tick-by-tick cooldown: re-subscribe to " ++ symbol.symbol ++ " not allowed for another " ++
          durationText left) .rejectRequest), l)
    | none =>
      if l.maxTbt ≤ per.items.length then
        (some (.tickByTickLimit lineCapOverflow
          ("Max tick-by-tick subscriptions (" ++ toString l.maxTbt ++ ") reached")
          .rejectRequest), l)
      else
        (none,
          { l with
            active := Function.update l.active session (per.put (reqId, symbol))
            lastSub := Function.update l.lastSub (session, symbol.contractId) (some now) })

/-- Release a tick-by-tick line; the cooldown of its instrument goes on. -/
def release (l : TickByTickLimiter) (session : SessionId) (reqId : ReqId) : TickByTickLimiter :=
  { l with active := Function.update l.active session ((l.active session).erase reqId) }

def forgetSession (l : TickByTickLimiter) (session : SessionId) : TickByTickLimiter :=
  { l with
    active := Function.update l.active session Store.empty
    lastSub := fun k => if k.1 = session then none else l.lastSub k }

def activeCount (l : TickByTickLimiter) (session : SessionId) : ℕ := (l.active session).items.length

/-- The requests with a tick-by-tick line. -/
def lines (l : TickByTickLimiter) (session : SessionId) : Finset ReqId :=
  ⟨↑((l.active session).items.map Prod.fst), Multiset.coe_nodup.mpr (l.active session).nodup⟩

theorem card_lines (l : TickByTickLimiter) (session : SessionId) :
    (l.lines session).card = l.activeCount session := by
  simp [lines, activeCount]

end TickByTickLimiter

end Midas.IbSim.Quirks

/-! ### The guard -/

namespace Midas.IbSim.Quirks

open Engine

/-- `QuirksConfig`, the part that the guard is built from, with what the limiters assert of it. -/
structure QuirksConfig where
  limitPerSec : ℕ := 50
  maxL1Lines : ℕ := 100
  maxTbt : ℕ := 5
  tbtCooldownSec : ℕ := 15
  window60_10min : ℕ := 60
  burst6_2sec : ℕ := 6
  identicalCooldownSec : ℕ := 15
  bidaskDoubleCount : Bool := true
  limitPerSec_pos : 0 < limitPerSec := by decide
  maxL1Lines_pos : 0 < maxL1Lines := by decide
  maxTbt_pos : 0 < maxTbt := by decide
  window_pos : 0 < window60_10min := by decide
  burst_pos : 0 < burst6_2sec := by decide

def QuirksConfig.toPacingParams (cfg : QuirksConfig) : PacingParams where
  windowLimit := cfg.window60_10min
  burstLimit := cfg.burst6_2sec
  identicalCooldown := fromSecs cfg.identicalCooldownSec
  bidaskDoubleCount := cfg.bidaskDoubleCount

inductive QuirkCheckKind where
  | msgRate
  | l1Subscribe (symbol : SymbolKey)
  | l1Unsubscribe
  | tickByTickSubscribe (symbol : SymbolKey)
  | historicalRequest (req : HistoricalReq)
  | orderPlace

structure CompositeQuirkGuard where
  msgRate : MsgRateLimiter
  lineLimit : LineLimiter
  tickByTick : TickByTickLimiter
  historical : HistoricalPacing

namespace CompositeQuirkGuard

def fromConfig (cfg : QuirksConfig) : CompositeQuirkGuard where
  msgRate := .withParams cfg.limitPerSec cfg.limitPerSec
  lineLimit := .withCap cfg.maxL1Lines
  tickByTick := .withParams cfg.maxTbt (fromSecs cfg.tbtCooldownSec)
  historical := .withParams cfg.toPacingParams

def forgetSession (g : CompositeQuirkGuard) (session : SessionId) : CompositeQuirkGuard where
  msgRate := g.msgRate.forgetSession session
  lineLimit := g.lineLimit.forgetSession session
  tickByTick := g.tickByTick.forgetSession session
  historical := g.historical.forgetSession session

def releaseL1 (g : CompositeQuirkGuard) (session : SessionId) (reqId : ReqId) : CompositeQuirkGuard :=
  { g with lineLimit := g.lineLimit.releaseL1 session reqId }

def releaseTbt (g : CompositeQuirkGuard) (session : SessionId) (reqId : ReqId) :
    CompositeQuirkGuard :=
  { g with tickByTick := g.tickByTick.release session reqId }

/-- The check for the kind of request alone. -/
def checkKind (g : CompositeQuirkGuard) (now : VirtualInstant) (session : SessionId)
    (reqId : Option ReqId) : QuirkCheckKind → Checked CompositeQuirkGuard
  | .msgRate | .orderPlace => (none, g)
  | .l1Subscribe _ =>
    let r := g.lineLimit.reserveL1 session (reqId.getD 0)
    (r.1, { g with lineLimit := r.2 })
  | .l1Unsubscribe =>
    (none, match reqId with
      | some reqId => g.releaseL1 session reqId
      | none => g)
  | .tickByTickSubscribe symbol =>
    let r := g.tickByTick.reserve now session (reqId.getD 0) symbol
    (r.1, { g with tickByTick := r.2 })
  | .historicalRequest req =>
    let r := g.historical.check now session req
    (r.1, { g with historical := r.2 })

/-- The first violation, if there is one. Every message costs a token of the rate. -/
def check (g : CompositeQuirkGuard) (now : VirtualInstant) (session : SessionId)
    (reqId : Option ReqId) (kind : QuirkCheckKind) : Checked CompositeQuirkGuard :=
  let rate := g.msgRate.check now session
  let g := { g with msgRate := rate.2 }
  match rate.1 with
  | some v => (some v, g)
  | none => g.checkKind now session reqId kind

/-- The two parts of a check do not touch each other. -/
theorem check_eq (g : CompositeQuirkGuard) (now : VirtualInstant) (session : SessionId)
    (reqId : Option ReqId) (kind : QuirkCheckKind) :
    g.check now session reqId kind =
      if g.msgRate.Exhausted now session then
        (some (.rateLimit msgRateExceeded (message msgRateExceeded) .disconnectAfterError),
          { g with msgRate := (g.msgRate.check now session).2 })
      else
        ((g.checkKind now session reqId kind).1,
          { (g.checkKind now session reqId kind).2 with
            msgRate := (g.msgRate.check now session).2 }) := by
  have hrate := g.msgRate.check_fst now session
  unfold check
  split_ifs with h
  · simp [hrate, h]
  · simp only [hrate, if_neg h]
    cases kind with
    | l1Unsubscribe => cases reqId <;> rfl
    | _ => rfl

end CompositeQuirkGuard

end Midas.IbSim.Quirks
