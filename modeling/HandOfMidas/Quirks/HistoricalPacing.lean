import HandOfMidas.Quirks.MsgRate

/-! The pacing of historical requests (`quirks/historical_pacing.rs`): a budget over a rolling
    window, a cap on bursts of identical requests, and a cooldown between any two of them. -/

namespace Midas.IbSim.Quirks

open Engine

/-- Two requests with one key are identical to the pacing. -/
structure RequestKey where
  symbol : String
  exchange : String
  whatToShow : String
  barSize : String
  deriving DecidableEq

def contractFields : ContractSpec → String × String
  | .stock symbol exchange _ => (symbol, exchange)
  | .option symbol _ _ _ exchange => (symbol, exchange)
  | .future symbol _ exchange => (symbol, exchange)
  | .forex pair => (pair, "IDEALPRO")

def RequestKey.of (req : HistoricalReq) : RequestKey where
  symbol := (contractFields req.contract).1
  exchange := (contractFields req.contract).2
  whatToShow := req.whatToShow
  barSize := req.barSize

structure WindowEntry where
  ts : VirtualInstant
  key : RequestKey
  cost : ℕ

/-- What the pacing remembers of a session. -/
structure PacingState where
  window : List WindowEntry := []
  windowCost : ℕ := 0
  identicalCooldown : RequestKey → Option VirtualInstant := fun _ => none
  violations : ℕ := 0

structure PacingParams where
  windowLimit : ℕ := 60
  window : Duration := fromSecs 600
  burstLimit : ℕ := 6
  burstWindow : Duration := fromSecs 2
  identicalCooldown : Duration := fromSecs 15
  bidaskDoubleCount : Bool := true

structure HistoricalPacing extends PacingParams where
  perSession : SessionId → Option PacingState

/-- Drop what has aged out of the window at its front, and its cost with it. -/
def evict (now : VirtualInstant) (window : Duration) : List WindowEntry → ℕ → List WindowEntry × ℕ
  | [], cost => ([], cost)
  | e :: rest, cost =>
    if window < now - e.ts then evict now window rest (cost - e.cost) else (e :: rest, cost)

def PacingState.pruneWindow (state : PacingState) (now : VirtualInstant)
    (window identicalCooldown : Duration) : PacingState :=
  let evicted := evict now window state.window state.windowCost
  { state with
    window := evicted.1
    windowCost := evicted.2
    identicalCooldown := fun key =>
      (state.identicalCooldown key).filter fun ts => now - ts ≤ identicalCooldown }

/-- The violation of one of the three limits. -/
def pacingViolation (msg : String) : QuirkViolation :=
  .historicalPacing Quirks.historicalPacing (message Quirks.historicalPacing ++ ": " ++ msg)
    .rejectRequest

namespace HistoricalPacing

def withParams (params : PacingParams) : HistoricalPacing := { params with perSession := fun _ => none }

/-- A request for `BID_ASK` data counts twice, in whatever case it is written. -/
def costFor (p : HistoricalPacing) (req : HistoricalReq) : ℕ :=
  if p.bidaskDoubleCount && req.whatToShow.toLower == "bid_ask" then 2 else 1

/-- How many requests identical to `key` fall in the burst window. -/
def burst (p : HistoricalPacing) (now : VirtualInstant) (key : RequestKey) (state : PacingState) : ℕ :=
  state.window.countP fun e => e.key = key && now - e.ts < p.burstWindow

/-- Which of the three limits a request trips, if any. -/
def objection (p : HistoricalPacing) (now : VirtualInstant) (req : HistoricalReq)
    (state : PacingState) : Option QuirkViolation :=
  let key := RequestKey.of req
  if p.windowLimit < state.windowCost + p.costFor req then
    some (pacingViolation "Historical data pacing violation (rolling window)")
  else if p.burstLimit ≤ p.burst now key state then
    some (pacingViolation "Historical data pacing violation (burst)")
  else
    match state.identicalCooldown key with
    | some last =>
      if now - last < p.identicalCooldown then
        some (pacingViolation "Historical data pacing violation (cooldown)")
      else none
    | none => none

/-- Consult the three limits, and record the request if it is admitted. -/
def check (p : HistoricalPacing) (now : VirtualInstant) (session : SessionId)
    (req : HistoricalReq) : Checked HistoricalPacing :=
  let key := RequestKey.of req
  let cost := p.costFor req
  let state := ((p.perSession session).getD {}).pruneWindow now p.window p.identicalCooldown
  let put (state : PacingState) : HistoricalPacing :=
    { p with perSession := Function.update p.perSession session (some state) }
  match p.objection now req state with
  | some v => (some v, put { state with violations := state.violations + 1 })
  | none =>
    (none, put
      { state with
        window := state.window ++ [⟨now, key, cost⟩]
        windowCost := state.windowCost + cost
        identicalCooldown := Function.update state.identicalCooldown key (some now) })

def forgetSession (p : HistoricalPacing) (session : SessionId) : HistoricalPacing :=
  { p with perSession := Function.update p.perSession session none }

end HistoricalPacing

end Midas.IbSim.Quirks
