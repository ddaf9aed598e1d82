import HandOfMidas.Core.Duration
import Mathlib.Data.Rat.Floor
import Mathlib.Logic.Function.Basic

/-! The broker's governor of historical requests (`ib/pacing.rs`): a token bucket for all of them, one
    for each key, and a cooldown between two with one key. Callers run concurrently: each is polled
    from one await point to the next, and a bucket is touched under its lock, at one instant.
    Instants and durations are counted in nanoseconds. -/

namespace Midas.Ib

def fromSecs (secs : ℕ) : ℕ := secs * 1000000000

/-- `as_secs_f64`. -/
def asSecs (d : ℕ) : ℚ := d / 1000000000

/-- `Duration::from_secs_f64`: to the nearest nanosecond, ties to even. -/
def fromSecsF64 (secs : ℚ) : ℕ :=
  let x := secs * 1000000000
  let floor := ⌊x⌋.toNat
  if x - floor < 1 / 2 then floor
  else if 1 / 2 < x - floor then floor + 1
  else if floor % 2 = 0 then floor
  else floor + 1

inductive PacingPolicy where | queue | reject
  deriving DecidableEq, Repr

structure PacingConfig where
  historicalMaxIn10min : ℕ := 60
  identicalBurst : ℕ := 6
  identicalCooldown : ℕ := fromSecs 15
  onViolation : PacingPolicy := .queue
  maxQueueWait : ℕ := fromSecs 2

inductive WhatToShow where
  | trades | midpoint | bid | ask | bidAsk | historicalVolatility | optionImpliedVolatility
  deriving DecidableEq, Repr

/-- Two requests with one key are identical. -/
structure IdenticalKey where
  conId : Int32
  barSizeSecs : UInt64
  whatToShow : WhatToShow
  useRth : Bool
  deriving DecidableEq

inductive MarketDataError where
  | pacingViolation (message : String)
  deriving DecidableEq

/-! ### Token buckets -/

structure TokenBucket where
  capacity : ℚ
  refillPeriod : ℕ
  tokens : ℚ
  lastRefill : ℕ
  lastConsume : Option ℕ

namespace TokenBucket

/-- A bucket that starts full. -/
def new (capacity refillPeriod now : ℕ) : TokenBucket :=
  ⟨capacity, refillPeriod, capacity, now, none⟩

/-- The refill rate; the period is at least `f64::EPSILON`. -/
def refillRatePerSecs (b : TokenBucket) : ℚ :=
  b.capacity / max (asSecs b.refillPeriod) (1 / 2 ^ 52)

def refill (b : TokenBucket) (now : ℕ) : TokenBucket :=
  let elapsed := now - b.lastRefill
  { b with
    tokens := min (b.tokens + asSecs elapsed * b.refillRatePerSecs) b.capacity
    lastRefill := now }

/-- How long until there is a token. -/
def waitHint (b : TokenBucket) : ℕ :=
  let rate := b.refillRatePerSecs
  let waitSecs := if 0 < rate then (1 - b.tokens) / rate else asSecs b.refillPeriod
  fromSecsF64 (max waitSecs 0)

/-- The bucket has a token. -/
def Grants (b : TokenBucket) (now : ℕ) : Prop := 1 ≤ (b.refill now).tokens

instance (b : TokenBucket) (now : ℕ) : Decidable (b.Grants now) :=
  inferInstanceAs (Decidable (_ ≤ _))

/-- Consume a token, or say how long it takes until there is one. -/
def tryAcquire (b : TokenBucket) (now : ℕ) : Except ℕ Unit × TokenBucket :=
  let b' := b.refill now
  if b.Grants now then (.ok (), { b' with tokens := b'.tokens - 1, lastConsume := some now })
  else (.error b'.waitHint, b')

theorem tryAcquire_of_grants {b : TokenBucket} {now : ℕ} (h : b.Grants now) :
    b.tryAcquire now = (.ok (), { b.refill now with
      tokens := (b.refill now).tokens - 1, lastConsume := some now }) :=
  if_pos h

theorem tryAcquire_of_not_grants {b : TokenBucket} {now : ℕ} (h : ¬ b.Grants now) :
    b.tryAcquire now = (.error (b.refill now).waitHint, b.refill now) :=
  if_neg h

end TokenBucket

/-! ### The governor and its callers -/

/-- The two buckets that a call consumes, in this order. -/
inductive Which where | total | perKey
  deriving DecidableEq, Repr

/-- Where a call of `acquire_historical` waits. A call that consumes a bucket waits for its lock, or
    sleeps until the instant `wake` before it tries again. -/
inductive Stage where
  | checking
  | cooling (wake : ℕ)
  | consuming (which : Which) (wake : Option ℕ)
  | returned (r : Except MarketDataError Unit)

/-- A call: its key, where it waits, and the last consumption that its cooldown check saw. -/
structure Caller where
  key : IdenticalKey
  stage : Stage
  seen : Option ℕ

/-- A request that was let through. -/
structure Admission where
  key : IdenticalKey
  time : ℕ
  deriving DecidableEq

/-- `PacingGovernor` with its callers; `admitted` is the history of the requests let through. -/
structure Governor where
  now : ℕ
  historicalTotal : TokenBucket
  historicalPerKey : UInt64 → Option TokenBucket
  callers : List Caller
  admitted : List Admission

variable (cfg : PacingConfig) (hash : IdenticalKey → UInt64)

def Governor.new (now : ℕ) : Governor where
  now := now
  historicalTotal := .new cfg.historicalMaxIn10min (fromSecs (10 * 60)) now
  historicalPerKey := fun _ => none
  callers := []
  admitted := []

namespace Governor

/-- A bucket as a call with this key sees it. -/
def bucket (s : Governor) (key : IdenticalKey) : Which → Option TokenBucket
  | .total => some s.historicalTotal
  | .perKey => s.historicalPerKey (hash key)

def setBucket (s : Governor) (key : IdenticalKey) (b : TokenBucket) : Which → Governor
  | .total => { s with historicalTotal := b }
  | .perKey =>
    { s with historicalPerKey := Function.update s.historicalPerKey (hash key) (some b) }

/-- Move a call on. -/
def setCaller (s : Governor) (i : ℕ) (c : Caller) : Governor :=
  { s with callers := s.callers.set i c }

/-- Enter `acquire_historical`: `get_or_insert_per_key`, up to the first await point. -/
def call (s : Governor) (key : IdenticalKey) : Governor :=
  let b := (s.historicalPerKey (hash key)).getD (.new cfg.identicalBurst (fromSecs 2) s.now)
  { s with
    historicalPerKey := Function.update s.historicalPerKey (hash key) (some b)
    callers := s.callers ++ [⟨key, .checking, none⟩] }

end Governor

/-- The cooldown check of a call that sees the last consumption of its key. -/
def cooldownCheck (now : ℕ) : Option ℕ → Stage
  | none => .consuming .total none
  | some ts =>
    let since := now - ts
    if since < cfg.identicalCooldown then
      let remaining := cfg.identicalCooldown - since
      if cfg.onViolation = .reject ∨ cfg.maxQueueWait < remaining then
        .returned (.error (.pacingViolation ("identical historical request inside " ++
          toString (cfg.identicalCooldown / 1000000000) ++ "s cooldown")))
      else .cooling (now + remaining)
    else .consuming .total none

/-- What `consume_bucket` does when the bucket has no token: it sleeps once, unless the policy or the
    hint forbid it. -/
def onExhausted (now : ℕ) (which : Which) (second : Bool) (hint : ℕ) : Stage :=
  if second then
    .returned (.error (.pacingViolation
      ("pacing bucket still exhausted after wait, hint " ++ durationText hint)))
  else
    match cfg.onViolation with
    | .reject =>
      .returned (.error (.pacingViolation
        ("pacing bucket exhausted, retry in " ++ durationText hint)))
    | .queue =>
      if cfg.maxQueueWait < hint then
        .returned (.error (.pacingViolation ("pacing bucket exhausted, wait hint " ++
          durationText hint ++ " exceeds max " ++ durationText cfg.maxQueueWait)))
      else .consuming which (some (now + hint))

namespace Governor

/-- Try to consume a bucket for the call `c`, which is at position `i`. -/
def consume (s : Governor) (i : ℕ) (c : Caller) (which : Which) (second : Bool) : Governor :=
  match s.bucket hash c.key which with
  | none => s
  | some b =>
    match b.tryAcquire s.now with
    | (.error hint, b) =>
      (s.setBucket hash c.key b which).setCaller i
        { c with stage := onExhausted cfg s.now which second hint }
    | (.ok (), b) =>
      let s := s.setBucket hash c.key b which
      match which with
      | .total => s.setCaller i { c with stage := .consuming .perKey none }
      | .perKey =>
        { s.setCaller i { c with stage := .returned (.ok ()) } with
          admitted := s.admitted ++ [⟨c.key, s.now⟩] }

/-- Poll the call at position `i`: run it from where it waits to its next await point. -/
def poll (s : Governor) (i : ℕ) : Governor :=
  match s.callers[i]? with
  | none => s
  | some c =>
    match c.stage with
    | .checking =>
      let seen := (s.historicalPerKey (hash c.key)).bind TokenBucket.lastConsume
      s.setCaller i { c with stage := cooldownCheck cfg s.now seen, seen := seen }
    | .cooling wake =>
      if wake ≤ s.now then s.setCaller i { c with stage := .consuming .total none } else s
    | .consuming which none => s.consume cfg hash i c which false
    | .consuming which (some wake) => if wake ≤ s.now then s.consume cfg hash i c which true else s
    | .returned _ => s

end Governor

inductive Op where
  | call (key : IdenticalKey)
  | poll (i : ℕ)
  | advance (d : ℕ)
  deriving DecidableEq

def step (s : Governor) : Op → Governor
  | .call key => s.call cfg hash key
  | .poll i => s.poll cfg hash i
  | .advance d => { s with now := s.now + d }

end Midas.Ib
