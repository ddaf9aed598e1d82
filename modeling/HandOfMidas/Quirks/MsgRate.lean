import HandOfMidas.Engine.Types
import Mathlib.Logic.Function.Basic
import HandOfMidas.Lib.TokenBucket
import Mathlib.Data.List.Induction

/-! The codes and texts of IB's errors (`quirks/error_codes.rs`) and the limit of fifty messages a
    second (`quirks/msg_rate.rs`): a token bucket for each session. Over a whole
    sequence of calls: which calls the bucket admits, and why it rejects the others. Times of calls are
    counted in seconds where rates are. -/

namespace Midas.IbSim.Quirks

open Engine

def msgRateExceeded : Int32 := 100
def duplicateOrderId : Int32 := 103
def cantModifyFilled : Int32 := 104
def priceNotMinTick : Int32 := 110
def historicalPacing : Int32 := 162
def noSecurityDef : Int32 := 200
def orderRejected : Int32 := 201
def orderCancelled : Int32 := 202
def clientIdInUse : Int32 := 326
def mdNotSubscribed : Int32 := 354
def farmLost : Int32 := 1100
def farmRestoredNoData : Int32 := 1101
def farmRestoredData : Int32 := 1102
def twsDailyRestart : Int32 := 1300
def mdFarmBroken : Int32 := 2103
def mdFarmOkUsfarm : Int32 := 2104
def hmdsFarmBroken : Int32 := 2105
def hmdsFarmOkUshmds : Int32 := 2106
def secDefFarmDisconnected : Int32 := 2108
def secDefFarmOk : Int32 := 2158
def orderNotYetTransmitted : Int32 := 10147
def lineCapOverflow : Int32 := 10197

/-- The text of each code. -/
def messages : List (Int32 × String) :=
  [(msgRateExceeded, "Max rate of messages per second has been exceeded."),
   (duplicateOrderId, "Duplicate order id"),
   (cantModifyFilled, "Cannot modify a filled order"),
   (priceNotMinTick, "The price does not conform to the minimum price variation for this contract"),
   (historicalPacing,
    "Historical Market Data Service error message: Historical data request pacing violation"),
   (noSecurityDef, "No security definition has been found for the request"),
   (orderRejected, "Order rejected - reason"),
   (orderCancelled, "Order cancelled"),
   (clientIdInUse, "Client id is already in use"),
   (mdNotSubscribed, "Requested market data is not subscribed. Displaying delayed market data."),
   (farmLost, "Connectivity between IB and TWS has been lost."),
   (farmRestoredNoData,
    "Connectivity between IB and Trader Workstation has been restored - data lost."),
   (farmRestoredData,
    "Connectivity between IB and Trader Workstation has been restored - data maintained."),
   (twsDailyRestart, "TWS is restarting. Please reconnect."),
   (mdFarmBroken, "Market data farm connection is broken:usfarm"),
   (mdFarmOkUsfarm, "Market data farm connection is OK:usfarm"),
   (hmdsFarmBroken, "HMDS data farm connection is broken:ushmds"),
   (hmdsFarmOkUshmds, "HMDS data farm connection is OK:ushmds"),
   (secDefFarmDisconnected, "Sec-def data farm connection is disconnected:secdefil"),
   (secDefFarmOk, "Sec-def data farm connection is OK:secdefil"),
   (orderNotYetTransmitted, "OrderId that needs to be cancelled is not yet transmitted."),
   (lineCapOverflow, "Max number of tickers has been reached")]

def message (code : Int32) : String := (messages.lookup code).getD "Unknown error code"

/-- The state of a guard and, if it objects, the violation. -/
abbrev Checked (γ : Type*) := Option QuirkViolation × γ

structure PerSessionRate where
  tokens : ℚ
  lastRefill : VirtualInstant
  violationCount : ℕ

/-- Refill up to the capacity, in proportion to the time since the last refill. -/
def PerSessionRate.refill (per : PerSessionRate) (now : VirtualInstant) (capacity refillPerSec : ℚ) :
    PerSessionRate :=
  let elapsed : ℚ := ((now - per.lastRefill : ℕ) : ℚ) / 1000000000
  if elapsed ≤ 0 then per
  else { per with tokens := min (per.tokens + elapsed * refillPerSec) capacity, lastRefill := now }

structure MsgRateLimiter where
  capacity : ℚ
  refillPerSec : ℚ
  sessions : SessionId → Option PerSessionRate

namespace MsgRateLimiter

def withParams (capacity : ℕ) (refillPerSec : ℚ) : MsgRateLimiter :=
  ⟨capacity, refillPerSec, fun _ => none⟩

/-- The bucket of a session, as full as it is by now; a new session starts with a full one. -/
def bucket (l : MsgRateLimiter) (now : VirtualInstant) (session : SessionId) : PerSessionRate :=
  ((l.sessions session).getD ⟨l.capacity, now, 0⟩).refill now l.capacity l.refillPerSec

/-- Put the bucket of a session back. -/
def put (l : MsgRateLimiter) (session : SessionId) (per : PerSessionRate) : MsgRateLimiter :=
  { l with sessions := Function.update l.sessions session (some per) }

/-- Take a token for a message of `session`. -/
def check (l : MsgRateLimiter) (now : VirtualInstant) (session : SessionId) :
    Checked MsgRateLimiter :=
  let per := l.bucket now session
  if per.tokens < 1 then
    (some (.rateLimit msgRateExceeded (message msgRateExceeded) .disconnectAfterError),
      l.put session { per with violationCount := per.violationCount + 1 })
  else (none, l.put session { per with tokens := per.tokens - 1 })

def forgetSession (l : MsgRateLimiter) (session : SessionId) : MsgRateLimiter :=
  { l with sessions := Function.update l.sessions session none }

/-- A session has run out of messages: the next one is refused. -/
def Exhausted (l : MsgRateLimiter) (now : VirtualInstant) (session : SessionId) : Prop :=
  (l.bucket now session).tokens < 1

instance (l : MsgRateLimiter) (now : VirtualInstant) (session : SessionId) :
    Decidable (l.Exhausted now session) :=
  inferInstanceAs (Decidable (_ < _))

/-- The only violation is that the rate is exceeded, and it ends the session. -/
theorem check_fst (l : MsgRateLimiter) (now : VirtualInstant) (session : SessionId) :
    (l.check now session).1 =
      if l.Exhausted now session then
        some (.rateLimit msgRateExceeded (message msgRateExceeded) .disconnectAfterError)
      else none := by
  by_cases h : (l.bucket now session).tokens < 1 <;> simp [check, Exhausted, h]

end MsgRateLimiter

end Midas.IbSim.Quirks

/-! ### Sequences of calls -/

namespace Midas.IbSim.Quirks

open TokenBucket Engine

/-- A call of `check`, at the time of the clock. -/
structure RateCall where
  time : VirtualInstant
  session : SessionId
  deriving DecidableEq

/-- `as_secs_f64`. -/
def secs (t : VirtualInstant) : ℚ := (t : ℚ) / 1000000000

theorem secs_le_secs {t t' : VirtualInstant} : secs t ≤ secs t' ↔ t ≤ t' := by
  unfold secs
  rw [div_le_div_iff_of_pos_right (by norm_num), Nat.cast_le]

/-- The bucket in seconds. -/
def PerSessionRate.toBucket (per : PerSessionRate) : Bucket ℚ := ⟨per.tokens, secs per.lastRefill⟩

theorem PerSessionRate.toBucket_refill (per : PerSessionRate) (now : VirtualInstant)
    (capacity rate : ℚ) :
    (per.refill now capacity rate).toBucket = per.toBucket.refill capacity rate (secs now) := by
  have hiff : ((now - per.lastRefill : ℕ) : ℚ) / 1000000000 ≤ 0 ↔ now ≤ per.lastRefill := by
    rw [div_le_iff₀ (by norm_num), zero_mul, ← Nat.cast_zero, Nat.cast_le]
    exact Nat.le_zero.trans Nat.sub_eq_zero_iff_le
  unfold PerSessionRate.refill Bucket.refill
  by_cases hnow : now ≤ per.lastRefill
  · have hsecs : secs now ≤ per.toBucket.last := secs_le_secs.mpr hnow
    simp only [if_pos (hiff.mpr hnow), if_pos hsecs]
  · have hsub : ((now - per.lastRefill : ℕ) : ℚ) / 1000000000 = secs now - secs per.lastRefill := by
      rw [Nat.cast_sub (le_of_not_ge hnow), secs, secs, sub_div]
    have hsecs : ¬secs now ≤ per.toBucket.last := mt secs_le_secs.mp hnow
    simp only [if_neg (mt hiff.mp hnow), if_neg hsecs]
    simp only [PerSessionRate.toBucket, hsub]

theorem PerSessionRate.refill_lastRefill {per : PerSessionRate} {now : VirtualInstant}
    (h : per.lastRefill ≤ now) (capacity rate : ℚ) :
    (per.refill now capacity rate).lastRefill = now := by
  unfold PerSessionRate.refill
  rcases Nat.lt_or_eq_of_le h with hlt | rfl
  · have hpos : ¬((now - per.lastRefill : ℕ) : ℚ) / 1000000000 ≤ 0 := by
      rw [not_le]
      refine div_pos (Nat.cast_pos.mpr ?_) (by norm_num)
      exact Nat.sub_pos_of_lt hlt
    simp only [if_neg hpos]
  · simp

namespace MsgRateLimiter

def step (l : MsgRateLimiter) (c : RateCall) : MsgRateLimiter := (l.check c.time c.session).2

/-- The limiter after these calls. -/
def after (l : MsgRateLimiter) (calls : List RateCall) : MsgRateLimiter := calls.foldl step l

/-- The calls that are admitted. -/
def admitted (l : MsgRateLimiter) : List RateCall → List RateCall
  | [] => []
  | c :: calls =>
    if (l.check c.time c.session).1.isSome then admitted (l.step c) calls
    else c :: admitted (l.step c) calls

/-- The times of the admitted calls of a session. -/
def log (l : MsgRateLimiter) (session : SessionId) (calls : List RateCall) : List ℚ :=
  ((l.admitted calls).filter fun c => c.session = session).map fun c => secs c.time

variable (l : MsgRateLimiter)

theorem after_concat (calls : List RateCall) (c : RateCall) :
    l.after (calls ++ [c]) = (l.after calls).step c := by
  simp [after]

theorem admitted_concat (calls : List RateCall) (c : RateCall) :
    l.admitted (calls ++ [c]) = l.admitted calls ++
      if ((l.after calls).check c.time c.session).1.isSome then [] else [c] := by
  induction calls generalizing l with
  | nil =>
    rfl
  | cons c' calls ih =>
    simp only [List.cons_append, admitted, ih, after, List.foldl_cons]
    split <;> rfl

theorem log_concat_ne {session : SessionId} {c : RateCall} (h : c.session ≠ session)
    (calls : List RateCall) : l.log session (calls ++ [c]) = l.log session calls := by
  rw [log, admitted_concat]
  split <;> simp [log, h]

/-- A call takes a token, or it is rejected. -/
theorem step_eq (c : RateCall) : ∃ per : PerSessionRate, l.step c = l.put c.session per ∧
    per.lastRefill = (l.bucket c.time c.session).lastRefill ∧
    per.toBucket = if (l.check c.time c.session).1.isSome then (l.bucket c.time c.session).toBucket
      else (l.bucket c.time c.session).toBucket.take := by
  unfold step check
  by_cases hlt : (l.bucket c.time c.session).tokens < 1
  · simp only [if_pos hlt]
    exact ⟨_, rfl, rfl, rfl⟩
  · simp only [if_neg hlt]
    exact ⟨_, rfl, rfl, rfl⟩

theorem check_isSome (now : VirtualInstant) (session : SessionId) :
    (l.check now session).1.isSome ↔ (l.bucket now session).tokens < 1 := by
  by_cases hlt : (l.bucket now session).tokens < 1 <;> simp [check, hlt]

theorem step_params (c : RateCall) :
    (l.step c).capacity = l.capacity ∧ (l.step c).refillPerSec = l.refillPerSec := by
  obtain ⟨per, heq, -⟩ := l.step_eq c
  rw [heq]
  exact ⟨rfl, rfl⟩

theorem after_params (calls : List RateCall) :
    (l.after calls).capacity = l.capacity ∧ (l.after calls).refillPerSec = l.refillPerSec := by
  induction calls using List.reverseRecOn with
  | nil => exact ⟨rfl, rfl⟩
  | append_singleton calls c ih =>
    rw [after_concat, (step_params _ c).1, (step_params _ c).2]
    exact ih

theorem step_sessions_ne {session : SessionId} {c : RateCall} (h : c.session ≠ session) :
    (l.step c).sessions session = l.sessions session := by
  obtain ⟨per, heq, -⟩ := l.step_eq c
  rw [heq]
  exact Function.update_of_ne (Ne.symm h) _ _

end MsgRateLimiter

/-! ### The bucket of one session -/

section
variable (l : MsgRateLimiter) (pre : List RateCall) (session : SessionId)

/-- The first call of a session. -/
def IsFirst (calls : List RateCall) (session : SessionId) (first : RateCall) : Prop :=
  first ∈ calls ∧ first.session = session ∧ ∀ c ∈ calls, c.session = session → first.time ≤ c.time

/-- The bucket that a session has after these calls. -/
def Metered (per : PerSessionRate) : Prop :=
  ∃ first, IsFirst pre session first ∧ (∃ c ∈ pre, per.lastRefill = c.time) ∧
    Follows l.capacity l.refillPerSec (secs first.time) (l.log session pre) per.toBucket

/-- Each session has the bucket that its own calls leave it with. -/
def AllMetered : Prop :=
  ∀ session, (∀ per, (l.after pre).sessions session = some per → Metered l pre session per) ∧
    ((l.after pre).sessions session = none → (∀ c ∈ pre, c.session ≠ session) ∧ l.log session pre = [])

variable {l pre}

/-- The bucket at a call, before a token is taken. -/
theorem AllMetered.bucket (hcap : 0 ≤ l.capacity) (hrate : 0 ≤ l.refillPerSec) (h : AllMetered l pre)
    {c : RateCall} (hlater : ∀ c' ∈ pre, c'.time ≤ c.time) :
    ∃ first, IsFirst (pre ++ [c]) c.session first ∧
      Follows l.capacity l.refillPerSec (secs first.time) (l.log c.session pre)
        ((l.after pre).bucket c.time c.session).toBucket ∧
      ((l.after pre).bucket c.time c.session).lastRefill = c.time := by
  obtain ⟨hold, hnew⟩ := h c.session
  unfold MsgRateLimiter.bucket
  rw [(l.after_params pre).1, (l.after_params pre).2]
  rcases hsession : (l.after pre).sessions c.session with _ | per
  · obtain ⟨hnone, hlog⟩ := hnew hsession
    have hfull : (PerSessionRate.mk l.capacity c.time 0).refill c.time l.capacity l.refillPerSec =
        ⟨l.capacity, c.time, 0⟩ := by
      simp [PerSessionRate.refill]
    rw [Option.getD_none, hfull, hlog]
    refine ⟨c, ⟨by simp, rfl, ?_⟩, follows_full hcap hrate (secs c.time), rfl⟩
    intro c' hc' hsame
    rcases List.mem_append.mp hc' with hc' | hc'
    · exact absurd hsame (hnone c' hc')
    · exact (List.mem_singleton.mp hc') ▸ le_refl _
  · obtain ⟨first, ⟨hmem, hown, hfirst⟩, ⟨c₁, hc₁, hlast⟩, hfollows⟩ := hold per hsession
    have hle : per.lastRefill ≤ c.time := hlast ▸ hlater c₁ hc₁
    rw [Option.getD_some, PerSessionRate.toBucket_refill]
    refine ⟨first, ⟨List.mem_append_left _ hmem, hown, ?_⟩, hfollows.refill hcap hrate _, ?_⟩
    · intro c' hc' hsame
      rcases List.mem_append.mp hc' with hc' | hc'
      · exact hfirst c' hc' hsame
      · exact (List.mem_singleton.mp hc') ▸ hlater first hmem
    · exact PerSessionRate.refill_lastRefill hle _ _

theorem AllMetered.concat (hcap : 0 ≤ l.capacity) (hrate : 0 ≤ l.refillPerSec) (h : AllMetered l pre)
    {c : RateCall} (hlater : ∀ c' ∈ pre, c'.time ≤ c.time) : AllMetered l (pre ++ [c]) := by
  intro session
  rw [MsgRateLimiter.after_concat]
  by_cases hsame : c.session = session
  · subst hsame
    obtain ⟨first, hfirst, hfollows, hlast⟩ := h.bucket hcap hrate hlater
    obtain ⟨per, heq, hper, hbucket⟩ := (l.after pre).step_eq c
    have hsome : ((l.after pre).step c).sessions c.session = some per := by
      rw [heq]
      exact Function.update_self _ _ _
    rw [hsome]
    refine ⟨?_, fun hnone => by simp at hnone⟩
    rintro per' hper'
    obtain rfl := Option.some.inj hper'
    refine ⟨first, hfirst, ⟨c, by simp, hper.trans hlast⟩, ?_⟩
    rw [hbucket, MsgRateLimiter.log, MsgRateLimiter.admitted_concat]
    by_cases hrej : ((l.after pre).check c.time c.session).1.isSome
    · rw [if_pos hrej, if_pos hrej, List.append_nil]
      exact hfollows
    · have htoken : 1 ≤ ((l.after pre).bucket c.time c.session).toBucket.tokens :=
        le_of_not_gt (mt (MsgRateLimiter.check_isSome _ _ _).mpr hrej)
      have htake := hfollows.take hrate htoken
      have hlast' : ((l.after pre).bucket c.time c.session).toBucket.last = secs c.time := by
        rw [PerSessionRate.toBucket, hlast]
      rw [if_neg hrej, if_neg hrej]
      rw [hlast'] at htake
      simpa [MsgRateLimiter.log] using htake
  · rw [MsgRateLimiter.step_sessions_ne _ hsame]
    obtain ⟨hold, hnew⟩ := h session
    refine ⟨?_, ?_⟩
    · intro per hper
      obtain ⟨first, ⟨hmem, hown, hfirst⟩, ⟨c₁, hc₁, hlast⟩, hfollows⟩ := hold per hper
      refine ⟨first, ⟨List.mem_append_left _ hmem, hown, ?_⟩,
        ⟨c₁, List.mem_append_left _ hc₁, hlast⟩, ?_⟩
      · intro c' hc' hc's
        rcases List.mem_append.mp hc' with hc' | hc'
        · exact hfirst c' hc' hc's
        · exact absurd (List.mem_singleton.mp hc' ▸ hc's) hsame
      · rwa [l.log_concat_ne hsame]
    · intro hnone
      obtain ⟨hall, hlog⟩ := hnew hnone
      refine ⟨?_, by rwa [l.log_concat_ne hsame]⟩
      intro c' hc'
      rcases List.mem_append.mp hc' with hc' | hc'
      · exact hall c' hc'
      · exact List.mem_singleton.mp hc' ▸ hsame

end

/-- In every sequence of calls each session has the bucket that its own calls leave it with. -/
theorem allMetered (capacity : ℕ) {rate : ℚ} (hrate : 0 ≤ rate) {calls : List RateCall}
    (hmono : calls.Pairwise fun c c' => c.time ≤ c'.time) :
    AllMetered (.withParams capacity rate) calls := by
  induction calls using List.reverseRecOn with
  | nil =>
    intro session
    have hnone : ((MsgRateLimiter.withParams capacity rate).after []).sessions session = none := rfl
    rw [hnone]
    refine ⟨?_, fun _ => ⟨by simp, rfl⟩⟩
    intro per hper
    cases hper
  | append_singleton calls c ih =>
    obtain ⟨hcalls, -, hlater⟩ := List.pairwise_append.mp hmono
    refine (ih hcalls).concat (Nat.cast_nonneg capacity) hrate ?_
    intro c' hc'
    exact hlater c' hc' c (by simp)

namespace MsgRateLimiter

/-- A call sees no more of the limiter than the bucket of its session. -/
theorem bucket_congr {l l' : MsgRateLimiter} (hcap : l.capacity = l'.capacity)
    (hrate : l.refillPerSec = l'.refillPerSec) (now : VirtualInstant) {session : SessionId}
    (h : l.sessions session = l'.sessions session) : l.bucket now session = l'.bucket now session := by
  rw [bucket, bucket, h, hcap, hrate]

/-- What a session has is what its own calls leave it with. -/
theorem after_sessions (l : MsgRateLimiter) (session : SessionId) (calls : List RateCall) :
    (l.after calls).sessions session =
      (l.after (calls.filter fun c => c.session = session)).sessions session := by
  induction calls using List.reverseRecOn with
  | nil => rfl
  | append_singleton calls c ih =>
    rw [after_concat, List.filter_append]
    by_cases hsame : c.session = session
    · subst hsame
      have hbucket := bucket_congr ((l.after_params calls).1.trans (l.after_params _).1.symm)
        ((l.after_params calls).2.trans (l.after_params _).2.symm) c.time ih
      have hone : [c].filter (fun c' => c'.session = c.session) = [c] := by simp
      rw [hone, after_concat]
      simp only [step, check, hbucket]
      split <;> simp [put]
    · have hnone : [c].filter (fun c' => c'.session = session) = [] := by simp [hsame]
      rw [hnone, List.append_nil, step_sessions_ne _ hsame, ih]

theorem check_fst_own (l : MsgRateLimiter) (calls : List RateCall) (now : VirtualInstant)
    (session : SessionId) : ((l.after calls).check now session).1 =
      ((l.after (calls.filter fun c => c.session = session)).check now session).1 := by
  have hbucket := bucket_congr ((l.after_params calls).1.trans (l.after_params _).1.symm)
    ((l.after_params calls).2.trans (l.after_params _).2.symm) now (l.after_sessions session calls)
  unfold check
  rw [hbucket]
  by_cases hlt : ((l.after (calls.filter fun c => c.session = session)).bucket now session).tokens < 1
  · simp only [if_pos hlt]
  · simp only [if_neg hlt]

/-- No window of time has more admissions than the capacity and what flows in meanwhile; a call is
    rejected just where the admissions before it, from some time on, have used all but a part of a token
    of that; and a session sees only its own calls. -/
theorem check_exact (capacity : ℕ) {rate : ℚ} (hrate : 0 < rate) {calls : List RateCall}
    (hmono : calls.Pairwise fun c c' => c.time ≤ c'.time) :
    (∀ session s d, 0 ≤ d →
      within ((withParams capacity rate).log session calls) s d ≤ capacity + rate * d) ∧
    (∀ pre c post, calls = pre ++ c :: post →
      ((((withParams capacity rate).after pre).check c.time c.session).1.isSome ↔
        ∃ s, (∃ c' ∈ pre ++ [c], c'.session = c.session ∧ secs c'.time ≤ s) ∧ s ≤ secs c.time ∧
          capacity + rate * (secs c.time - s) - 1 <
            since ((withParams capacity rate).log c.session pre) s)) ∧
    ∀ pre c post, calls = pre ++ c :: post →
      (((withParams capacity rate).after pre).check c.time c.session).1 =
        (((withParams capacity rate).after (pre.filter fun c' => c'.session = c.session)).check c.time
          c.session).1 := by
  refine ⟨?_, ?_, fun pre c _ _ => check_fst_own _ pre c.time c.session⟩
  · intro session s d hd
    obtain ⟨hold, hnew⟩ := allMetered capacity hrate.le hmono session
    rcases hsession : ((withParams capacity rate).after calls).sessions session with _ | per
    · have := mul_nonneg hrate.le hd
      rw [(hnew hsession).2]
      simp only [within, List.countP_nil, Nat.cast_zero]
      positivity
    · obtain ⟨first, -, -, hfollows⟩ := hold per hsession
      exact hfollows.windows s d hd
  · rintro pre c post rfl
    obtain ⟨hpre, -, hlater⟩ := List.pairwise_append.mp hmono
    obtain ⟨first, ⟨hmem, hown, hfirst⟩, hfollows, hlast⟩ := (allMetered capacity hrate.le hpre).bucket
      (Nat.cast_nonneg capacity) hrate.le fun c' hc' => hlater c' hc' c (by simp)
    have hiff := hfollows.lt_one_iff
    rw [PerSessionRate.toBucket, hlast] at hiff
    rw [check_isSome]
    refine hiff.trans ⟨?_, ?_⟩
    · rintro ⟨s, hs, hrest⟩
      exact ⟨s, ⟨first, hmem, hown, hs⟩, hrest⟩
    · rintro ⟨s, ⟨c', hc', hsame, hs⟩, hrest⟩
      exact ⟨s, (secs_le_secs.mpr (hfirst c' hc' hsame)).trans hs, hrest⟩

/-- Two sessions with a bucket of one token each: the second call of session 1 comes too early. -/
theorem check_exact_twoSessions :
    let calls : List RateCall := [⟨0, 1⟩, ⟨0, 2⟩, ⟨500000000, 1⟩]
    (∀ session s d, 0 ≤ d → within ((withParams 1 1).log session calls) s d ≤ (1 : ℕ) + (1 : ℚ) * d) ∧
    (∀ pre c post, calls = pre ++ c :: post →
      ((((withParams 1 1).after pre).check c.time c.session).1.isSome ↔
        ∃ s, (∃ c' ∈ pre ++ [c], c'.session = c.session ∧ secs c'.time ≤ s) ∧ s ≤ secs c.time ∧
          (1 : ℕ) + (1 : ℚ) * (secs c.time - s) - 1 < since ((withParams 1 1).log c.session pre) s)) ∧
    ∀ pre c post, calls = pre ++ c :: post →
      (((withParams 1 1).after pre).check c.time c.session).1 =
        (((withParams 1 1).after (pre.filter fun c' => c'.session = c.session)).check c.time
          c.session).1 :=
  check_exact 1 one_pos (by decide)

/-- Two calls at one instant: the second is rejected, though there is no earlier time at all since the
    session's first call. -/
theorem rejected_at_first_instant :
    (((withParams 1 1).after [⟨5000000000, 1⟩]).check 5000000000 1).1.isSome = true ∧
      ¬∃ s, secs 5000000000 ≤ s ∧ s < secs 5000000000 ∧
        (1 : ℚ) + 1 * (secs 5000000000 - s) - 1 <
          (((withParams 1 1).log 1 [⟨5000000000, 1⟩]).countP fun t => s ≤ t ∧ t < secs 5000000000) := by
  refine ⟨by decide +kernel, ?_⟩
  rintro ⟨s, hle, hlt, -⟩
  exact absurd hlt (not_lt.mpr hle)

end MsgRateLimiter

end Midas.IbSim.Quirks
