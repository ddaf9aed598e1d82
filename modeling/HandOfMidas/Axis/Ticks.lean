import HandOfMidas.Core.Date
import HandOfMidas.Lib.Ladder

/-! The ticks of the time axes (`ticks.rs` of `midas-axis`): the first aligned instant from the
    start on, and from each the next one. For every step the aligned instants are a ladder, and the
    two rules climb it. -/

namespace Midas.Axis

open Civil Instant

inductive NiceStep where
  | year | quarter | month | week | day
  | hours (h : ℤ)
  | minutes (m : ℤ)
  | seconds (s : ℤ)
  deriving DecidableEq, Repr

/-- `STEPS`. -/
def steps : List NiceStep :=
  [.year, .quarter, .month, .week, .day, .hours 6, .hours 3, .hours 1, .minutes 30, .minutes 15,
    .minutes 5, .minutes 1, .seconds 15, .seconds 5, .seconds 1]

/-! ### The rules -/

/-- `Utc.with_ymd_and_hms(y, m, 1, 0, 0, 0).single()`. -/
def firstOf (y : ℤ) (m : ℕ) : Option Instant := (fromYmdOpt y m 1).map ofDate

def days (n : ℤ) : ℤ := n * Instant.day

/-- Round up to a multiple of `modulusSecs` seconds. -/
def alignUpMod (ts : Instant) (modulusSecs : ℤ) : Instant :=
  let epoch := timestamp ts
  let rem := epoch % modulusSecs
  let subsecNanos := ts % second
  if rem = 0 ∧ subsecNanos = 0 then ts
  else
    let delta := modulusSecs - rem
    ts + delta * second - subsecNanos

/-- The first boundary at or after `ts`. `none` is a panic: the calendar of the source ends. -/
def alignUp (ts : Instant) (step : NiceStep) : Option Instant :=
  let date := dateNaive ts
  let y := Civil.year date
  let m := Civil.month date
  match step with
  | .year =>
    (firstOf y 1).bind fun jan1 => if ts ≤ jan1 then some jan1 else firstOf (y + 1) 1
  | .quarter =>
    let qstartMonth := (m - 1) / 3 * 3 + 1
    (firstOf y qstartMonth).bind fun cur =>
      if ts ≤ cur then some cur
      else if 12 < qstartMonth + 3 then firstOf (y + 1) (qstartMonth + 3 - 12)
      else firstOf y (qstartMonth + 3)
  | .month =>
    (firstOf y m).bind fun cur =>
      if ts ≤ cur then some cur else if m = 12 then firstOf (y + 1) 1 else firstOf y (m + 1)
  | .week =>
    let mondayTs := ofDate (date - weekday date)
    if ts ≤ mondayTs then some mondayTs else some (mondayTs + days 7)
  | .day =>
    let midnight := ofDate date
    if ts ≤ midnight then some midnight else some (midnight + days 1)
  | .hours h => some (alignUpMod ts (h * 3600))
  | .minutes m => some (alignUpMod ts (m * 60))
  | .seconds s => some (alignUpMod ts s)

/-- One step on. -/
def advance (ts : Instant) (step : NiceStep) : Instant :=
  let y := Civil.year (dateNaive ts)
  let m := Civil.month (dateNaive ts)
  match step with
  | .year => (firstOf (y + 1) m).getD (ts + days 365)
  | .quarter =>
    (if 12 < m + 3 then firstOf (y + 1) (m + 3 - 12) else firstOf y (m + 3)).getD (ts + days 91)
  | .month => (if m = 12 then firstOf (y + 1) 1 else firstOf y (m + 1)).getD (ts + days 30)
  | .week => ts + days 7
  | .day => ts + days 1
  | .hours h => ts + ofTimestamp (h * 3600)
  | .minutes m => ts + ofTimestamp (m * 60)
  | .seconds s => ts + ofTimestamp s

inductive TickLabel where
  | primary (text : String)
  | withSecondary (primary secondary : String)
  deriving DecidableEq, Repr

inductive Importance where | minor | major
  deriving DecidableEq, Repr

structure TimeTick (F : Type) where
  x : F
  ts : Instant
  label : TickLabel
  importance : Importance

def monthAbbr : ℕ → String
  | 1 => "Jan"
  | 2 => "Feb"
  | 3 => "Mar"
  | 4 => "Apr"
  | 5 => "May"
  | 6 => "Jun"
  | 7 => "Jul"
  | 8 => "Aug"
  | 9 => "Sep"
  | 10 => "Oct"
  | 11 => "Nov"
  | 12 => "Dec"
  | _ => "???"

/-- `{:02}`. -/
def twoDigits (n : ℤ) : String := if n < 10 then "0" ++ toString n else toString n

def labelFor (ts : Instant) (step : NiceStep) : TickLabel :=
  let date := dateNaive ts
  let hour := timestamp ts / 3600 % 24
  let minute := timestamp ts / 60 % 60
  match step with
  | .year => .primary (toString (Civil.year date))
  | .quarter =>
    .withSecondary ("Q" ++ toString ((Civil.month date - 1) / 3 + 1)) (toString (Civil.year date))
  | .month => .withSecondary (monthAbbr (Civil.month date)) (toString (Civil.year date))
  | .week | .day =>
    .primary (toString (Civil.year date) ++ "-" ++ twoDigits (Civil.month date) ++ "-" ++
      twoDigits (Civil.day date))
  | .hours _ | .minutes _ => .primary (twoDigits hour ++ ":" ++ twoDigits minute)
  | .seconds _ =>
    .primary (twoDigits hour ++ ":" ++ twoDigits minute ++ ":" ++ twoDigits (timestamp ts % 60))

def importanceFor : NiceStep → Importance
  | .year | .quarter | .month | .week | .day | .hours 6 => .major
  | _ => .minor

section

variable {F : Type} (stop : Instant) (step : NiceStep) (project : Instant → Option F)

/-- The loop of `enumerate_ticks`, for so many turns at most. -/
def ticksFrom : ℕ → Instant → List (TimeTick F)
  | 0, _ => []
  | n + 1, cursor =>
    if cursor ≤ stop then
      let tick := (project cursor).map fun x => ⟨x, cursor, labelFor cursor step, importanceFor step⟩
      let next := advance cursor step
      tick.toList ++ if next ≤ cursor then [] else ticksFrom n next
    else []

end

def enumerateTicks {F : Type} (start stop : Instant) (step : NiceStep)
    (project : Instant → Option F) : Option (List (TimeTick F)) :=
  (alignUp start step).map (ticksFrom stop step project 10000)

/-! ### What the steps are for -/

/-- The instants that a step is for. -/
def Aligned : NiceStep → Instant → Prop
  | .year, t => ∃ y, t = ofDate (monthStart y 1)
  | .quarter, t => ∃ y, ∃ m ∈ [1, 4, 7, 10], t = ofDate (monthStart y m)
  | .month, t => ∃ y, ∃ m, 1 ≤ m ∧ m ≤ 12 ∧ t = ofDate (monthStart y m)
  | .week, t => ∃ d, weekday d = 0 ∧ t = ofDate d
  | .day, t => ∃ d, t = ofDate d
  | .hours h, t => ∃ n, t = ofTimestamp (n * (h * 3600))
  | .minutes m, t => ∃ n, t = ofTimestamp (n * (m * 60))
  | .seconds s, t => ∃ n, t = ofTimestamp (n * s)

/-- The months of all years in a row. -/
def monthAt (k : ℤ) : ℤ := monthStart (k / 12) ((k % 12).toNat + 1)

theorem monthAt_eq (k y : ℤ) (m : ℕ) (hm : 1 ≤ m) (hm' : m ≤ 13) (hk : k = 12 * y + m - 1) :
    monthAt k = monthStart y m := by
  unfold monthAt
  rcases Nat.lt_or_eq_of_le hm' with hlt | rfl
  · rw [show k / 12 = y by omega, show (k % 12).toNat + 1 = m by omega]
  · rw [show k / 12 = y + 1 by omega, show (k % 12).toNat + 1 = 1 by omega, monthStart_one,
      monthStart_thirteen]

/-- The number of the month of a day. -/
def monthIndex (d : ℤ) : ℤ := 12 * Civil.year d + Civil.month d - 1

theorem ladder_months : Ladder monthAt monthIndex := by
  refine ⟨?_, ?_, ?_⟩
  · intro k
    obtain ⟨m, hm⟩ : ∃ m, m = (k % 12).toNat + 1 := ⟨_, rfl⟩
    have hlength := monthLength_pos (k / 12) (m := m) (by omega) (by omega)
    have hnext : monthStart (k / 12) (m + 1) = monthStart (k / 12) m + monthLength (k / 12) m := by
      simp only [monthStart, daysBefore]
      omega
    rw [monthAt_eq k (k / 12) m (by omega) (by omega) (by omega),
      monthAt_eq (k + 1) (k / 12) (m + 1) (by omega) (by omega) (by omega), hnext]
    omega
  · intro d
    obtain ⟨hpos, hle, hstart, -⟩ := month_spec d
    rwa [monthAt_eq (monthIndex d) (Civil.year d) (Civil.month d) hpos (by omega) rfl]
  · intro d
    obtain ⟨hpos, hle, -, hend⟩ := month_spec d
    have hk : monthIndex d + 1 = 12 * Civil.year d + (Civil.month d + 1 : ℕ) - 1 := by
      unfold monthIndex
      omega
    rwa [monthAt_eq (monthIndex d + 1) (Civil.year d) (Civil.month d + 1) (by omega) (by omega) hk]

theorem ladder_days : Ladder ofDate dateNaive := ladder_multiples (by decide)

theorem ladder_seconds : Ladder ofTimestamp timestamp := ladder_multiples (by decide)

/-- The aligned instants of a step, numbered. -/
def NiceStep.rung : NiceStep → ℤ → Instant
  | .year, k => ofDate (monthAt (12 * k + 0))
  | .quarter, k => ofDate (monthAt (3 * k + 0))
  | .month, k => ofDate (monthAt k)
  | .week, k => ofDate (7 * k + -3)
  | .day, k => ofDate k
  | .hours h, k => ofTimestamp (k * (h * 3600))
  | .minutes m, k => ofTimestamp (k * (m * 60))
  | .seconds s, k => ofTimestamp (k * s)

/-- The number of the last aligned instant up to this one. -/
def NiceStep.index : NiceStep → Instant → ℤ
  | .year, t => (monthIndex (dateNaive t) - 0) / 12
  | .quarter, t => (monthIndex (dateNaive t) - 0) / 3
  | .month, t => monthIndex (dateNaive t)
  | .week, t => (dateNaive t - -3) / 7
  | .day, t => dateNaive t
  | .hours h, t => timestamp t / (h * 3600)
  | .minutes m, t => timestamp t / (m * 60)
  | .seconds s, t => timestamp t / s

/-- A step that goes on. -/
def NiceStep.Positive : NiceStep → Prop
  | .hours n | .minutes n | .seconds n => 0 < n
  | _ => True

theorem positive_of_mem_steps : ∀ step ∈ steps, step.Positive := by
  simp [steps, NiceStep.Positive]

theorem NiceStep.ladder {step : NiceStep} (h : step.Positive) : Ladder step.rung step.index := by
  cases step with
  | year => exact (ladder_days.comp ladder_months).every (by decide) 0
  | quarter => exact (ladder_days.comp ladder_months).every (by decide) 0
  | month => exact ladder_days.comp ladder_months
  | week => exact ladder_days.every (by decide) (-3)
  | day => exact ladder_days
  | hours n => exact ladder_seconds.comp (ladder_multiples (Int.mul_pos h (by decide)))
  | minutes n => exact ladder_seconds.comp (ladder_multiples (Int.mul_pos h (by decide)))
  | seconds n => exact ladder_seconds.comp (ladder_multiples h)

theorem aligned_iff (step : NiceStep) (t : Instant) : Aligned step t ↔ ∃ k, t = step.rung k := by
  cases step with
  | year =>
    refine exists_congr fun y => ?_
    rw [NiceStep.rung, monthAt_eq (12 * y + 0) y 1 (by omega) (by omega) (by omega)]
  | quarter =>
    constructor
    · rintro ⟨y, m, hm, rfl⟩
      refine ⟨4 * y + (m - 1) / 3, ?_⟩
      have hq : m = 1 ∨ m = 4 ∨ m = 7 ∨ m = 10 := by simpa using hm
      rw [NiceStep.rung, monthAt_eq _ y m (by omega) (by omega) (by omega)]
    · rintro ⟨k, rfl⟩
      refine ⟨k / 4, 3 * (k % 4).toNat + 1, ?_, ?_⟩
      · have : (k % 4).toNat = 0 ∨ (k % 4).toNat = 1 ∨ (k % 4).toNat = 2 ∨ (k % 4).toNat = 3 := by
          omega
        rcases this with h | h | h | h <;> simp [h]
      · rw [NiceStep.rung, monthAt_eq (3 * k + 0) (k / 4) (3 * (k % 4).toNat + 1) (by omega) (by omega)
          (by omega)]
  | month =>
    constructor
    · rintro ⟨y, m, hm, hm', rfl⟩
      exact ⟨12 * y + m - 1, by rw [NiceStep.rung, monthAt_eq _ y m hm (by omega) rfl]⟩
    · rintro ⟨k, rfl⟩
      exact ⟨k / 12, (k % 12).toNat + 1, by omega, by omega, rfl⟩
  | week =>
    constructor
    · rintro ⟨d, hd, rfl⟩
      refine ⟨(d + 3) / 7, congrArg ofDate ?_⟩
      unfold weekday at hd
      omega
    · rintro ⟨k, rfl⟩
      refine ⟨7 * k + -3, ?_, rfl⟩
      unfold weekday
      omega
  | day => exact Iff.rfl
  | hours n => exact Iff.rfl
  | minutes n => exact Iff.rfl
  | seconds n => exact Iff.rfl

/-! ### The rules climb the ladder -/

/-- The calendar of the source has the year of the instant and the next one. -/
def InCalendar (t : Instant) : Prop :=
  -262143 ≤ Civil.year (dateNaive t) ∧ Civil.year (dateNaive t) < 262142

/-- The first of a month, by the number of the month. -/
theorem firstOf_eq (k y : ℤ) (m : ℕ) (hy : -262143 ≤ y) (hy' : y ≤ 262142) (hm : 1 ≤ m)
    (hm' : m ≤ 12) (hk : k = 12 * y + m - 1) : firstOf y m = some (ofDate (monthAt k)) := by
  have hlength := monthLength_pos y hm hm'
  have hday : (1 : ℕ) ≤ monthLength y m := by omega
  rw [monthAt_eq k y m hm (by omega) hk, firstOf, fromYmdOpt,
    if_pos ⟨hy, hy', hm, hm', le_rfl, hday⟩]
  simp

theorem ofDate_add_days (d n : ℤ) : ofDate d + days n = ofDate (d + n) := by
  simp only [ofDate, days]
  ring

theorem ofTimestamp_mul_add (k m : ℤ) :
    ofTimestamp (k * m) + ofTimestamp m = ofTimestamp ((k + 1) * m) := by
  simp only [ofTimestamp]
  ring

theorem alignUpMod_eq (ts : ℤ) {m : ℤ} (hm : 0 < m) : alignUpMod ts m =
    ofTimestamp
      (Ladder.up (fun k => ofTimestamp (k * m)) (fun t => timestamp t / m) ts * m) := by
  obtain ⟨q, hq⟩ : ∃ q, q = timestamp ts / m := ⟨_, rfl⟩
  have hsplit : timestamp ts * second + ts % second = ts := Int.ediv_mul_add_emod ts second
  have hepoch : q * m + timestamp ts % m = timestamp ts := hq ▸ Int.ediv_mul_add_emod _ m
  have hrem := Int.emod_nonneg (timestamp ts) hm.ne'
  have hsub := Int.emod_nonneg ts (show second ≠ 0 by decide)
  by_cases hzero : timestamp ts % m = 0 ∧ ts % second = 0
  · have hon : ts = q * m * second := by
      simp only [second] at *
      omega
    have hup : Ladder.up (fun k => ofTimestamp (k * m)) (fun t => timestamp t / m) ts = q := by
      rw [hq] at hon ⊢
      exact if_pos hon.le
    rw [hup, alignUpMod, if_pos hzero]
    exact hon
  · have hbehind : ¬ts ≤ q * m * second := by
      simp only [second] at *
      omega
    have hup : Ladder.up (fun k => ofTimestamp (k * m)) (fun t => timestamp t / m) ts = q + 1 := by
      rw [hq] at hbehind ⊢
      exact if_neg hbehind
    have hnext : ts + (m - timestamp ts % m) * second - ts % second = (q * m + m) * second := by
      simp only [second] at *
      omega
    rw [hup, alignUpMod, if_neg hzero, add_mul, one_mul]
    exact hnext

/-- Rounding up is taking the mark before, or the one behind it. -/
theorem up_eq (rung index : ℤ → ℤ) (ts : ℤ) :
    (if ts ≤ rung (index ts) then some (rung (index ts)) else some (rung (index ts + 1))) =
      some (rung (Ladder.up rung index ts)) := by
  unfold Ladder.up
  split <;> rfl

theorem alignUp_eq {step : NiceStep} (hpos : step.Positive) {ts : Instant} (h : InCalendar ts) :
    alignUp ts step = some (step.rung (Ladder.up step.rung step.index ts)) := by
  obtain ⟨hy, hy'⟩ := h
  obtain ⟨hm, hm', -, -⟩ := month_spec (dateNaive ts)
  rw [← up_eq]
  cases step with
  | year =>
    have hindex : NiceStep.year.index ts = Civil.year (dateNaive ts) := by
      simp only [NiceStep.index, monthIndex]
      omega
    simp only [alignUp, NiceStep.rung, hindex]
    rw [firstOf_eq (12 * Civil.year (dateNaive ts) + 0) _ 1 hy (by omega) le_rfl (by decide) (by omega),
      firstOf_eq (12 * (Civil.year (dateNaive ts) + 1) + 0) _ 1 (by omega) (by omega) le_rfl (by decide)
        (by omega)]
    rfl
  | quarter =>
    have hindex : NiceStep.quarter.index ts =
        4 * Civil.year (dateNaive ts) + ((Civil.month (dateNaive ts) - 1) / 3 : ℕ) := by
      simp only [NiceStep.index, monthIndex]
      omega
    have hnext : (if 12 < (Civil.month (dateNaive ts) - 1) / 3 * 3 + 1 + 3 then
        firstOf (Civil.year (dateNaive ts) + 1) ((Civil.month (dateNaive ts) - 1) / 3 * 3 + 1 + 3 - 12)
        else firstOf (Civil.year (dateNaive ts)) ((Civil.month (dateNaive ts) - 1) / 3 * 3 + 1 + 3)) =
          some (ofDate (monthAt (3 * (NiceStep.quarter.index ts + 1) + 0))) := by
      split
      · exact firstOf_eq _ _ _ (by omega) (by omega) (by omega) (by omega) (by omega)
      · exact firstOf_eq _ _ _ hy (by omega) (by omega) (by omega) (by omega)
    simp only [alignUp, hnext]
    rw [firstOf_eq (3 * NiceStep.quarter.index ts + 0) _ _ hy (by omega) (by omega) (by omega) (by omega)]
    rfl
  | month =>
    have hindex : NiceStep.month.index ts =
        12 * Civil.year (dateNaive ts) + Civil.month (dateNaive ts) - 1 := rfl
    have hnext : (if Civil.month (dateNaive ts) = 12 then firstOf (Civil.year (dateNaive ts) + 1) 1
        else firstOf (Civil.year (dateNaive ts)) (Civil.month (dateNaive ts) + 1)) =
          some (ofDate (monthAt (NiceStep.month.index ts + 1))) := by
      split
      · exact firstOf_eq _ _ _ (by omega) (by omega) (by omega) (by omega) (by omega)
      · exact firstOf_eq _ _ _ hy (by omega) (by omega) (by omega) (by omega)
    simp only [alignUp, hnext]
    rw [firstOf_eq (NiceStep.month.index ts) _ _ hy (by omega) hm hm' hindex]
    rfl
  | week =>
    have hmonday : dateNaive ts - weekday (dateNaive ts) = 7 * NiceStep.week.index ts + -3 := by
      simp only [weekday, NiceStep.index]
      omega
    have hnext : 7 * NiceStep.week.index ts + -3 + 7 = 7 * (NiceStep.week.index ts + 1) + -3 := by
      ring
    simp only [alignUp, hmonday, ofDate_add_days, hnext]
    rfl
  | day =>
    simp only [alignUp, ofDate_add_days]
    rfl
  | hours n =>
    rw [up_eq]
    exact congrArg some (alignUpMod_eq ts (Int.mul_pos hpos (by decide)))
  | minutes n =>
    rw [up_eq]
    exact congrArg some (alignUpMod_eq ts (Int.mul_pos hpos (by decide)))
  | seconds n =>
    rw [up_eq]
    exact congrArg some (alignUpMod_eq ts hpos)

/-- From an aligned instant one step on is the next one. -/
theorem advance_rung (step : NiceStep) (k : ℤ) (h : InCalendar (step.rung k)) :
    advance (step.rung k) step = step.rung (k + 1) := by
  obtain ⟨hy, hy'⟩ := h
  obtain ⟨hm, hm', -, -⟩ := month_spec (dateNaive (step.rung k))
  have hmonth : ∀ j, step.rung k = ofDate (monthAt j) →
      12 * Civil.year (dateNaive (step.rung k)) + Civil.month (dateNaive (step.rung k)) - 1 = j := by
    intro j hj
    have := (ladder_days.comp ladder_months).index_rung j
    rwa [← hj] at this
  cases step with
  | year =>
    have hj := hmonth _ rfl
    simp only [advance]
    rw [firstOf_eq (12 * (k + 1) + 0) _ _ (by omega) (by omega) hm hm' (by omega)]
    rfl
  | quarter =>
    have hj := hmonth _ rfl
    have hnext : (if 12 < Civil.month (dateNaive (NiceStep.quarter.rung k)) + 3 then
        firstOf (Civil.year (dateNaive (NiceStep.quarter.rung k)) + 1)
          (Civil.month (dateNaive (NiceStep.quarter.rung k)) + 3 - 12)
        else firstOf (Civil.year (dateNaive (NiceStep.quarter.rung k)))
          (Civil.month (dateNaive (NiceStep.quarter.rung k)) + 3)) =
          some (NiceStep.quarter.rung (k + 1)) := by
      split
      · exact firstOf_eq _ _ _ (by omega) (by omega) (by omega) (by omega) (by omega)
      · exact firstOf_eq _ _ _ hy (by omega) (by omega) (by omega) (by omega)
    simp only [advance, hnext, Option.getD_some]
  | month =>
    have hj := hmonth _ rfl
    have hnext : (if Civil.month (dateNaive (NiceStep.month.rung k)) = 12 then
        firstOf (Civil.year (dateNaive (NiceStep.month.rung k)) + 1) 1
        else firstOf (Civil.year (dateNaive (NiceStep.month.rung k)))
          (Civil.month (dateNaive (NiceStep.month.rung k)) + 1)) =
          some (NiceStep.month.rung (k + 1)) := by
      split
      · exact firstOf_eq _ _ _ (by omega) (by omega) (by omega) (by omega) (by omega)
      · exact firstOf_eq _ _ _ hy (by omega) (by omega) (by omega) (by omega)
    simp only [advance, hnext, Option.getD_some]
  | week =>
    have hnext : 7 * k + -3 + 7 = 7 * (k + 1) + -3 := by ring
    simp only [advance, NiceStep.rung, ofDate_add_days, hnext]
  | day => simp only [advance, NiceStep.rung, ofDate_add_days]
  | hours n => exact ofTimestamp_mul_add k _
  | minutes n => exact ofTimestamp_mul_add k _
  | seconds n => exact ofTimestamp_mul_add k _

/-! ### The loop -/

section

variable {F : Type} {stop : Instant} {step : NiceStep} {project : Instant → Option F}

/-- From an aligned instant on the loop takes one after the other, while they last. -/
theorem ts_ticksFrom (hpos : step.Positive) (hproject : ∀ t, (project t).isSome) (n : ℕ) (k : ℤ)
    (hin : ∀ j, k ≤ j → step.rung j ≤ stop → InCalendar (step.rung j)) :
    (ticksFrom stop step project n (step.rung k)).map TimeTick.ts =
      (List.range (min n (step.index stop + 1 - k).toNat)).map fun i : ℕ => step.rung (k + i) := by
  induction n generalizing k with
  | zero => simp [ticksFrom]
  | succ n ih =>
    have hle : step.rung k ≤ stop ↔ k ≤ step.index stop := (step.ladder hpos).rung_le_iff
    rw [ticksFrom]
    split
    · rename_i hstop
      have hk := hle.mp hstop
      obtain ⟨x, hx⟩ := Option.isSome_iff_exists.mp (hproject (step.rung k))
      have hnext := advance_rung step k (hin k le_rfl hstop)
      have hlt := (step.ladder hpos).lt_succ k
      have hrest := ih (k + 1) fun j hj => hin j (by omega)
      have hcount : min (n + 1) (step.index stop + 1 - k).toNat =
          min n (step.index stop + 1 - (k + 1)).toNat + 1 := by omega
      rw [hcount, List.range_succ_eq_map]
      simp only [hx, hnext, if_neg (not_le.mpr hlt), Option.map_some, Option.toList_some,
        List.singleton_append, List.map_cons, hrest, List.map_map, Function.comp_def]
      refine List.cons_eq_cons.mpr ⟨by simp, List.map_congr_left fun i _ => ?_⟩
      rw [Nat.succ_eq_add_one, show k + 1 + (i : ℤ) = k + (i + 1 : ℕ) by push_cast; ring]
    · rename_i hstop
      have hk := mt hle.mpr hstop
      have hcount : (step.index stop + 1 - k).toNat = 0 := by omega
      simp [hcount]

end

/-- A year of four digits at most. -/
def FourDigits (t : Instant) : Prop :=
  0 ≤ Civil.year (dateNaive t) ∧ Civil.year (dateNaive t) ≤ 9999

theorem inCalendar_of_between {start stop t : Instant} (hstart : FourDigits start)
    (hstop : FourDigits stop) (hle : start ≤ t) (hle' : t ≤ stop) : InCalendar t := by
  have h1 := Civil.year_mono (dateNaive_mono hle)
  have h2 := Civil.year_mono (dateNaive_mono hle')
  obtain ⟨hlow, -⟩ := hstart
  obtain ⟨-, hhigh⟩ := hstop
  constructor <;> omega

theorem ncard_aligned {step : NiceStep} (hpos : step.Positive) (start stop : Instant) :
    {t | start ≤ t ∧ t ≤ stop ∧ Aligned step t}.ncard =
      (step.index stop + 1 - Ladder.up step.rung step.index start).toNat := by
  rw [← (step.ladder hpos).ncard_between]
  simp only [aligned_iff]

/-- The ticks are the aligned instants between the ends, in their order. -/
theorem ticks_are_aligned_instants {F : Type} {step : NiceStep} (hstep : step ∈ steps)
    {start stop : Instant} (hstart : FourDigits start) (hstop : FourDigits stop)
    {project : Instant → Option F} (hproject : ∀ t, (project t).isSome)
    (hfew : {t | start ≤ t ∧ t ≤ stop ∧ Aligned step t}.ncard < 10000) :
    ∃ ticks, enumerateTicks start stop step project = some ticks ∧
      (ticks.map TimeTick.ts).Pairwise (· < ·) ∧
      ∀ t, t ∈ ticks.map TimeTick.ts ↔ start ≤ t ∧ t ≤ stop ∧ Aligned step t := by
  have hpos := positive_of_mem_steps step hstep
  have hladder := step.ladder hpos
  obtain ⟨first, hf⟩ : ∃ first, first = Ladder.up step.rung step.index start := ⟨_, rfl⟩
  rw [ncard_aligned hpos, ← hf] at hfew
  have hup : ∀ k, first ≤ k ↔ start ≤ step.rung k := fun k => hf ▸ hladder.up_le_iff
  have halign : alignUp start step = some (step.rung first) :=
    hf ▸ alignUp_eq hpos (inCalendar_of_between hstart hstart le_rfl le_rfl)
  have hts := ts_ticksFrom hpos hproject 10000 first fun j hj hj' =>
    inCalendar_of_between hstart hstop ((hup j).mp hj) hj'
  rw [min_eq_right hfew.le] at hts
  refine ⟨_, congrArg (Option.map _) halign, ?_, ?_⟩
  · rw [hts, List.pairwise_map]
    refine List.pairwise_lt_range.imp fun hlt => hladder.strictMono ?_
    omega
  · intro t
    rw [hts, aligned_iff]
    simp only [List.mem_map, List.mem_range]
    constructor
    · rintro ⟨i, hi, rfl⟩
      exact ⟨(hup _).mp (by omega), hladder.rung_le_iff.mpr (by omega), _, rfl⟩
    · rintro ⟨hle, hle', k, rfl⟩
      have hk := (hup k).mpr hle
      have hk' := hladder.rung_le_iff.mp hle'
      exact ⟨(k - first).toNat, by omega, by rw [show first + ((k - first).toNat : ℤ) = k by omega]⟩

/-- Months, from a fraction of a second into 2024-01-15 to the first of April. -/
theorem ticks_are_aligned_instants_months :
    ∃ ticks, enumerateTicks (ofTimestamp 1705276800 + 5) (ofTimestamp 1711929600) .month
        (fun t => some t) = some ticks ∧
      (ticks.map TimeTick.ts).Pairwise (· < ·) ∧
      ∀ t, t ∈ ticks.map TimeTick.ts ↔ ofTimestamp 1705276800 + 5 ≤ t ∧ t ≤ ofTimestamp 1711929600 ∧
        Aligned .month t := by
  refine ticks_are_aligned_instants (by decide) ?_ ?_ (fun _ => rfl) ?_
  · exact ⟨by decide +kernel, by decide +kernel⟩
  · exact ⟨by decide +kernel, by decide +kernel⟩
  · have hpos : NiceStep.month.Positive := trivial
    rw [ncard_aligned hpos]
    decide +kernel

end Midas.Axis
