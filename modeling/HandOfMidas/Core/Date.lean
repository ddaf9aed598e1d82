import HandOfMidas.Core.Bar
import HandOfMidas.Lib.Civil

/-! Dates and time zones, as the source has them from `chrono`. A date is the number of its day,
    counted from 1970-01-01. -/

namespace Midas

open Civil

/-- `NaiveDate::MIN`. -/
def minDate : ℤ := yearStart (-262143)

/-- `NaiveDate::MAX`. -/
def maxDate : ℤ := yearStart 262143 - 1

/-- `NaiveDate::from_ymd_opt`. -/
def fromYmdOpt (y : ℤ) (m d : ℕ) : Option ℤ :=
  if -262143 ≤ y ∧ y ≤ 262142 ∧ 1 ≤ m ∧ m ≤ 12 ∧ 1 ≤ d ∧ d ≤ monthLength y m then
    some (monthStart y m + d - 1)
  else none

/-- `NaiveDate::from_isoywd_opt(year, week, Weekday::Mon)`. -/
def fromIsoywdMonday (y w : ℤ) : Option ℤ :=
  let date := isoMonday y w
  if 1 ≤ w ∧ isoYear date = y ∧ minDate ≤ date ∧ date ≤ maxDate then some date else none

/-- `weekday()` is Saturday or Sunday. -/
def isWeekend (date : ℤ) : Bool := 5 ≤ weekday date

namespace Instant

def day : ℤ := 86400 * second

/-- `date_naive()` of an instant of UTC. -/
def dateNaive (t : Instant) : ℤ := t / day

/-- The instant a date begins, in UTC. -/
def ofDate (date : ℤ) : Instant := date * day

/-- `DateTime::from_timestamp(secs, 0)`. -/
def fromTimestamp (secs : ℤ) : Option Instant :=
  if minDate ≤ secs / 86400 ∧ secs / 86400 ≤ maxDate then some (ofTimestamp secs) else none

/-- `timestamp_nanos_opt()`: there are 64 bits for it. -/
def timestampNanosOpt (t : Instant) : Option ℤ := if -(2 ^ 63) ≤ t ∧ t < 2 ^ 63 then some t else none

theorem ofDate_le {date : ℤ} {t : Instant} : ofDate date ≤ t ↔ date ≤ dateNaive t :=
  (Int.le_ediv_iff_mul_le (by decide)).symm

theorem lt_ofDate {date : ℤ} {t : Instant} : t < ofDate date ↔ dateNaive t < date :=
  (Int.ediv_lt_iff_lt_mul (by decide)).symm

theorem dateNaive_mono : Monotone dateNaive := fun _ _ h => Int.ediv_le_ediv (by decide) h

theorem ofDate_succ (date : ℤ) : ofDate (date + 1) = ofDate date + day := by
  simp only [ofDate]
  ring

theorem fromTimestamp_eq_some {secs : ℤ} {t : Instant} (h : fromTimestamp secs = some t) :
    t = ofTimestamp secs := by
  simp only [fromTimestamp] at h
  split at h
  · exact (Option.some.inj h).symm
  · cases h

end Instant

/-- `LocalResult`: the instants a local time may be. -/
inductive LocalResult where
  | single (t : Instant)
  | ambiguous (earlier later : Instant)
  | none
  deriving DecidableEq

/-- `LocalResult::single()`. -/
def LocalResult.single? : LocalResult → Option Instant
  | .single t => some t
  | _ => .none

/-- A time zone of the database (`chrono_tz::Tz`). A local time is an integer like an instant of UTC.
    An hour after a local time that the zone skips there is one that it has once. -/
structure Tz where
  /-- `with_timezone(&tz).date_naive()`. -/
  dateNaive : Instant → ℤ
  fromLocalDatetime : ℤ → LocalResult
  gap : ∀ naive, fromLocalDatetime naive = .none →
    (fromLocalDatetime (naive + Instant.ofTimestamp 3600)).single?.isSome

/-- The local time of a date. -/
def andTime (date : ℤ) (hm : ℕ × ℕ) : ℤ :=
  Instant.ofDate date + Instant.ofTimestamp (hm.1 * 3600 + hm.2 * 60)

end Midas
