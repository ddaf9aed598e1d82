import Mathlib.Algebra.Order.Group.Int
import Mathlib.Data.Int.Order.Basic
import Mathlib.Tactic.IntervalCases
import Mathlib.Data.Int.ConditionallyCompleteOrder

/-! The proleptic Gregorian calendar. A day is an integer, counted from 1970-01-01; years and months
    begin on the days given by `yearStart` and `monthStart`. -/

namespace Midas.Civil

/-- Leap years up to the end of year `y`, counted from year 0. -/
def leapYears (y : ℤ) : ℤ := y / 4 - y / 100 + y / 400

def isLeap (y : ℤ) : Bool := y % 4 = 0 && (y % 100 ≠ 0 || y % 400 = 0)

/-- The first of January. -/
def yearStart (y : ℤ) : ℤ := 365 * (y - 1970) + leapYears (y - 1) - 477

/-- The year of a day: the average length of a year gives it up to one. -/
def year (d : ℤ) : ℤ :=
  let y := 1970 + 400 * d / 146097
  if d < yearStart y then y - 1 else if yearStart (y + 1) ≤ d then y + 1 else y

def monthLength (y : ℤ) : ℕ → ℤ
  | 1 => 31
  | 2 => if isLeap y then 29 else 28
  | 3 => 31
  | 4 => 30
  | 5 => 31
  | 6 => 30
  | 7 => 31
  | 8 => 31
  | 9 => 30
  | 10 => 31
  | 11 => 30
  | 12 => 31
  | _ => 0

/-- Days of the year before its month `m` begins. -/
def daysBefore (y : ℤ) : ℕ → ℤ
  | 0 => 0
  | m + 1 => daysBefore y m + monthLength y m

/-- The first of month `m`, which is the first of January of the next year for `m = 13`. -/
def monthStart (y : ℤ) (m : ℕ) : ℤ := yearStart y + daysBefore y m

/-- The last month, of `m` and those before it, that has begun by the day. -/
def monthUpTo (d : ℤ) : ℕ → ℕ
  | 0 => 0
  | m + 1 => if monthStart (year d) (m + 1) ≤ d then m + 1 else monthUpTo d m

def month (d : ℤ) : ℕ := monthUpTo d 12

/-- The day of the month, from 1. -/
def day (d : ℤ) : ℤ := d - monthStart (year d) (month d) + 1

/-- Days since the last Monday: 1970-01-01 is a Thursday. -/
def weekday (d : ℤ) : ℤ := (d + 3) % 7

/-- The Monday of the week of the day. -/
def monday (d : ℤ) : ℤ := d - weekday d

/-- The ISO year: that of the week's Thursday. -/
def isoYear (d : ℤ) : ℤ := year (monday d + 3)

/-- The ISO week, from 1. -/
def isoWeek (d : ℤ) : ℤ := (monday d + 3 - yearStart (isoYear d)) / 7 + 1

/-- The Monday of week `w` of the ISO year `y`: the first week has the fourth of January. -/
def isoMonday (y w : ℤ) : ℤ := monday (yearStart y + 3) + 7 * (w - 1)

theorem yearStart_succ (y : ℤ) : yearStart (y + 1) = yearStart y + if isLeap y then 366 else 365 := by
  simp only [yearStart, leapYears, isLeap, Bool.and_eq_true, Bool.or_eq_true, decide_eq_true_eq]
  split <;> omega

theorem yearStart_strictMono : StrictMono yearStart := by
  intro y y' h
  simp only [yearStart, leapYears]
  omega

/-- Years begin close to where their average length puts them. -/
theorem yearStart_bounds (y : ℤ) : 146097 * (y - 1970) - 506 ≤ 400 * yearStart y ∧
    400 * yearStart y ≤ 146097 * (y - 1970) + 589 := by
  simp only [yearStart, leapYears]
  omega

/-- Every day is in its year. -/
theorem year_spec (d : ℤ) : yearStart (year d) ≤ d ∧ d < yearStart (year d + 1) := by
  have hprev := (yearStart_bounds (1970 + 400 * d / 146097 - 1)).2
  have hnext := (yearStart_bounds (1970 + 400 * d / 146097 + 1 + 1)).1
  simp only [year]
  split
  · rename_i hlow
    rw [sub_add_cancel]
    exact ⟨by omega, hlow⟩
  · split
    · rename_i _ hhigh
      exact ⟨hhigh, by omega⟩
    · rename_i hlow hhigh
      exact ⟨by omega, by omega⟩

theorem year_eq_iff {d y : ℤ} : year d = y ↔ yearStart y ≤ d ∧ d < yearStart (y + 1) := by
  constructor
  · rintro rfl
    exact year_spec d
  · rintro ⟨hle, hlt⟩
    obtain ⟨hle', hlt'⟩ := year_spec d
    have h1 := yearStart_strictMono.lt_iff_lt.mp (hle'.trans_lt hlt)
    have h2 := yearStart_strictMono.lt_iff_lt.mp (hle.trans_lt hlt')
    omega

theorem year_mono {d d' : ℤ} (h : d ≤ d') : year d ≤ year d' := by
  have := yearStart_strictMono.lt_iff_lt.mp (((year_spec d).1.trans h).trans_lt (year_spec d').2)
  omega

theorem monthLength_nonneg (y : ℤ) (m : ℕ) : 0 ≤ monthLength y m := by
  unfold monthLength
  split
  case h_2 => split <;> decide
  all_goals decide

theorem monthLength_pos (y : ℤ) {m : ℕ} (hm : 1 ≤ m) (hm' : m ≤ 12) : 0 < monthLength y m := by
  interval_cases m
  case «2» =>
    simp only [monthLength]
    split <;> omega
  all_goals exact Int.natCast_pos.mpr (by decide)

theorem monthStart_mono (y : ℤ) : Monotone (monthStart y) := by
  refine monotone_nat_of_le_succ fun m => ?_
  have := monthLength_nonneg y m
  simp only [monthStart, daysBefore]
  omega

@[simp] theorem monthStart_one (y : ℤ) : monthStart y 1 = yearStart y := by
  simp [monthStart, daysBefore, monthLength]

/-- The twelve months are the year. -/
theorem monthStart_thirteen (y : ℤ) : monthStart y 13 = yearStart (y + 1) := by
  rw [yearStart_succ]
  simp only [monthStart, daysBefore, monthLength]
  split <;> omega

theorem monthUpTo_spec (d : ℤ) : ∀ {n : ℕ}, 1 ≤ n → 1 ≤ monthUpTo d n ∧ monthUpTo d n ≤ n ∧
    monthStart (year d) (monthUpTo d n) ≤ d ∧
      (d < monthStart (year d) (n + 1) → d < monthStart (year d) (monthUpTo d n + 1))
  | 1, _ => by
    have hle : monthStart (year d) 1 ≤ d := by
      rw [monthStart_one]
      exact (year_spec d).1
    rw [monthUpTo, if_pos hle]
    exact ⟨le_rfl, le_rfl, hle, id⟩
  | n + 2, _ => by
    rw [monthUpTo]
    split
    · rename_i hle
      exact ⟨by omega, le_rfl, hle, id⟩
    · rename_i hlt
      obtain ⟨hpos, hle, hstart, hnext⟩ := monthUpTo_spec d (n := n + 1) (by omega)
      exact ⟨hpos, by omega, hstart, fun _ => hnext (not_le.mp hlt)⟩

/-- Every day is in its month. -/
theorem month_spec (d : ℤ) : 1 ≤ month d ∧ month d ≤ 12 ∧ monthStart (year d) (month d) ≤ d ∧
    d < monthStart (year d) (month d + 1) := by
  obtain ⟨hpos, hle, hstart, hnext⟩ := monthUpTo_spec d (n := 12) (by omega)
  refine ⟨hpos, hle, hstart, hnext ?_⟩
  rw [monthStart_thirteen]
  exact (year_spec d).2

/-- A day between the beginnings of two months of a year is in that year, in one of the months
    between. -/
theorem year_month_of_mem {y d : ℤ} {m m' : ℕ} (hm : 1 ≤ m) (hm' : m' ≤ 13)
    (hle : monthStart y m ≤ d) (hlt : d < monthStart y m') :
    year d = y ∧ m ≤ month d ∧ month d < m' := by
  have hyear : year d = y := by
    rw [year_eq_iff, ← monthStart_thirteen, ← monthStart_one]
    exact ⟨(monthStart_mono y hm).trans hle, hlt.trans_le (monthStart_mono y hm')⟩
  obtain ⟨_, _, hstart, hnext⟩ := month_spec d
  rw [hyear] at hstart hnext
  have h1 := (monthStart_mono y).reflect_lt (hle.trans_lt hnext)
  have h2 := (monthStart_mono y).reflect_lt (hstart.trans_lt hlt)
  exact ⟨hyear, by omega, h2⟩

theorem weekday_spec (d : ℤ) : 0 ≤ weekday d ∧ weekday d < 7 :=
  ⟨Int.emod_nonneg _ (by decide), Int.emod_lt_of_pos _ (by decide)⟩

/-- Every day is in its week. -/
theorem monday_spec (d : ℤ) : monday d ≤ d ∧ d < monday d + 7 := by
  have := weekday_spec d
  simp only [monday]
  omega

theorem monday_eq_of_mem {d d' : ℤ} (hle : monday d ≤ d') (hlt : d' < monday d + 7) :
    monday d' = monday d := by
  simp only [monday, weekday] at *
  omega

/-- The ISO year and week of a day name its week. -/
theorem isoMonday_isoWeek (d : ℤ) : isoMonday (isoYear d) (isoWeek d) = monday d := by
  have hthursday : (monday d + 3 + 3) % 7 = 3 := by
    simp only [monday, weekday]
    omega
  have hle := (year_spec (monday d + 3)).1
  have hfirst := monday_spec (yearStart (isoYear d) + 3)
  have hmonday : (monday (yearStart (isoYear d) + 3) + 3) % 7 = 0 := by
    simp only [monday, weekday]
    omega
  simp only [isoMonday, isoWeek, isoYear] at *
  omega

end Midas.Civil
