import HandOfMidas.Calendar.Types
import HandOfMidas.Lib.Windows

/-! Weeks, months, quarters and years tile the dates; the windows of clock periods tile time. -/

namespace Midas.Calendar

open Civil

theorem fromYmdOpt_first {y d : ℤ} {m : ℕ} (h : fromYmdOpt y m 1 = some d) :
    d = monthStart y m ∧ 1 ≤ m ∧ m ≤ 12 := by
  rw [fromYmdOpt] at h
  split at h
  · rename_i hvalid
    have := Option.some.inj h
    exact ⟨by omega, hvalid.2.2.1, hvalid.2.2.2.1⟩
  · cases h

/-- The first of a month is a day of it. -/
theorem year_month_of_first {y : ℤ} {m : ℕ} (hm : 1 ≤ m) (hm' : m ≤ 12) :
    year (monthStart y m) = y ∧ month (monthStart y m) = m := by
  have hlt : monthStart y m < monthStart y (m + 1) := by
    have := monthLength_pos y hm hm'
    simp only [monthStart, daysBefore]
    omega
  obtain ⟨hy, hle, hlt⟩ := year_month_of_mem hm (by omega) le_rfl hlt
  exact ⟨hy, by omega⟩

/-- Whatever lies in the week of the date has the same week. -/
theorem spanOf_week {date : ℤ} {w : ℤ × ℤ} (h : spanOf .week date = some w) :
    w = (monday date, monday date + 7) := by
  simp only [spanOf, Option.bind_eq_bind, Option.bind_eq_some_iff, Option.some.injEq] at h
  obtain ⟨first, hfirst, rfl⟩ := h
  simp only [fromIsoywdMonday] at hfirst
  split at hfirst
  · rw [← Option.some.inj hfirst, isoMonday_isoWeek]
  · cases hfirst

theorem spanOf_month {date : ℤ} {w : ℤ × ℤ} (h : spanOf .month date = some w) :
    w = (monthStart (year date) (month date), monthStart (year date) (month date + 1)) := by
  simp only [spanOf, Option.bind_eq_bind, Option.bind_eq_some_iff, Option.some.injEq] at h
  obtain ⟨first, hfirst, next, hnext, rfl⟩ := h
  obtain ⟨rfl, hm, hm'⟩ := fromYmdOpt_first hfirst
  obtain ⟨hyear, hmonth⟩ := year_month_of_first (y := year date) hm hm'
  rw [hyear, hmonth] at hnext
  split at hnext
  · rename_i h12
    rw [(fromYmdOpt_first hnext).1, h12, monthStart_one, ← monthStart_thirteen]
  · rw [(fromYmdOpt_first hnext).1]

/-- The first month of the quarter of the date. -/
def quarterMonth (date : ℤ) : ℕ := (month date - 1) / 3 * 3 + 1

theorem spanOf_quarter {date : ℤ} {w : ℤ × ℤ} (h : spanOf .quarter date = some w) :
    w = (monthStart (year date) (quarterMonth date), monthStart (year date) (quarterMonth date + 3)) ∧
      quarterMonth date ≤ 10 := by
  have hq : quarterMonth date ≤ 10 := by
    have := (month_spec date).2.1
    simp only [quarterMonth]
    omega
  simp only [spanOf, Option.bind_eq_bind, Option.bind_eq_some_iff, Option.some.injEq] at h
  obtain ⟨first, hfirst, next, hnext, rfl⟩ := h
  obtain ⟨rfl, hm, hm'⟩ := fromYmdOpt_first hfirst
  rw [(year_month_of_first hm hm').1] at hnext
  have hquarter : (month date - 1) / 3 * 3 + 1 = quarterMonth date := rfl
  rw [hquarter] at hnext ⊢
  refine ⟨?_, hq⟩
  split at hnext
  · rename_i h12
    have h13 : quarterMonth date + 3 = 13 := by
      have : quarterMonth date % 3 = 1 := by simp [quarterMonth]
      omega
    rw [h13] at hnext
    rw [(fromYmdOpt_first hnext).1, h13, monthStart_one, ← monthStart_thirteen]
  · rw [(fromYmdOpt_first hnext).1]

theorem spanOf_year {date : ℤ} {w : ℤ × ℤ} (h : spanOf .year date = some w) :
    w = (yearStart (year date), yearStart (year date + 1)) := by
  simp only [spanOf, Option.bind_eq_bind, Option.bind_eq_some_iff, Option.some.injEq] at h
  obtain ⟨first, hfirst, next, hnext, rfl⟩ := h
  rw [(fromYmdOpt_first hfirst).1, (fromYmdOpt_first hnext).1, monthStart_one, monthStart_one]

/-- Every date lies in its span. -/
theorem mem_spanOf {span : CalendarSpan} {date : ℤ} {w : ℤ × ℤ} (h : spanOf span date = some w) :
    w.1 ≤ date ∧ date < w.2 := by
  obtain ⟨hm, hm', hle, hlt⟩ := month_spec date
  cases span with
  | week =>
    rw [spanOf_week h]
    exact monday_spec date
  | month =>
    rw [spanOf_month h]
    exact ⟨hle, hlt⟩
  | quarter =>
    obtain ⟨rfl, -⟩ := spanOf_quarter h
    have h1 : quarterMonth date ≤ month date ∧ month date + 1 ≤ quarterMonth date + 3 := by
      simp only [quarterMonth]
      omega
    exact ⟨(monthStart_mono _ h1.1).trans hle, hlt.trans_le (monthStart_mono _ h1.2)⟩
  | year =>
    rw [spanOf_year h]
    exact year_spec date

/-- The dates of a span have that span. -/
theorem spanOf_inside {span : CalendarSpan} {date date' : ℤ} {w : ℤ × ℤ} (h : spanOf span date = some w)
    (hle : w.1 ≤ date') (hlt : date' < w.2) : spanOf span date' = some w := by
  rw [← h]
  cases span with
  | week =>
    rw [spanOf_week h] at hle hlt
    have hmonday := monday_eq_of_mem hle hlt
    simp only [spanOf, isoYear, isoWeek, hmonday]
  | month =>
    rw [spanOf_month h] at hle hlt
    obtain ⟨hm, hm', -⟩ := month_spec date
    obtain ⟨hyear, h1, h2⟩ := year_month_of_mem hm (by omega) hle hlt
    have hmonth : month date' = month date := by omega
    simp only [spanOf, hyear, hmonth]
  | quarter =>
    obtain ⟨rfl, hq⟩ := spanOf_quarter h
    obtain ⟨hyear, h1, h2⟩ := year_month_of_mem (by simp [quarterMonth]) (by omega) hle hlt
    have hquarter : (month date' - 1) / 3 = (month date - 1) / 3 := by
      simp only [quarterMonth] at h1 h2
      omega
    simp only [spanOf, hyear, hquarter]
  | year =>
    rw [spanOf_year h] at hle hlt
    have hyear := year_eq_iff.mpr ⟨hle, hlt⟩
    simp only [spanOf, hyear]

theorem tiling_spanOf (span : CalendarSpan) : Tiling (spanOf span) :=
  Tiling.of_contains mem_spanOf spanOf_inside

/-- The bounds of a window. -/
def boundsOf (w : Except CalendarError BarWindow) : Option (Instant × Instant) :=
  w.toOption.map fun w => (w.opens, w.closes)

theorem boundsOf_eq_some {w : Except CalendarError BarWindow} {b : Instant × Instant} :
    boundsOf w = some b ↔ ∃ win, w = .ok win ∧ (win.opens, win.closes) = b := by
  cases w with
  | error e => simp [boundsOf, Except.toOption]
  | ok win => simp [boundsOf, Except.toOption]

/-- Whole windows that are not empty, agree at all their instants and go on with time have bounds that
    do. -/
theorem tiling_boundsOf {window : Instant → Except CalendarError BarWindow}
    (hlt : ∀ {t w}, window t = .ok w → w.opens < w.closes)
    (hinside : ∀ {t t' w}, window t = .ok w → w.opens ≤ t' → t' < w.closes → window t' = .ok w)
    (hmono : ∀ {t t' w w'}, t ≤ t' → window t = .ok w → window t' = .ok w' → w.opens ≤ w'.opens) :
    Tiling fun t => boundsOf (window t) := by
  constructor
  · intro t b h
    obtain ⟨w, hw, rfl⟩ := boundsOf_eq_some.mp h
    exact hlt hw
  · intro t b t' h h1 h2
    obtain ⟨w, hw, rfl⟩ := boundsOf_eq_some.mp h
    exact boundsOf_eq_some.mpr ⟨w, hinside hw h1 h2, rfl⟩
  · intro t t' b b' hle h h'
    obtain ⟨w, hw, rfl⟩ := boundsOf_eq_some.mp h
    obtain ⟨w', hw', rfl⟩ := boundsOf_eq_some.mp h'
    exact hmono hle hw hw'

/-- A clock window that succeeds is the stretch of the instant. -/
theorem clockBarWindow_ok {id : CalendarId} {dateOf : Instant → ℤ} {classify : Instant → Session}
    {t : Instant} {ci : ClockInterval} {w : BarWindow}
    (h : clockBarWindow id dateOf classify t ci = .ok w) : 0 < ci.secsPerBar ∧
      w = ⟨alignDown ci.secsPerBar t, alignDown ci.secsPerBar t + Instant.ofTimestamp ci.secsPerBar,
        classify t⟩ := by
  simp only [clockBarWindow] at h
  split at h
  · cases h
  · rename_i hpos
    split at h
    · cases h
    · rename_i opens hopens
      split at h
      · cases h
      · rename_i closes hcloses
        refine ⟨not_le.mp hpos, ?_⟩
        rw [← Except.ok.inj h, Instant.fromTimestamp_eq_some hopens,
          Instant.fromTimestamp_eq_some hcloses,
          alignDown]
        simp only [BarWindow.mk.injEq, and_true, true_and, Instant.ofTimestamp]
        ring

/-- The instants of a clock window have its bounds, each with its own session. -/
theorem clockBarWindow_inside {id : CalendarId} {dateOf : Instant → ℤ} {classify : Instant → Session}
    {t t' : Instant} {ci : ClockInterval} {w : BarWindow}
    (h : clockBarWindow id dateOf classify t ci = .ok w) (hle : w.opens ≤ t') (hlt : t' < w.closes) :
    clockBarWindow id dateOf classify t' ci = .ok { w with session := classify t' } := by
  obtain ⟨hpos, hw⟩ := clockBarWindow_ok h
  rw [hw] at hle hlt
  have hstart : t'.timestamp - t'.timestamp % ci.secsPerBar =
      t.timestamp - t.timestamp % ci.secsPerBar := by
    have := alignDown_eq_of_mem hpos hle hlt
    simpa [alignDown, Instant.ofTimestamp, Instant.second] using this
  simp only [clockBarWindow, hstart] at h ⊢
  split at h
  · cases h
  · split at h
    · cases h
    · split at h
      · cases h
      · rw [if_neg (not_le.mpr hpos), ← Except.ok.inj h]

theorem tiling_clockBarWindow (id : CalendarId) (dateOf : Instant → ℤ) (classify : Instant → Session)
    (ci : ClockInterval) : Tiling fun t => boundsOf (clockBarWindow id dateOf classify t ci) := by
  refine Tiling.of_contains ?_ ?_
  · intro t b h
    obtain ⟨w, hw, rfl⟩ := boundsOf_eq_some.mp h
    obtain ⟨hpos, rfl⟩ := clockBarWindow_ok hw
    exact ⟨alignDown_le hpos, lt_alignDown_add hpos⟩
  · intro t b t' h hle hlt
    obtain ⟨w, hw, rfl⟩ := boundsOf_eq_some.mp h
    exact boundsOf_eq_some.mpr ⟨_, clockBarWindow_inside hw hle hlt, rfl⟩

end Midas.Calendar
