import HandOfMidas.Calendar.Types
import Mathlib.Data.Rat.Floor
import Mathlib.Tactic.Linarith
import Mathlib.Tactic.Ring

/-! Panning and zooming the time window of a chart (`interaction.rs`). A window is its start and its
    end; fractions are exact, and `none` is a number that is not finite. Where the source panics, the
    result is `none`. -/

namespace Midas.Scene

open Calendar

/-- The instants a chart shows, from the first to the second. -/
abbrev TimeWindow := ℤ × ℤ

def i64Min : ℤ := -2 ^ 63

def i64Max : ℤ := 2 ^ 63 - 1

/-- A sum of two `i64`, which overflows off their range. -/
def checked (n : ℤ) : Option ℤ := if i64Min ≤ n ∧ n ≤ i64Max then some n else none

/-- `as i64`: the fraction is dropped, and what is off the range becomes its end. -/
def asI64 (q : ℚ) : ℤ := max i64Min (min (if 0 ≤ q then ⌊q⌋ else ⌈q⌉) i64Max)

/-- `Ord::clamp`, which panics when its bounds are the wrong way round. -/
def clamp? (n lo hi : ℤ) : Option ℤ := if lo ≤ hi then some (max lo (min n hi)) else none

/-- `checked_add_signed`: the calendar ends. -/
def checkedAddSigned (t : Instant) (d : ℤ) : Option Instant :=
  if minDate ≤ Instant.dateNaive (t + d) ∧ Instant.dateNaive (t + d) ≤ maxDate then some (t + d)
  else none

/-- `(end - start).num_nanoseconds().unwrap_or(0)`. -/
def spanNs (window : TimeWindow) : ℤ := (checked (window.2 - window.1)).getD 0

def minVisibleCandles : ℤ := 10

def maxZoomOutYears : ℤ := 10

def panTimeWindow (window : TimeWindow) (dxPx axisWidthPx : Option ℚ) : TimeWindow :=
  match dxPx, axisWidthPx with
  | some dxPx, some axisWidthPx =>
    if axisWidthPx ≤ 0 then window
    else if spanNs window ≤ 0 then window
    else
      let frac := dxPx / axisWidthPx
      let shiftNs := asI64 (frac * spanNs window)
      ((checkedAddSigned window.1 shiftNs).getD window.1,
        (checkedAddSigned window.2 shiftNs).getD window.2)
  | _, _ => window

/-- Where on the axis a pixel is, from 0 to 1. -/
def anchorFrac (anchorXPx axisWidthPx : ℚ) : ℚ := max 0 (min (anchorXPx / axisWidthPx) 1)

/-- The minimum span; the product saturates. -/
def minSpan (candleWidthNs : ℤ) : ℤ := min (minVisibleCandles * max candleWidthNs 1) i64Max

def maxSpan : ℤ := (checked (365 * maxZoomOutYears * Instant.day)).getD i64Max

/-- The rest of `zoom_time_window_at`, for a valid input. -/
def zoomAt (window : TimeWindow) (frac factor : ℚ) (candleWidthNs : ℤ) : Option TimeWindow := do
  let anchorNs ← checked ((Instant.timestampNanosOpt window.1).getD 0 + asI64 (frac * spanNs window))
  let newSpanNs ← clamp? (asI64 (spanNs window * factor)) (minSpan candleWidthNs) maxSpan
  let newStartNs ← checked (anchorNs - asI64 (frac * newSpanNs))
  let newEndNs ← checked (newStartNs + newSpanNs)
  return (newStartNs, newEndNs)

def zoomTimeWindowAt (window : TimeWindow) (anchorXPx axisWidthPx factor : Option ℚ)
    (candleWidthNs : ℤ) : Option TimeWindow :=
  match factor, axisWidthPx, anchorXPx with
  | some factor, some axisWidthPx, some anchorXPx =>
    if factor ≤ 0 then some window
    else if axisWidthPx ≤ 0 then some window
    else if spanNs window ≤ 0 then some window
    else zoomAt window (anchorFrac anchorXPx axisWidthPx) factor candleWidthNs
  | _, _, _ => some window

/-- `bar_period_ns` of the chart's widget: a period it has no case for counts as a minute. -/
def barPeriodNs : BarPeriod → ℤ
  | .clock (.minutes 1) => 60 * Instant.second
  | .clock (.minutes 5) => 300 * Instant.second
  | .session .regular => Instant.day
  | .calendar .week => 7 * Instant.day
  | _ => 60 * Instant.second

/-! ### What a window is kept to -/

/-- The time a window has under a place on its axis. -/
def timeUnder (window : TimeWindow) (frac : ℚ) : ℚ := window.1 + frac * (window.2 - window.1 : ℤ)

def tenCandles (candleWidthNs : ℤ) : ℤ := 10 * max candleWidthNs 1

def tenYears : ℤ := 3650 * Instant.day

/-- The old span times a factor, kept between ten candles and ten years. -/
def zoomedSpan (window : TimeWindow) (factor : ℚ) (candleWidthNs : ℤ) : ℤ :=
  max (tenCandles candleWidthNs) (min ⌊(window.2 - window.1 : ℤ) * factor⌋ tenYears)

/-- The place of the anchor and the factor of a valid input: its numbers are finite, the width and
    the factor are positive, and 64 bits measure the span. -/
def zoomOf (window : TimeWindow) (anchorXPx axisWidthPx factor : Option ℚ) : Option (ℚ × ℚ) :=
  match anchorXPx, axisWidthPx, factor with
  | some anchorXPx, some axisWidthPx, some factor =>
    if 0 < axisWidthPx ∧ 0 < factor ∧ window.2 - window.1 ≤ i64Max then
      some (anchorFrac anchorXPx axisWidthPx, factor)
    else none
  | _, _, _ => none

/-- A window zoomed as asked: it has the span, and under the anchor the time it had there. -/
structure Zoomed (window : TimeWindow) (frac : ℚ) (span : ℤ) (zoomed : TimeWindow) : Prop where
  span_eq : zoomed.2 - zoomed.1 = span
  held : |timeUnder zoomed frac - timeUnder window frac| ≤ 2

/-- Both moves leave a window: a pan has its span, and a zoom is the window itself for an invalid
    input and else zoomed as asked. -/
structure KeepsWindow (window : TimeWindow) (dxPx anchorXPx axisWidthPx factor : Option ℚ)
    (candleWidthNs : ℤ) : Prop where
  pan : (panTimeWindow window dxPx axisWidthPx).1 < (panTimeWindow window dxPx axisWidthPx).2
  pan_span : (panTimeWindow window dxPx axisWidthPx).2 - (panTimeWindow window dxPx axisWidthPx).1 =
    window.2 - window.1
  zoom : ∃ zoomed, zoomTimeWindowAt window anchorXPx axisWidthPx factor candleWidthNs = some zoomed ∧
    zoomed.1 < zoomed.2 ∧
    match zoomOf window anchorXPx axisWidthPx factor with
    | none => zoomed = window
    | some (frac, factor) => Zoomed window frac (zoomedSpan window factor candleWidthNs) zoomed

/-- There is room in the 64 bits for a span about the time under a place: for the share of it before
    that time, and for the share after. -/
structure Room (window : TimeWindow) (frac : ℚ) (span : ℤ) : Prop where
  before : frac * span < (⌊timeUnder window frac⌋ - i64Min : ℤ) + 1
  after : (1 - frac) * span ≤ (i64Max - ⌊timeUnder window frac⌋ : ℤ)

/-- A valid input is one of a period with ten candles in ten years, and there is room for the span
    it asks for. -/
def Fits (window : TimeWindow) (anchorXPx axisWidthPx factor : Option ℚ) (candleWidthNs : ℤ) : Prop :=
  ∀ frac factor', zoomOf window anchorXPx axisWidthPx factor = some (frac, factor') →
    tenCandles candleWidthNs ≤ tenYears ∧
    Room window frac (zoomedSpan window factor' candleWidthNs)

/-! ### The arithmetic of the moves -/

theorem i64_bounds : i64Min = -(i64Max + 1) ∧ 0 < i64Max := by decide

theorem tenYears_bounds : 10 < tenYears ∧ tenYears < i64Max := by decide

theorem maxSpan_eq : maxSpan = tenYears := by decide

theorem checked_eq_some_iff {n m : ℤ} :
    checked n = some m ↔ (i64Min ≤ n ∧ n ≤ i64Max) ∧ m = n := by
  unfold checked
  split_ifs with h <;> simp [h, eq_comm]

/-- No move of a timestamp of 64 bits leaves the calendar. -/
theorem checkedAddSigned_eq {t d : ℤ} (ht : i64Min ≤ t ∧ t ≤ i64Max)
    (hd : i64Min ≤ d ∧ d ≤ i64Max) : checkedAddSigned t d = some (t + d) := by
  have hlo : Instant.ofDate minDate ≤ i64Min + i64Min := by decide +kernel
  have hhi : i64Max + i64Max < Instant.ofDate (maxDate + 1) := by decide +kernel
  have hmin : minDate ≤ Instant.dateNaive (t + d) :=
    Instant.ofDate_le.mp (hlo.trans (add_le_add ht.1 hd.1))
  have hmax : Instant.dateNaive (t + d) < maxDate + 1 :=
    Instant.lt_ofDate.mp ((add_le_add ht.2 hd.2).trans_lt hhi)
  exact if_pos ⟨hmin, Int.lt_add_one_iff.mp hmax⟩

theorem asI64_bounds (q : ℚ) : i64Min ≤ asI64 q ∧ asI64 q ≤ i64Max := by
  have := i64_bounds
  unfold asI64
  omega

theorem asI64_of_nonneg {q : ℚ} (hq : 0 ≤ q) : asI64 q = min ⌊q⌋ i64Max := by
  have hfloor : 0 ≤ ⌊q⌋ := Int.floor_nonneg.mpr hq
  have := i64_bounds
  rw [asI64, if_pos hq]
  omega

theorem anchorFrac_bounds (x w : ℚ) : 0 ≤ anchorFrac x w ∧ anchorFrac x w ≤ 1 :=
  ⟨le_max_left _ _, max_le zero_le_one (min_le_right _ _)⟩

/-- A share of a length is no longer than it. -/
theorem floor_share {frac : ℚ} (hfrac : 0 ≤ frac ∧ frac ≤ 1) {n : ℤ} (hn : 0 ≤ n) :
    0 ≤ ⌊frac * n⌋ ∧ ⌊frac * n⌋ ≤ n := by
  have hcast : (0 : ℚ) ≤ n := by exact_mod_cast hn
  constructor
  · exact Int.floor_nonneg.mpr (mul_nonneg hfrac.1 hcast)
  · have hle : frac * n ≤ n := mul_le_of_le_one_left hcast hfrac.2
    exact_mod_cast (Int.floor_le (frac * n)).trans hle

theorem asI64_share {frac : ℚ} (hfrac : 0 ≤ frac ∧ frac ≤ 1) {n : ℤ} (hn : 0 ≤ n)
    (hmax : n ≤ i64Max) : asI64 (frac * n) = ⌊frac * n⌋ := by
  have hcast : (0 : ℚ) ≤ n := by exact_mod_cast hn
  rw [asI64_of_nonneg (mul_nonneg hfrac.1 hcast)]
  exact min_eq_left ((floor_share hfrac hn).2.trans hmax)

theorem floor_timeUnder (window : TimeWindow) (frac : ℚ) :
    ⌊timeUnder window frac⌋ = window.1 + ⌊frac * (window.2 - window.1 : ℤ)⌋ :=
  Int.floor_intCast_add _ _

section Window

variable {window : TimeWindow} (hlt : window.1 < window.2)

include hlt

theorem spanNs_eq (hmax : window.2 - window.1 ≤ i64Max) : spanNs window = window.2 - window.1 := by
  have hmin : i64Min ≤ window.2 - window.1 := by
    have := i64_bounds
    omega
  rw [spanNs, checked, if_pos ⟨hmin, hmax⟩]
  rfl

omit hlt in
/-- A span that 64 bits do not measure counts as none. -/
theorem spanNs_of_wide (hmax : ¬window.2 - window.1 ≤ i64Max) : spanNs window = 0 := by
  rw [spanNs, checked, if_neg fun h => hmax h.2]
  rfl

theorem spanNs_nonpos_iff : spanNs window ≤ 0 ↔ ¬window.2 - window.1 ≤ i64Max := by
  constructor
  · intro hspan hmax
    rw [spanNs_eq hlt hmax] at hspan
    omega
  · intro hmax
    exact (spanNs_of_wide hmax).le

variable (hmin : i64Min ≤ window.1) (hmax : window.2 ≤ i64Max)

include hmin hmax

/-- A pan moves both ends by one and the same shift. -/
theorem panTimeWindow_eq (dxPx axisWidthPx : Option ℚ) :
    ∃ shift, panTimeWindow window dxPx axisWidthPx = (window.1 + shift, window.2 + shift) := by
  have hkeep : window = (window.1 + 0, window.2 + 0) := by simp
  rcases dxPx with _ | dx
  · exact ⟨0, hkeep⟩
  rcases axisWidthPx with _ | width
  · exact ⟨0, hkeep⟩
  simp only [panTimeWindow]
  split_ifs
  · exact ⟨0, hkeep⟩
  · exact ⟨0, hkeep⟩
  · have hshift := asI64_bounds (dx / width * spanNs window)
    refine ⟨asI64 (dx / width * spanNs window), ?_⟩
    rw [checkedAddSigned_eq ⟨hmin, hlt.le.trans hmax⟩ hshift,
      checkedAddSigned_eq ⟨hmin.trans hlt.le, hmax⟩ hshift]
    rfl

end Window

/-! ### A zoom, where it goes through -/

/-- A window of a span about the time another has under a place, in whole nanoseconds. -/
def recentred (window : TimeWindow) (frac : ℚ) (span : ℤ) : TimeWindow :=
  let start := ⌊timeUnder window frac⌋ - ⌊frac * span⌋
  (start, start + span)

/-- Each of the two roundings moves the time under the place by less than a nanosecond. -/
theorem zoomed_recentred (window : TimeWindow) (frac : ℚ) (span : ℤ) :
    Zoomed window frac span (recentred window frac span) where
  span_eq := add_sub_cancel_left _ _
  held := by
    have hlo := Int.floor_le (timeUnder window frac)
    have hhi := Int.lt_floor_add_one (timeUnder window frac)
    have hlo' := Int.floor_le (frac * span)
    have hhi' := Int.lt_floor_add_one (frac * span)
    have htime : timeUnder (recentred window frac span) frac =
        ⌊timeUnder window frac⌋ - ⌊frac * span⌋ + frac * span := by
      simp [timeUnder, recentred]
    rw [htime, abs_le]
    constructor <;> linarith

/-- The two sums of a zoom stay on the range where there is room for the span. -/
theorem room_iff {window : TimeWindow} {frac : ℚ} (hfrac : 0 ≤ frac ∧ frac ≤ 1) {n : ℤ}
    (hn : 0 ≤ n) (hanchor : i64Min ≤ ⌊timeUnder window frac⌋ ∧ ⌊timeUnder window frac⌋ ≤ i64Max) :
    Room window frac n ↔
      (i64Min ≤ (recentred window frac n).1 ∧ (recentred window frac n).1 ≤ i64Max) ∧
        i64Min ≤ (recentred window frac n).2 ∧ (recentred window frac n).2 ≤ i64Max := by
  obtain ⟨hanchorMin, hanchorMax⟩ := hanchor
  have hshare := floor_share hfrac hn
  simp only [recentred]
  have hbefore : frac * n < (⌊timeUnder window frac⌋ - i64Min : ℤ) + 1 ↔
      ⌊frac * n⌋ ≤ ⌊timeUnder window frac⌋ - i64Min := by
    rw [← Int.lt_add_one_iff, Int.floor_lt]
    push_cast
    rfl
  have hafter : (1 - frac) * n ≤ (i64Max - ⌊timeUnder window frac⌋ : ℤ) ↔
      n - (i64Max - ⌊timeUnder window frac⌋) ≤ ⌊frac * n⌋ := by
    rw [Int.le_floor]
    push_cast
    constructor <;> intro h <;> linarith
  constructor
  · rintro ⟨hb, ha⟩
    have := hbefore.mp hb
    have := hafter.mp ha
    omega
  · rintro ⟨⟨hlo, -⟩, -, hhi⟩
    exact ⟨hbefore.mpr (by omega), hafter.mpr (by omega)⟩

theorem minSpan_le_iff (candleWidthNs : ℤ) :
    minSpan candleWidthNs ≤ maxSpan ↔ tenCandles candleWidthNs ≤ tenYears := by
  have hyears := tenYears_bounds
  rw [maxSpan_eq, minSpan]
  change min (tenCandles candleWidthNs) i64Max ≤ tenYears ↔ _
  omega

theorem zoomedSpan_bounds (window : TimeWindow) (factor : ℚ) {candleWidthNs : ℤ}
    (hfloor : tenCandles candleWidthNs ≤ tenYears) :
    10 ≤ zoomedSpan window factor candleWidthNs ∧
      zoomedSpan window factor candleWidthNs ≤ tenYears := by
  have hten : 10 ≤ tenCandles candleWidthNs := by
    unfold tenCandles
    omega
  exact ⟨hten.trans (le_max_left _ _), max_le hfloor (min_le_right _ _)⟩

section Window

variable {window : TimeWindow} (hlt : window.1 < window.2) (hspan : window.2 - window.1 ≤ i64Max)

include hlt hspan

/-- The cast of the product saturates, but above the maximum of a span. -/
theorem clamp_eq {factor : ℚ} (hfactor : 0 < factor) (candleWidthNs : ℤ) :
    clamp? (asI64 (spanNs window * factor)) (minSpan candleWidthNs) maxSpan =
      if tenCandles candleWidthNs ≤ tenYears then some (zoomedSpan window factor candleWidthNs)
      else none := by
  have hyears := tenYears_bounds
  have hcast : (0 : ℚ) ≤ (window.2 - window.1 : ℤ) := by exact_mod_cast (sub_pos.mpr hlt).le
  rw [clamp?, spanNs_eq hlt hspan, asI64_of_nonneg (mul_nonneg hcast hfactor.le)]
  by_cases hfloor : tenCandles candleWidthNs ≤ tenYears
  · have hmin : minSpan candleWidthNs = tenCandles candleWidthNs :=
      min_eq_left (hfloor.trans hyears.2.le)
    rw [if_pos ((minSpan_le_iff _).mpr hfloor), if_pos hfloor, hmin, maxSpan_eq, zoomedSpan,
      min_assoc, min_eq_right hyears.2.le]
  · rw [if_neg (mt (minSpan_le_iff _).mp hfloor), if_neg hfloor]

variable (hmin : i64Min ≤ window.1) (hmax : window.2 ≤ i64Max)

include hmin hmax

omit hspan in
theorem anchor_bounds {frac : ℚ} (hfrac : 0 ≤ frac ∧ frac ≤ 1) :
    i64Min ≤ ⌊timeUnder window frac⌋ ∧ ⌊timeUnder window frac⌋ ≤ i64Max := by
  have hshare := floor_share hfrac (sub_pos.mpr hlt).le
  rw [floor_timeUnder]
  omega

theorem anchorNs_eq {frac : ℚ} (hfrac : 0 ≤ frac ∧ frac ≤ 1) :
    checked ((Instant.timestampNanosOpt window.1).getD 0 + asI64 (frac * spanNs window)) =
      some ⌊timeUnder window frac⌋ := by
  have hstart : Instant.timestampNanosOpt window.1 = some window.1 :=
    if_pos ⟨hmin, (hlt.trans_le hmax).trans (by decide)⟩
  rw [hstart, Option.getD_some, spanNs_eq hlt hspan,
    asI64_share hfrac (sub_pos.mpr hlt).le hspan, ← floor_timeUnder]
  exact if_pos (anchor_bounds hlt hmin hmax hfrac)

/-- A zoom goes through where the bounds of the span are the right way round and there is room. -/
theorem zoomAt_eq_some_iff {frac factor : ℚ} (hfrac : 0 ≤ frac ∧ frac ≤ 1) (hfactor : 0 < factor)
    {candleWidthNs : ℤ} {zoomed : TimeWindow} :
    zoomAt window frac factor candleWidthNs = some zoomed ↔
      tenCandles candleWidthNs ≤ tenYears ∧
      Room window frac (zoomedSpan window factor candleWidthNs) ∧
      zoomed = recentred window frac (zoomedSpan window factor candleWidthNs) := by
  rw [zoomAt, anchorNs_eq hlt hspan hmin hmax hfrac, clamp_eq hlt hspan hfactor]
  by_cases hfloor : tenCandles candleWidthNs ≤ tenYears
  · have hbounds := zoomedSpan_bounds window factor hfloor
    have hyears := tenYears_bounds
    generalize zoomedSpan window factor candleWidthNs = n at hbounds
    have hn : 0 ≤ n := by omega
    rw [room_iff hfrac hn (anchor_bounds hlt hmin hmax hfrac), if_pos hfloor]
    simp only [Option.bind_eq_bind, Option.bind_some, asI64_share hfrac hn (by omega),
      Option.bind_eq_some_iff, checked_eq_some_iff]
    constructor
    · rintro ⟨_, ⟨hstart, rfl⟩, _, ⟨hend, rfl⟩, hzoomed⟩
      exact ⟨hfloor, ⟨hstart, hend⟩, (Option.some.inj hzoomed).symm⟩
    · rintro ⟨-, ⟨hstart, hend⟩, rfl⟩
      exact ⟨_, ⟨hstart, rfl⟩, _, ⟨hend, rfl⟩, rfl⟩
  · simp [hfloor]

end Window

theorem zoomOf_bounds {window : TimeWindow} {anchorXPx axisWidthPx factor : Option ℚ}
    {frac factor' : ℚ} (h : zoomOf window anchorXPx axisWidthPx factor = some (frac, factor')) :
    (0 ≤ frac ∧ frac ≤ 1) ∧ 0 < factor' ∧ window.2 - window.1 ≤ i64Max := by
  rcases anchorXPx with _ | anchor
  · cases h
  rcases axisWidthPx with _ | width
  · cases h
  rcases factor with _ | factor
  · cases h
  simp only [zoomOf] at h
  split_ifs at h with hvalid
  cases h
  exact ⟨anchorFrac_bounds _ _, hvalid.2.1, hvalid.2.2⟩

/-- An invalid input leaves the window as it is. -/
theorem zoomTimeWindowAt_eq {window : TimeWindow} (hlt : window.1 < window.2)
    (anchorXPx axisWidthPx factor : Option ℚ) (candleWidthNs : ℤ) :
    zoomTimeWindowAt window anchorXPx axisWidthPx factor candleWidthNs =
      match zoomOf window anchorXPx axisWidthPx factor with
      | none => some window
      | some (frac, factor) => zoomAt window frac factor candleWidthNs := by
  rcases factor with _ | factor
  · cases anchorXPx <;> cases axisWidthPx <;> rfl
  rcases axisWidthPx with _ | width
  · cases anchorXPx <;> rfl
  rcases anchorXPx with _ | anchor
  · rfl
  simp only [zoomTimeWindowAt, zoomOf, spanNs_nonpos_iff hlt]
  split_ifs with hfactor hvalid hwidth hvalid hspan hvalid hvalid
  · exact absurd hvalid.2.1 hfactor.not_gt
  · rfl
  · exact absurd hvalid.1 hwidth.not_gt
  · rfl
  · rfl
  · exact absurd ⟨not_le.mp hwidth, not_le.mp hfactor, hspan⟩ hvalid
  · exact absurd hvalid.2.2 hspan
  · rfl

/-- Ten years off either end there is room for every span that a zoom asks for. -/
theorem room_of_margin {window : TimeWindow} (hlt : window.1 < window.2)
    (hmin : i64Min + tenYears ≤ window.1) (hmax : window.2 + tenYears ≤ i64Max) {frac : ℚ}
    (hfrac : 0 ≤ frac ∧ frac ≤ 1) {n : ℤ} (hn : 0 ≤ n) (hyears : n ≤ tenYears) :
    Room window frac n := by
  have htop := tenYears_bounds
  have hshare := floor_share hfrac hn
  have hwhole := floor_share hfrac (sub_pos.mpr hlt).le
  have hanchor := floor_timeUnder window frac
  have hbounds := anchor_bounds hlt (by omega) (by omega) hfrac
  rw [room_iff hfrac hn hbounds]
  simp only [recentred]
  omega

/-- Every period of a chart has ten candles in ten years. -/
theorem tenCandles_barPeriodNs (period : BarPeriod) :
    tenCandles (barPeriodNs period) ≤ tenYears := by
  unfold barPeriodNs
  split <;> decide

/-- Both moves keep a valid window where a valid input has a period with ten candles in ten years,
    and room for the span it asks for. -/
theorem keepsWindow_iff_fits {window : TimeWindow} (hlt : window.1 < window.2)
    (hmin : i64Min ≤ window.1) (hmax : window.2 ≤ i64Max)
    (dxPx anchorXPx axisWidthPx factor : Option ℚ) (candleWidthNs : ℤ) :
    KeepsWindow window dxPx anchorXPx axisWidthPx factor candleWidthNs ↔
      Fits window anchorXPx axisWidthPx factor candleWidthNs := by
  obtain ⟨shift, hpan⟩ := panTimeWindow_eq hlt hmin hmax dxPx axisWidthPx
  constructor
  · intro h frac factor' hof
    obtain ⟨zoomed, hzoomed, -⟩ := h.zoom
    obtain ⟨hfrac, hfactor, hspan⟩ := zoomOf_bounds hof
    rw [zoomTimeWindowAt_eq hlt, hof] at hzoomed
    obtain ⟨hfloor, hroom, -⟩ := (zoomAt_eq_some_iff hlt hspan hmin hmax hfrac hfactor).mp hzoomed
    exact ⟨hfloor, hroom⟩
  · intro h
    refine ⟨?_, ?_, ?_⟩
    · rw [hpan]
      exact add_lt_add_left hlt shift
    · rw [hpan]
      exact add_sub_add_right_eq_sub _ _ _
    · rw [zoomTimeWindowAt_eq hlt]
      rcases hof : zoomOf window anchorXPx axisWidthPx factor with _ | ⟨frac, factor'⟩
      · exact ⟨window, rfl, hlt, rfl⟩
      · obtain ⟨hfrac, hfactor, hspan⟩ := zoomOf_bounds hof
        obtain ⟨hfloor, hroom⟩ := h frac factor' hof
        have hbounds := zoomedSpan_bounds window factor' hfloor
        refine ⟨_, (zoomAt_eq_some_iff hlt hspan hmin hmax hfrac hfactor).mpr ⟨hfloor, hroom, rfl⟩,
          ?_, zoomed_recentred _ _ _⟩
        exact lt_add_of_pos_right _ (lt_of_lt_of_le (by decide) hbounds.1)

theorem keepsWindow_iff_fits_day :
    KeepsWindow (0, Instant.day) (some (-25)) (some 500) (some 1000) (some 2)
      (barPeriodNs (.clock (.minutes 1))) := by
  refine (keepsWindow_iff_fits (by decide) (by decide) (by decide) _ _ _ _ _).mpr ?_
  intro frac factor hof
  have hfloor := tenCandles_barPeriodNs (.clock (.minutes 1))
  have hbounds := zoomedSpan_bounds (0, Instant.day) factor hfloor
  obtain ⟨hfrac, -⟩ := zoomOf_bounds hof
  exact ⟨hfloor, room_of_margin (by decide) (by decide) (by decide) hfrac (by omega) hbounds.2⟩

/-- A zoom out at the earliest timestamps begins before there are any. -/
theorem zoom_overflows :
    let window : TimeWindow := (i64Min, i64Min + Instant.day)
    (window.1 < window.2 ∧ window.2 ≤ i64Max) ∧
      ¬KeepsWindow window (some 0) (some 500) (some 1000) (some 2)
        (barPeriodNs (.clock (.minutes 1))) := by
  refine ⟨by decide, ?_⟩
  rintro ⟨-, -, zoomed, hzoomed, -⟩
  have hnone : zoomTimeWindowAt (i64Min, i64Min + Instant.day) (some 500) (some 1000) (some 2)
      (barPeriodNs (.clock (.minutes 1))) = none := by decide +kernel
  rw [hnone] at hzoomed
  cases hzoomed

end Midas.Scene
