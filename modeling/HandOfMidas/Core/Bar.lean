import HandOfMidas.Core.Symbol

/-! Instants of UTC, timeframes and bars (crate `midas-broker-core`). -/

namespace Midas

/-- `DateTime<Utc>`: nanoseconds since the Unix epoch. The calendar range of the source's type ends
    some 260 000 years away and is not modelled. -/
abbrev Instant := ℤ

namespace Instant

def second : ℤ := 1000000000

/-- `timestamp()`: whole seconds since the epoch, rounded down. -/
def timestamp (t : Instant) : ℤ := t / second

/-- `from_timestamp(secs, 0)`. -/
def ofTimestamp (secs : ℤ) : Instant := secs * second

@[simp] theorem timestamp_ofTimestamp (secs : ℤ) : timestamp (ofTimestamp secs) = secs :=
  Int.mul_ediv_cancel secs (by decide)

theorem ofTimestamp_le {secs : ℤ} {t : Instant} : ofTimestamp secs ≤ t ↔ secs ≤ timestamp t :=
  (Int.le_ediv_iff_mul_le (by decide)).symm

theorem lt_ofTimestamp {secs : ℤ} {t : Instant} : t < ofTimestamp secs ↔ timestamp t < secs :=
  (Int.ediv_lt_iff_lt_mul (by decide)).symm

theorem ofTimestamp_lt_ofTimestamp {a b : ℤ} : ofTimestamp a < ofTimestamp b ↔ a < b := by
  rw [lt_ofTimestamp, timestamp_ofTimestamp]

theorem timestamp_mono {t t' : Instant} (h : t ≤ t') : timestamp t ≤ timestamp t' :=
  Int.ediv_le_ediv (by decide) h

end Instant

/-- The start of the stretch of `secs` seconds that `t` lies in, counted from the epoch. -/
def alignDown (secs : ℤ) (t : Instant) : Instant :=
  Instant.ofTimestamp (t.timestamp - t.timestamp % secs)

section Align

variable {secs : ℤ} {t t' : Instant}

theorem alignDown_eq (secs : ℤ) (t : Instant) :
    alignDown secs t = Instant.ofTimestamp (secs * (t.timestamp / secs)) := by
  rw [alignDown, Int.emod_def]
  congr 1
  omega

theorem alignDown_le (hsecs : 0 < secs) : alignDown secs t ≤ t := by
  rw [alignDown, Instant.ofTimestamp_le]
  have := Int.emod_nonneg t.timestamp hsecs.ne'
  omega

theorem lt_alignDown_add (hsecs : 0 < secs) :
    t < alignDown secs t + Instant.ofTimestamp secs := by
  have hsum : alignDown secs t + Instant.ofTimestamp secs =
      Instant.ofTimestamp (t.timestamp - t.timestamp % secs + secs) := by
    simp only [alignDown, Instant.ofTimestamp]
    ring
  rw [hsum, Instant.lt_ofTimestamp]
  have := Int.emod_lt_of_pos t.timestamp hsecs
  omega

theorem alignDown_mono (hsecs : 0 < secs) (h : t ≤ t') : alignDown secs t ≤ alignDown secs t' := by
  rw [alignDown_eq, alignDown_eq, Instant.ofTimestamp_le, Instant.timestamp_ofTimestamp]
  exact Int.mul_le_mul_of_nonneg_left (Int.ediv_le_ediv hsecs (Instant.timestamp_mono h)) hsecs.le

/-- Whoever lies in the stretch of `t` has the same stretch. -/
theorem alignDown_eq_of_mem (hsecs : 0 < secs) (hle : alignDown secs t ≤ t')
    (hlt : t' < alignDown secs t + Instant.ofTimestamp secs) : alignDown secs t' = alignDown secs t := by
  have hsum : alignDown secs t + Instant.ofTimestamp secs =
      Instant.ofTimestamp (secs * (t.timestamp / secs) + secs) := by
    rw [alignDown_eq]
    simp only [Instant.ofTimestamp]
    ring
  rw [hsum, Instant.lt_ofTimestamp] at hlt
  rw [alignDown_eq, Instant.ofTimestamp_le] at hle
  have hquot : t'.timestamp / secs = t.timestamp / secs := by
    rw [Int.ediv_eq_iff_of_pos hsecs]
    constructor <;> linarith
  rw [alignDown_eq, alignDown_eq, hquot]

end Align

inductive Timeframe where
  | s1 | s5 | s15 | s30 | m1 | m5 | m15 | m30 | h1 | h4 | d1 | w1 | mn1
  deriving DecidableEq, Repr

/-- `as_secs`: the length of one bar, in seconds. -/
def Timeframe.asSecs : Timeframe → ℕ
  | .s1 => 1
  | .s5 => 5
  | .s15 => 15
  | .s30 => 30
  | .m1 => 60
  | .m5 => 300
  | .m15 => 900
  | .m30 => 1800
  | .h1 => 3600
  | .h4 => 14400
  | .d1 => 86400
  | .w1 => 604800
  | .mn1 => 2592000

theorem Timeframe.asSecs_pos (tf : Timeframe) : 0 < tf.asSecs := by cases tf <;> decide

inductive BarCompleteness where | completed | partialBar
  deriving DecidableEq, Repr

structure Bar where
  symbol : SymbolKey
  timeframe : Timeframe
  tsOpen : Instant
  tsClose : Instant
  o : ℚ
  h : ℚ
  l : ℚ
  c : ℚ
  volume : ℕ
  tradeCount : ℕ
  wap : Option ℚ
  completeness : BarCompleteness
  deriving DecidableEq

end Midas
