import Mathlib.Order.Lattice

/-! Durations, counted in nanoseconds, and how they are printed. -/

namespace Midas

/-- `Duration::MAX`. -/
def durationMax : ℕ := 18446744073709551615 * 1000000000 + 999999999

/-- `Duration`. An instant of virtual time is the duration since the session started. -/
abbrev Duration := {n : ℕ // n ≤ durationMax}

/-- `saturating_add` of a duration to an instant. -/
def saturatingAdd (t d : Duration) : Duration := ⟨min (t.1 + d.1) durationMax, Nat.min_le_right _ _⟩

theorem le_saturatingAdd (t d : Duration) : t ≤ saturatingAdd t d :=
  le_min (Nat.le_add_right t.1 d.1) t.2

/-- A number and a decimal fraction of `width` digits, without the zeros at its end. -/
def decimalText (whole frac width : ℕ) : String :=
  let digits := Nat.toDigits 10 frac
  let padded := List.replicate (width - digits.length) '0' ++ digits
  let trimmed := (padded.reverse.dropWhile (· = '0')).reverse
  if trimmed = [] then toString whole else toString whole ++ "." ++ String.ofList trimmed

/-- A duration as `{:?}` prints it: in the largest unit that it fills. -/
def durationText (d : ℕ) : String :=
  if 1000000000 ≤ d then decimalText (d / 1000000000) (d % 1000000000) 9 ++ "s"
  else if 1000000 ≤ d then decimalText (d / 1000000) (d % 1000000) 6 ++ "ms"
  else if 1000 ≤ d then decimalText (d / 1000) (d % 1000) 3 ++ "µs"
  else toString d ++ "ns"

example : durationText 14500000000 = "14.5s" := by decide +kernel

end Midas
