import HandOfMidas.Core.Duration
import HandOfMidas.Core.Symbol
import HandOfMidas.Scenario.RoundTrip
import Mathlib.Data.List.TakeWhile

/-! Durations in a scenario are read by two parsers: `parse_duration` (`expr/interpreter.rs`) for the
    fields of a script, and the expression parser for literals. Numbers are exact. The first one
    panics on what `Duration` cannot hold, and takes milliseconds down to whole ones. -/

namespace Midas.Dsl.Expression

/-! ### `parse_duration` -/

/-- `char::is_whitespace`. -/
def isWhitespace (c : Char) : Bool :=
  let n := c.toNat
  (9 ≤ n && n ≤ 13) || n = 32 || n = 0x85 || n = 0xA0 || n = 0x1680 || (0x2000 ≤ n && n ≤ 0x200A) ||
    n = 0x2028 || n = 0x2029 || n = 0x202F || n = 0x205F || n = 0x3000

/-- `char::is_alphabetic`; outside ASCII it is the one of Unicode. -/
structure Alphabet where
  isAlphabetic : Char → Bool
  ascii : ∀ c, c.toNat < 128 → isAlphabetic c = c.isAlpha

def trim (s : List Char) : List Char :=
  ((s.dropWhile isWhitespace).reverse.dropWhile isWhitespace).reverse

abbrev U64 := {n : ℕ // n < 2 ^ 64}

/-- Arithmetic of `u64` panics when it overflows. -/
def checkedU64 (n : ℕ) : Option U64 := if h : n < 2 ^ 64 then some ⟨n, h⟩ else none

/-- `text.parse::<u64>()`. -/
def parseU64 (text : List Char) : Option U64 :=
  let digits := if text.head? = some '+' then text.drop 1 else text
  (Protocol.parseDigits digits).bind checkedU64

/-- The text up to a colon, and behind it. -/
def splitColon (t : List Char) : List Char × List Char :=
  (t.takeWhile (· ≠ ':'), (t.dropWhile (· ≠ ':')).drop 1)

/-- What `text.split(':')` gives when there are two colons. -/
def clockParts (t : List Char) : Option (List Char × List Char × List Char) :=
  if t.count ':' = 2 then
    let (h, rest) := splitColon t
    let (m, sec) := splitColon rest
    some (h, m, sec)
  else none

/-- The text up to its first letter, and from there on. -/
def splitUnit (alphabet : Alphabet) (t : List Char) : List Char × List Char :=
  (t.takeWhile fun c => !alphabet.isAlphabetic c, t.dropWhile fun c => !alphabet.isAlphabetic c)

/-- To the nearest whole number, halves to the even one. -/
def roundHalfEven (x : ℚ) : ℤ :=
  let r := x - ⌊x⌋
  if r < 1 / 2 then ⌊x⌋ else if 1 / 2 < r then ⌊x⌋ + 1 else if Even ⌊x⌋ then ⌊x⌋ else ⌊x⌋ + 1

/-- `Duration::from_secs_f64`, which panics when there is no such duration. -/
def fromSecsF64 (secs : ℚ) : Option Duration :=
  if secs < 0 then none
  else
    let nanos := (roundHalfEven (secs * 10 ^ 9)).toNat
    if h : nanos ≤ durationMax then some ⟨nanos, h⟩ else none

/-- `Duration::from_millis(n as u64)`. -/
def fromMillis (n : ℚ) : Duration :=
  ⟨asU64 ⌊n⌋ * 10 ^ 6, by
    have hle : asU64 ⌊n⌋ ≤ 2 ^ 64 - 1 := min_le_right _ _
    unfold durationMax
    omega⟩

def fromSecs (secs : U64) : Duration :=
  ⟨secs.1 * 10 ^ 9, by
    have hlt := secs.2
    unfold durationMax
    omega⟩

def sumU64 (a b c : ℕ) : Option U64 := do
  let a ← checkedU64 a
  let b ← checkedU64 b
  let ab ← checkedU64 (a.1 + b.1)
  checkedU64 (ab.1 + c)

/-- `Duration::from_secs(h * 3600 + m * 60 + sec)`. -/
def fromClock (h m sec : U64) : Option Duration :=
  (sumU64 (h.1 * 3600) (m.1 * 60) sec.1).map fromSecs

/-- `EvalError::Duration`. -/
structure DurationError where
  text : List Char
deriving DecidableEq

/-- A panic is `none`. -/
def parseDuration (alphabet : Alphabet) (s : List Char) : Option (Except DurationError Duration) :=
  let t := trim s
  if t = [] then some (.error ⟨s⟩)
  else
    match clockParts t with
    | some (h, m, sec) =>
      match parseU64 h, parseU64 m, parseU64 sec with
      | some h, some m, some sec => (fromClock h m sec).map .ok
      | _, _, _ => some (.error ⟨s⟩)
    | none =>
      let (numStr, suffix) := splitUnit alphabet t
      if numStr = [] then some (.error ⟨s⟩)
      else
        match parseF64 numStr with
        | none => some (.error ⟨s⟩)
        | some n =>
          match String.ofList suffix with
          | "" | "s" | "sec" | "secs" => (fromSecsF64 n).map .ok
          | "ms" => some (.ok (fromMillis n))
          | "min" | "m" => (fromSecsF64 (n * 60)).map .ok
          | "h" | "hr" | "hour" | "hours" => (fromSecsF64 (n * 3600)).map .ok
          | other => some (.error ⟨"unknown unit `".toList ++ other.toList ++ "`".toList⟩)

/-! ### What a text names -/

def secondsOf (d : Duration) : ℚ := d.1 / 10 ^ 9

/-- The seconds that a literal stands for. -/
def Value.seconds : Value ℚ → Option ℚ
  | .int i => some i.toInt
  | .num x => some x
  | _ => none

def unitSeconds (unit : List Char) : Option ℚ :=
  match String.ofList unit with
  | "" | "s" | "sec" | "secs" => some 1
  | "ms" => some (1 / 1000)
  | "min" | "m" => some 60
  | "h" | "hr" | "hour" | "hours" => some 3600
  | _ => none

inductive Time
  | clock (h m sec : U64)
  | number (n : ℚ) (unit : List Char) (k : ℚ)

/-- The time that a text names. -/
def named (alphabet : Alphabet) (s : List Char) : Option Time :=
  match clockParts (trim s) with
  | some (h, m, sec) => do
    let h ← parseU64 h
    let m ← parseU64 m
    let sec ← parseU64 sec
    return .clock h m sec
  | none => do
    let (numStr, unit) := splitUnit alphabet (trim s)
    let n ← parseF64 numStr
    let k ← unitSeconds unit
    return .number n unit k

namespace Time

/-- There is such a duration, to the nanosecond: less than 2⁶⁴ seconds, and not before zero. For
    milliseconds there always is one, since the code saturates them. -/
def Fits : Time → Prop
  | clock h m sec => h.1 * 3600 + m.1 * 60 + sec.1 < 2 ^ 64
  | number n unit k => unit = "ms".toList ∨ 0 ≤ n * k ∧ n * k < 2 ^ 64 - 1 / (2 * 10 ^ 9)

/-- It is a whole number of nanoseconds, or of milliseconds where these are the unit. -/
def Whole : Time → Prop
  | clock _ _ _ => True
  | number n unit k =>
    if unit = "ms".toList then ∃ m : U64, n = m.1 else ∃ z : ℤ, n * k * 10 ^ 9 = z

end Time

/-! ### The first parser -/

theorem checkedU64_of_lt {n : ℕ} (h : n < 2 ^ 64) : checkedU64 n = some ⟨n, h⟩ := dif_pos h

theorem checkedU64_of_le {n : ℕ} (h : 2 ^ 64 ≤ n) : checkedU64 n = none := dif_neg (not_lt.mpr h)

theorem sumU64_of_lt {a b c : ℕ} (h : a + b + c < 2 ^ 64) : sumU64 a b c = some ⟨a + b + c, h⟩ := by
  have ha : a < 2 ^ 64 := by omega
  have hb : b < 2 ^ 64 := by omega
  have hab : a + b < 2 ^ 64 := by omega
  rw [sumU64, checkedU64_of_lt ha, checkedU64_of_lt hb]
  simp only [Option.bind_eq_bind, Option.bind_some]
  rw [checkedU64_of_lt hab]
  simp only [Option.bind_some]
  rw [checkedU64_of_lt h]

/-- The sum overflows in whichever step it does. -/
theorem sumU64_of_le {a b c : ℕ} (h : 2 ^ 64 ≤ a + b + c) : sumU64 a b c = none := by
  unfold sumU64
  rcases lt_or_ge a (2 ^ 64) with ha | ha
  · rcases lt_or_ge b (2 ^ 64) with hb | hb
    · rw [checkedU64_of_lt ha, checkedU64_of_lt hb]
      simp only [Option.bind_eq_bind, Option.bind_some]
      rcases lt_or_ge (a + b) (2 ^ 64) with hab | hab
      · rw [checkedU64_of_lt hab]
        simp only [Option.bind_some]
        rw [checkedU64_of_le h]
      · rw [checkedU64_of_le hab]
        rfl
    · rw [checkedU64_of_lt ha, checkedU64_of_le hb]
      rfl
  · rw [checkedU64_of_le ha]
    rfl

/-- What `parse_duration` makes of the time that a text names. -/
def Time.duration : Time → Option Duration
  | .clock h m sec => fromClock h m sec
  | .number n unit k => if unit = "ms".toList then some (fromMillis n) else fromSecsF64 (n * k)

theorem parseDuration_of_named {alphabet : Alphabet} {s : List Char} {time : Time}
    (h : named alphabet s = some time) :
    parseDuration alphabet s = time.duration.map .ok := by
  have hne : trim s ≠ [] := by
    rintro hempty
    rw [named, hempty] at h
    cases h
  rw [named] at h
  rw [parseDuration]
  simp only [if_neg hne]
  cases hparts : clockParts (trim s) with
  | some parts =>
    obtain ⟨h', m', sec'⟩ := parts
    simp only [hparts, Option.bind_eq_bind, Option.bind_eq_some_iff] at h
    obtain ⟨a, ha, b, hb, c, hc, htime⟩ := h
    obtain rfl := Option.some.inj htime
    simp only [ha, hb, hc]
    rfl
  | none =>
    simp only [hparts, Option.bind_eq_bind, Option.bind_eq_some_iff] at h
    obtain ⟨n, hn, k, hk, htime⟩ := h
    obtain rfl := Option.some.inj htime
    have hnum : (splitUnit alphabet (trim s)).1 ≠ [] := by
      rintro hempty
      rw [hempty] at hn
      cases hn
    simp only [if_neg hnum, hn, Time.duration]
    generalize (splitUnit alphabet (trim s)).2 = unit at hk ⊢
    have hms : unit = "ms".toList ↔ String.ofList unit = "ms" := by
      refine ⟨fun h => ?_, fun h => ?_⟩
      · rw [h]
        rfl
      · rw [← h, String.toList_ofList]
    rw [if_congr hms rfl rfl]
    unfold unitSeconds at hk
    split at hk <;> cases hk <;> simp_all

theorem parseDuration_of_not_named {alphabet : Alphabet} {s : List Char}
    (h : named alphabet s = none) : ∃ e, parseDuration alphabet s = some (.error e) := by
  rw [parseDuration]
  by_cases hempty : trim s = []
  · exact ⟨⟨s⟩, by rw [if_pos hempty]⟩
  · rw [named] at h
    simp only [if_neg hempty]
    cases hparts : clockParts (trim s) with
    | some parts =>
      obtain ⟨h', m', sec'⟩ := parts
      refine ⟨⟨s⟩, ?_⟩
      simp only [hparts, Option.bind_eq_bind] at h
      simp only
      split
      · rename_i ha hb hc
        rw [ha, hb, hc] at h
        cases h
      · rfl
    | none =>
      simp only [hparts, Option.bind_eq_bind] at h
      simp only
      split_ifs with hnum
      · exact ⟨⟨s⟩, rfl⟩
      · cases hn : parseF64 (splitUnit alphabet (trim s)).1 with
        | none => exact ⟨⟨s⟩, rfl⟩
        | some n =>
          rw [hn, Option.bind_some] at h
          generalize (splitUnit alphabet (trim s)).2 = unit at h ⊢
          unfold unitSeconds at h
          split at h <;> simp_all

/-! ### The bounds of `Duration` -/

theorem floor_le_roundHalfEven (x : ℚ) : ⌊x⌋ ≤ roundHalfEven x ∧ roundHalfEven x ≤ ⌊x⌋ + 1 := by
  unfold roundHalfEven
  dsimp only
  split_ifs <;> omega

/-- Below a half behind an odd number the rounding does not go beyond it, and from there on it does. -/
theorem roundHalfEven_le_iff {x : ℚ} {n : ℤ} (hn : Odd n) : roundHalfEven x ≤ n ↔ x < n + 1 / 2 := by
  have hfloor := Int.floor_le x
  have hlt := Int.lt_floor_add_one x
  rcases lt_trichotomy ⌊x⌋ n with hfar | heq | hfar
  · have hle := (floor_le_roundHalfEven x).2
    have hcast : (⌊x⌋ : ℚ) + 1 ≤ n := by exact_mod_cast hfar
    exact ⟨fun _ => by linarith, fun _ => by omega⟩
  · subst heq
    have hodd : ¬Even ⌊x⌋ := Int.not_even_iff_odd.mpr hn
    unfold roundHalfEven
    dsimp only
    split_ifs with hlow hhigh
    · exact ⟨fun _ => by linarith, fun _ => le_refl _⟩
    · exact ⟨fun h => by omega, fun h => by linarith⟩
    · exact ⟨fun h => by omega, fun h => by linarith⟩
  · have hge := (floor_le_roundHalfEven x).1
    have hcast : (n : ℚ) + 1 ≤ ⌊x⌋ := by exact_mod_cast hfar
    exact ⟨fun h => by omega, fun h => by linarith⟩

theorem roundHalfEven_nonneg {x : ℚ} (h : 0 ≤ x) : 0 ≤ roundHalfEven x :=
  (Int.floor_nonneg.mpr h).trans (floor_le_roundHalfEven x).1

/-- Only whole numbers stay what they are. -/
theorem roundHalfEven_eq_self_iff (x : ℚ) : (roundHalfEven x : ℚ) = x ↔ ∃ z : ℤ, x = z := by
  refine ⟨fun h => ⟨_, h.symm⟩, ?_⟩
  rintro ⟨z, rfl⟩
  have hzero : (z : ℚ) - ⌊(z : ℚ)⌋ = 0 := by rw [Int.floor_intCast, sub_self]
  rw [roundHalfEven]
  simp only [hzero]
  rw [if_pos (by norm_num), Int.floor_intCast]

theorem fromSecsF64_eq_none_iff (x : ℚ) :
    fromSecsF64 x ≠ none ↔ 0 ≤ x ∧ x < 2 ^ 64 - 1 / (2 * 10 ^ 9) := by
  unfold fromSecsF64
  by_cases hneg : x < 0
  · simp [hneg, not_le.mpr hneg]
  · have hpos : 0 ≤ x := not_lt.mp hneg
    have hround : (roundHalfEven (x * 10 ^ 9)).toNat ≤ durationMax ↔ x < 2 ^ 64 - 1 / (2 * 10 ^ 9) := by
      have hmax : (durationMax : ℤ) = 18446744073709551615999999999 := rfl
      have hodd : Odd (durationMax : ℤ) := by
        rw [hmax]
        decide
      rw [Int.toNat_le, roundHalfEven_le_iff hodd, hmax]
      push_cast
      constructor <;> intro h <;> linarith
    simp only [if_neg hneg, hpos, true_and, ← hround]
    split_ifs with h
    · simp [h]
    · simp [h]

theorem fromSecsF64_seconds {x : ℚ} {d : Duration} (h : fromSecsF64 x = some d) :
    secondsOf d = x ↔ ∃ z : ℤ, x * 10 ^ 9 = z := by
  unfold fromSecsF64 at h
  split_ifs at h with hneg
  simp only at h
  split_ifs at h with hmax
  obtain rfl := Option.some.inj h
  have hnonneg : 0 ≤ roundHalfEven (x * 10 ^ 9) := roundHalfEven_nonneg (by linarith)
  have hcast : ((roundHalfEven (x * 10 ^ 9)).toNat : ℚ) = (roundHalfEven (x * 10 ^ 9) : ℚ) := by
    exact_mod_cast Int.toNat_of_nonneg hnonneg
  rw [← roundHalfEven_eq_self_iff, secondsOf, div_eq_iff (by norm_num)]
  simp only [hcast]

theorem fromMillis_seconds (n : ℚ) :
    secondsOf (fromMillis n) = n * (1 / 1000) ↔ ∃ m : U64, n = m.1 := by
  have hvalue : secondsOf (fromMillis n) = (asU64 ⌊n⌋ : ℚ) * (1 / 1000) := by
    rw [secondsOf, fromMillis]
    push_cast
    ring
  rw [hvalue, mul_left_inj' (by norm_num)]
  constructor
  · intro h
    have hlt : asU64 ⌊n⌋ < 2 ^ 64 := by
      unfold asU64
      omega
    exact ⟨⟨asU64 ⌊n⌋, hlt⟩, h.symm⟩
  · rintro ⟨⟨m, hm⟩, rfl⟩
    have hfloor : ⌊(m : ℚ)⌋ = m := Int.floor_natCast m
    have hsame : asU64 m = m := by
      unfold asU64
      omega
    simp only [hfloor, hsame]

theorem duration_eq_none_iff (time : Time) : time.duration ≠ none ↔ time.Fits := by
  cases time with
  | clock h m sec =>
    rcases lt_or_ge (h.1 * 3600 + m.1 * 60 + sec.1) (2 ^ 64) with hlt | hle
    · simp only [Time.duration, fromClock, sumU64_of_lt hlt, Time.Fits]
      simpa using hlt
    · simp only [Time.duration, fromClock, sumU64_of_le hle, Time.Fits]
      simpa using hle
  | number n unit k =>
    by_cases hms : unit = "ms".toList
    · simp [Time.duration, Time.Fits, hms]
    · simp only [Time.duration, Time.Fits, hms, false_or, if_false]
      exact fromSecsF64_eq_none_iff (n * k)

/-! ### The parts of a text -/

theorem named_number {alphabet : Alphabet} {s unit : List Char} {n k : ℚ}
    (h : named alphabet s = some (.number n unit k)) : ∃ numStr, trim s = numStr ++ unit ∧
      parseF64 numStr = some n ∧ unitSeconds unit = some k := by
  rw [named] at h
  cases hparts : clockParts (trim s) with
  | some parts =>
    simp only [hparts, Option.bind_eq_bind, Option.bind_eq_some_iff] at h
    obtain ⟨a, -, b, -, c, -, htime⟩ := h
    cases htime
  | none =>
    simp only [hparts, Option.bind_eq_bind, Option.bind_eq_some_iff] at h
    obtain ⟨n', hn, k', hk, htime⟩ := h
    simp only [Option.pure_def, Option.some.injEq, Time.number.injEq] at htime
    obtain ⟨rfl, rfl, rfl⟩ := htime
    exact ⟨_, (List.takeWhile_append_dropWhile ..).symm, hn, hk⟩

theorem splitColon_eq {t : List Char} (h : ':' ∈ t) :
    t = (splitColon t).1 ++ ':' :: (splitColon t).2 ∧ ':' ∉ (splitColon t).1 := by
  have hnone : ':' ∉ (splitColon t).1 := fun hmem => by simpa using List.mem_takeWhile_imp hmem
  refine ⟨?_, hnone⟩
  have hsplit : t.takeWhile (· ≠ ':') ++ t.dropWhile (· ≠ ':') = t :=
    List.takeWhile_append_dropWhile ..
  cases hdrop : t.dropWhile (· ≠ ':') with
  | nil =>
    rw [hdrop, List.append_nil] at hsplit
    rw [splitColon, hsplit] at hnone
    exact absurd h hnone
  | cons c cs =>
    have hne : t.dropWhile (fun c => decide (c ≠ ':')) ≠ [] := by
      rw [hdrop]
      exact List.cons_ne_nil c cs
    have hhead := List.head_dropWhile_not (fun c => decide (c ≠ ':')) hne
    simp only [hdrop, List.head_cons] at hhead
    obtain rfl : c = ':' := by simpa using hhead
    rw [splitColon, hdrop]
    exact (hdrop ▸ hsplit).symm

theorem named_clock {alphabet : Alphabet} {s : List Char} {a b c : U64}
    (h : named alphabet s = some (.clock a b c)) : ∃ x y z, trim s = x ++ ':' :: (y ++ ':' :: z) ∧
      parseU64 x = some a ∧ parseU64 y = some b ∧ parseU64 z = some c := by
  rw [named] at h
  cases hparts : clockParts (trim s) with
  | none =>
    simp only [hparts, Option.bind_eq_bind, Option.bind_eq_some_iff] at h
    obtain ⟨n, -, k, -, htime⟩ := h
    cases htime
  | some parts =>
    obtain ⟨x, y, z⟩ := parts
    simp only [hparts, Option.bind_eq_bind, Option.bind_eq_some_iff] at h
    obtain ⟨a', ha, b', hb, c', hc, htime⟩ := h
    simp only [Option.pure_def, Option.some.injEq, Time.clock.injEq] at htime
    obtain ⟨rfl, rfl, rfl⟩ := htime
    refine ⟨x, y, z, ?_, ha, hb, hc⟩
    unfold clockParts at hparts
    split_ifs at hparts with hcount
    simp only [Option.some.injEq, Prod.mk.injEq] at hparts
    obtain ⟨rfl, rfl, rfl⟩ := hparts
    obtain ⟨hfirst, hnone⟩ := splitColon_eq (List.count_pos_iff.mp (by omega : 0 < (trim s).count ':'))
    have hmore : 0 < (splitColon (trim s)).2.count ':' := by
      rw [hfirst, List.count_append, List.count_cons_self, List.count_eq_zero.mpr hnone] at hcount
      omega
    obtain ⟨hsecond, -⟩ := splitColon_eq (List.count_pos_iff.mp hmore)
    rw [← hsecond]
    exact hfirst

theorem trim_eq (s : List Char) : ∃ before after, s = before ++ (trim s ++ after) ∧
    (∀ c ∈ before, isWhitespace c = true) ∧ ∀ c ∈ after, isWhitespace c = true := by
  have hfront : s.takeWhile isWhitespace ++ s.dropWhile isWhitespace = s :=
    List.takeWhile_append_dropWhile ..
  have hback : ∀ t : List Char, t = (t.reverse.dropWhile isWhitespace).reverse ++
      (t.reverse.takeWhile isWhitespace).reverse := by
    intro t
    rw [← List.reverse_append, List.takeWhile_append_dropWhile, List.reverse_reverse]
  refine ⟨s.takeWhile isWhitespace, ((s.dropWhile isWhitespace).reverse.takeWhile isWhitespace).reverse,
    ?_, fun c hc => List.mem_takeWhile_imp hc,
    fun c hc => List.mem_takeWhile_imp (List.mem_reverse.mp hc)⟩
  rw [trim, ← hback, hfront]

/-- The seconds that a time stands for. -/
def Time.seconds : Time → ℚ
  | .clock h m sec => h.1 * 3600 + m.1 * 60 + sec.1
  | .number n _ k => n * k

theorem duration_seconds {alphabet : Alphabet} {s : List Char} {time : Time} {d : Duration}
    (hnamed : named alphabet s = some time) (h : time.duration = some d) :
    secondsOf d = time.seconds ↔ time.Whole := by
  cases time with
  | clock h' m sec =>
    refine ⟨fun _ => trivial, fun _ => ?_⟩
    rcases lt_or_ge (h'.1 * 3600 + m.1 * 60 + sec.1) (2 ^ 64) with hlt | hle
    · simp only [Time.duration, fromClock, sumU64_of_lt hlt, Option.map_some] at h
      obtain rfl := Option.some.inj h
      rw [secondsOf, fromSecs, div_eq_iff (by norm_num)]
      push_cast
      rfl
    · simp [Time.duration, fromClock, sumU64_of_le hle] at h
  | number n unit k =>
    by_cases hms : unit = "ms".toList
    · have hk : k = 1 / 1000 := by
        obtain ⟨-, -, -, hk⟩ := named_number hnamed
        rw [hms] at hk
        exact (Option.some.inj hk).symm
      simp only [Time.duration, hms, if_true] at h
      obtain rfl := Option.some.inj h
      simp only [Time.seconds, Time.Whole, hms, if_true, hk]
      exact fromMillis_seconds n
    · simp only [Time.duration, hms, if_false] at h
      simp only [Time.seconds, Time.Whole, hms, if_false]
      exact fromSecsF64_seconds h

/-! ### The second parser -/

section

variable {α β : Type} {len : ℕ}

theorem bind_eq_pure {x : Result α} {f : α → Result β} {b : β} :
    x >>= f = pure b ↔ ∃ a, x = pure a ∧ f a = pure b := by
  constructor
  swap
  · rintro ⟨a, hx, hf⟩
    rw [hx, pure_bind, hf]
  intro h
  rcases x with _ | e | a
  · cases h
  · cases Option.some.inj h
  · exact ⟨a, rfl, h⟩

theorem pure_inj {a b : α} : (pure a : Result α) = pure b ↔ a = b := by
  refine ⟨fun h => ?_, fun h => h ▸ rfl⟩
  exact Except.ok.inj (Option.some.inj h)

theorem read_eq_pure {r : Except ParseError α} {a : α} : read r = pure a ↔ r = .ok a := by
  refine ⟨fun h => Option.some.inj h, fun h => by rw [h, read_ok]⟩

/-- A loop that takes a turn ends in a conjunction. -/
theorem andLoop_inv {fuel : ℕ} {lhs e : Expr ℚ} {cs rest : List Char}
    (h : andLoop len fuel lhs cs = pure (e, rest)) (he : ∀ l r, e ≠ .and l r) :
    e = lhs ∧ rest = skipWhitespace cs := by
  induction fuel generalizing lhs cs with
  | zero => cases h
  | succ fuel ih =>
    rw [andLoop] at h
    split at h
    · obtain ⟨⟨rhs, rest'⟩, -, hloop⟩ := bind_eq_pure.mp h
      obtain ⟨hand, -⟩ := ih hloop
      exact absurd hand (he lhs rhs)
    · exact (Prod.mk.inj (pure_inj.mp h)).imp Eq.symm Eq.symm

theorem orLoop_inv {fuel : ℕ} {lhs e : Expr ℚ} {cs rest : List Char}
    (h : orLoop len fuel lhs cs = pure (e, rest)) (he : ∀ l r, e ≠ .or l r) :
    e = lhs ∧ rest = skipWhitespace cs := by
  induction fuel generalizing lhs cs with
  | zero => cases h
  | succ fuel ih =>
    rw [orLoop] at h
    split at h
    · obtain ⟨⟨rhs, rest'⟩, -, hloop⟩ := bind_eq_pure.mp h
      obtain ⟨hor, -⟩ := ih hloop
      exact absurd hor (he lhs rhs)
    · exact (Prod.mk.inj (pure_inj.mp h)).imp Eq.symm Eq.symm

/-- A source that is one literal is a term and nothing behind it. -/
theorem parse_literal {src : List Char} {v : Value ℚ} (h : parse src = pure (.literal v)) :
    ∃ fuel rest, parseTerm (bytes src).length (fuel + 1) (bytes src) = pure (.literal v, rest) ∧
      skipWhitespace rest = [] := by
  rw [parse] at h
  obtain ⟨⟨e, rest⟩, hor, hend⟩ := bind_eq_pure.mp h
  simp only at hend
  split at hend
  · rename_i hrest
    obtain rfl := pure_inj.mp hend
    rw [parseOr] at hor
    obtain ⟨⟨lhs, restAnd⟩, hand, hloop⟩ := bind_eq_pure.mp hor
    obtain ⟨rfl, rfl⟩ := orLoop_inv hloop fun l r h => by cases h
    generalize 7 * (bytes src).length + 6 = fuel at hand
    cases fuel with
    | zero => cases hand
    | succ fuel =>
      rw [parseAnd] at hand
      obtain ⟨⟨lhs, restCmp⟩, hcmp, hloop⟩ := bind_eq_pure.mp hand
      obtain ⟨rfl, rfl⟩ := andLoop_inv hloop fun l r h => by cases h
      cases fuel with
      | zero => cases hcmp
      | succ fuel =>
        rw [parseCmp] at hcmp
        obtain ⟨⟨lhs, restTerm⟩, hterm, hop⟩ := bind_eq_pure.mp hcmp
        simp only at hop
        split at hop
        · obtain ⟨⟨rhs, rest'⟩, -, hbin⟩ := bind_eq_pure.mp hop
          cases (Prod.mk.inj (pure_inj.mp hbin)).1
        · obtain ⟨rfl, rfl⟩ := Prod.mk.inj (pure_inj.mp hop)
          cases fuel with
          | zero => cases hterm
          | succ fuel => exact ⟨fuel, restTerm, hterm, by simpa using hrest⟩
  · cases Option.some.inj hend

/-- Where no other term begins, it is a number or there is none. -/
theorem parseTerm_numeral {fuel : ℕ} {c : Char} {cs cs' rest : List Char} {v : Value ℚ}
    (h : parseTerm len (fuel + 1) cs = pure (.literal v, rest)) (hcs : skipWhitespace cs = c :: cs')
    (hc : c ≠ '(' ∧ c ≠ '"' ∧ c ≠ '\'' ∧ c.isAlpha = false ∧ c ≠ '_') :
    (c.isDigit = true ∨ c = '-' ∨ c = '+') ∧
      (parseNumeral len (c :: cs') : Except ParseError (Value ℚ × List Char)) = .ok (v, rest) := by
  obtain ⟨hopen, hquote, htick, halpha, hunder⟩ := hc
  have hword : ¬(c.isAlpha = true ∨ c = '_') := by simp [halpha, hunder]
  rw [parseTerm, hcs] at h
  simp only [if_neg hopen, if_neg (not_or.mpr ⟨hquote, htick⟩), if_neg hword] at h
  split_ifs at h with hnumeral
  · obtain ⟨⟨v', rest'⟩, hread, hlit⟩ := bind_eq_pure.mp h
    obtain ⟨hv, rfl⟩ := Prod.mk.inj (pure_inj.mp hlit)
    obtain rfl := Expr.literal.inj hv
    exact ⟨hnumeral, read_eq_pure.mp hread⟩
  · cases Option.some.inj h

theorem parseNumeral_inv {cs rest' : List Char} {v' : Value ℚ}
    (h : (parseNumeral len cs : Except ParseError (Value ℚ × List Char)) = .ok (v', rest')) :
    ∃ v rest, (parseNumber len cs : Except ParseError (Value ℚ × List Char)) = .ok (v, rest) ∧
      ((∃ x, duration? v rest = some (x, rest') ∧ v' = .num x) ∨ duration? v rest = none ∧
        ((∃ x, clock? len v rest = some (x, rest') ∧ v' = .num x) ∨
          clock? len v rest = none ∧ v' = v ∧ rest' = rest)) := by
  rw [parseNumeral] at h
  cases hnumber : (parseNumber len cs : Except ParseError (Value ℚ × List Char)) with
  | error e =>
    rw [hnumber] at h
    cases h
  | ok r =>
    obtain ⟨v, rest⟩ := r
    rw [hnumber] at h
    refine ⟨v, rest, rfl, ?_⟩
    dsimp only [bind, Except.bind] at h
    cases hduration : duration? v rest with
    | some r =>
      obtain ⟨x, rest''⟩ := r
      simp only [hduration] at h
      obtain ⟨rfl, rfl⟩ := Prod.mk.inj (Except.ok.inj h)
      exact .inl ⟨x, rfl, rfl⟩
    | none =>
      simp only [hduration] at h
      refine .inr ⟨rfl, ?_⟩
      cases hclock : clock? len v rest with
      | some r =>
        obtain ⟨x, rest''⟩ := r
        simp only [hclock] at h
        obtain ⟨rfl, rfl⟩ := Prod.mk.inj (Except.ok.inj h)
        exact .inl ⟨x, rfl, rfl⟩
      | none =>
        simp only [hclock] at h
        obtain ⟨rfl, rfl⟩ := Prod.mk.inj (Except.ok.inj h)
        exact .inr ⟨rfl, rfl, rfl⟩

/-! ### Numbers -/

theorem signed_cases (text : List Char) : text = (signed text).1 ++ (signed text).2 ∧
    ((signed text).1 = [] ∨ (signed text).1 = ['-'] ∨ (signed text).1 = ['+']) := by
  cases text with
  | nil => exact ⟨rfl, .inl rfl⟩
  | cons c cs =>
    by_cases hminus : c = '-'
    · subst hminus
      exact ⟨rfl, .inr (.inl rfl)⟩
    · by_cases hplus : c = '+'
      · subst hplus
        exact ⟨rfl, .inr (.inr rfl)⟩
      · have hnone : (signed (c :: cs)).1 = [] := by simp [signed, hminus, hplus]
        refine ⟨?_, .inl hnone⟩
        simp [signed, hminus, hplus]

theorem signed_append {text : List Char} (h : text ≠ []) (tail : List Char) :
    signed (text ++ tail) = ((signed text).1, (signed text).2 ++ tail) := by
  obtain ⟨c, cs, rfl⟩ := List.exists_cons_of_ne_nil h
  by_cases hsign : (c = '-' || c = '+') = true <;> simp [signed, hsign]

theorem signed_of_digits {sign digits : List Char} (hsign : sign = [] ∨ sign = ['-'] ∨ sign = ['+'])
    (hdigits : IsDigits digits) : signed (sign ++ digits) = (sign, digits) := by
  rcases hsign with rfl | rfl | rfl
  · obtain ⟨d, ds, rfl, hd⟩ := hdigits.head
    have hplain : ¬((d = '-' || d = '+') = true) := by
      simp only [Bool.or_eq_true, decide_eq_true_eq]
      rintro (rfl | rfl) <;> simp at hd
    simp [signed, hplain]
  · rfl
  · rfl

theorem takeWhile_digits {digits : List Char} (h : ∀ c ∈ digits, c.isDigit = true) :
    digits.takeWhile Char.isDigit = digits ∧ digits.dropWhile Char.isDigit = [] := by
  have hnone : ∀ c ∈ ([] : List Char).head?, c.isDigit = false := by simp
  simpa using takeWhile_of_forall h hnone

theorem parseF64_of_digits {sign digits : List Char}
    (hsign : sign = [] ∨ sign = ['-'] ∨ sign = ['+']) (hdigits : IsDigits digits) :
    parseF64 (sign ++ digits) = some (if sign = ['-'] then -(Nat.ofDigitChars 10 digits 0 : ℚ)
      else (Nat.ofDigitChars 10 digits 0 : ℚ)) := by
  obtain ⟨htake, hdrop⟩ := takeWhile_digits hdigits.2
  rw [parseF64, signed_of_digits hsign hdigits]
  simp [htake, hdrop, hdigits.1]

/-- A number is its digits, or digits around a point. -/
theorem parseF64_inv {text : List Char} {n : ℚ} (h : parseF64 text = some n) :
    ∃ whole frac, (∀ c ∈ whole, c.isDigit = true) ∧ (∀ c ∈ frac, c.isDigit = true) ∧
      whole ++ frac ≠ [] ∧
        ((signed text).2 = whole ∧ frac = [] ∨ (signed text).2 = whole ++ '.' :: frac) := by
  rw [parseF64] at h
  simp only at h
  split_ifs at h with hcond hneg
  all_goals
    obtain ⟨hne, hshape⟩ := hcond
    refine ⟨(signed text).2.takeWhile Char.isDigit, ((signed text).2.dropWhile Char.isDigit).drop 1,
      fun c hc => List.mem_takeWhile_imp hc, ?_, hne, ?_⟩
    · rcases hshape with hwhole | ⟨-, hfrac⟩
      · have hdrop : (signed text).2.dropWhile Char.isDigit = [] :=
          (takeWhile_digits (hwhole ▸ fun c hc => List.mem_takeWhile_imp hc)).2
        simp [hdrop]
      · exact List.all_eq_true.mp hfrac
    · have hsplit : (signed text).2.takeWhile Char.isDigit ++ (signed text).2.dropWhile Char.isDigit =
          (signed text).2 := List.takeWhile_append_dropWhile ..
      rcases hshape with hwhole | ⟨hpoint, hfrac⟩
      · have hdrop : (signed text).2.dropWhile Char.isDigit = [] := by
          rwa [← hwhole, List.append_right_eq_self] at hsplit
        simp [hdrop, ← hwhole]
      · right
        obtain ⟨rest, hrest⟩ : ∃ rest, (signed text).2.dropWhile Char.isDigit = '.' :: rest := by
          cases hdrop : (signed text).2.dropWhile Char.isDigit with
          | nil => simp [hdrop] at hpoint
          | cons c rest => exact ⟨rest, by simpa [hdrop] using hpoint⟩
        rw [hrest] at hsplit ⊢
        exact hsplit.symm

theorem parseDigits_eq_some {digits : List Char} {n : ℕ} :
    Protocol.parseDigits digits = some n ↔ IsDigits digits ∧ n = Nat.ofDigitChars 10 digits 0 := by
  have hall : digits ≠ [] ∧ digits.all Char.isDigit = true ↔ IsDigits digits :=
    and_congr_right fun _ => List.all_eq_true
  rw [Protocol.parseDigits]
  split_ifs with h
  · rw [Option.some_inj, and_iff_right (hall.mp h), eq_comm]
  · refine ⟨fun hnone => ?_, fun hdigits => absurd (hall.mpr hdigits.1) h⟩
    cases hnone

theorem parseI64_value {text : List Char} {i : Int64} (h : parseI64 text = some i) :
    parseF64 text = some (i.toInt : ℚ) := by
  rw [parseI64] at h
  split at h
  · rename_i z hz
    split_ifs at h with hrange
    obtain rfl := Option.some.inj h
    rw [Int64.toInt_ofInt_of_le hrange.1 hrange.2]
    unfold Protocol.parseInt at hz
    split at hz
    · rename_i digits
      obtain ⟨z', hz', rfl⟩ := Option.map_eq_some_iff.mp hz
      obtain ⟨n, hn, hcast⟩ := Option.bind_eq_some_iff.mp hz'
      obtain rfl := Option.some.inj hcast
      obtain ⟨hdigits, rfl⟩ := parseDigits_eq_some.mp hn
      simpa using parseF64_of_digits (.inr (.inl rfl)) hdigits
    · rename_i digits
      obtain ⟨z', hz', rfl⟩ := Option.map_eq_some_iff.mp hz
      obtain ⟨n, hn, hcast⟩ := Option.bind_eq_some_iff.mp hz'
      obtain rfl := Option.some.inj hcast
      obtain ⟨hdigits, rfl⟩ := parseDigits_eq_some.mp hn
      simpa using parseF64_of_digits (.inr (.inr rfl)) hdigits
    · obtain ⟨z', hz', rfl⟩ := Option.map_eq_some_iff.mp hz
      obtain ⟨n, hn, hcast⟩ := Option.bind_eq_some_iff.mp hz'
      obtain rfl := Option.some.inj hcast
      obtain ⟨hdigits, rfl⟩ := parseDigits_eq_some.mp hn
      simpa using parseF64_of_digits (.inl rfl) hdigits
  · cases h

theorem parseU64_value {text : List Char} {a : U64} (h : parseU64 text = some a) :
    parseF64 text = some (a.1 : ℚ) := by
  rw [parseU64] at h
  obtain ⟨n, hn, ha⟩ := Option.bind_eq_some_iff.mp h
  have hvalue : a.1 = n := by
    unfold checkedU64 at ha
    split_ifs at ha
    rw [← Option.some.inj ha]
  obtain ⟨hdigits, rfl⟩ := parseDigits_eq_some.mp hn
  rw [hvalue]
  by_cases hplus : text.head? = some '+'
  · obtain ⟨ds, rfl⟩ : ∃ ds, text = '+' :: ds := by
      cases text with
      | nil => simp at hplus
      | cons c cs => exact ⟨cs, by simpa using hplus⟩
    simpa using parseF64_of_digits (.inr (.inr rfl)) hdigits
  · rw [if_neg hplus] at hdigits ⊢
    simpa using parseF64_of_digits (.inl rfl) hdigits

theorem scanNumber_point {whole tail : List Char} (hwhole : ∀ c ∈ whole, c.isDigit = true)
    (htail : ∀ c ∈ tail.head?, c.isDigit = false) :
    scanNumber false (whole ++ '.' :: tail) = (whole, false, '.' :: tail) := by
  induction whole with
  | nil =>
    have hnext : tail.head?.any Char.isDigit = false := by
      cases tail with
      | nil => rfl
      | cons c tail => exact htail c rfl
    rw [List.nil_append, scanNumber, if_neg (by decide), if_neg (by simp [hnext])]
  | cons c whole ih =>
    obtain ⟨hc, hwhole⟩ := List.forall_mem_cons.mp hwhole
    rw [List.cons_append, scanNumber, if_pos hc, ih hwhole]

theorem parseNumber_of_scan {cs digits rest rest' : List Char} {sawDot : Bool} {v : Value ℚ}
    (hscan : scanNumber false (signed cs).2 = (digits, sawDot, rest))
    (h : (parseNumber len cs : Except ParseError (Value ℚ × List Char)) = .ok (v, rest')) :
    rest' = rest ∧ (sawDot = true ∧ (∃ x, parseF64 ((signed cs).1 ++ digits) = some x ∧ v = .num x) ∨
      sawDot = false ∧ ∃ i, parseI64 ((signed cs).1 ++ digits) = some i ∧ v = .int i) := by
  have hscan' : scanNumber false
      (cs.drop ((cs.take 1).filter fun c => c = '-' || c = '+').length) = (digits, sawDot, rest) := hscan
  rw [parseNumber] at h
  simp only [hscan'] at h
  split at h
  · rename_i v' hvalue
    obtain ⟨rfl, rfl⟩ := Prod.mk.inj (Except.ok.inj h)
    refine ⟨rfl, ?_⟩
    split_ifs at hvalue with hnone hdot
    · obtain ⟨x, hx, rfl⟩ := Option.map_eq_some_iff.mp hvalue
      exact .inl ⟨hdot, x, hx, rfl⟩
    · obtain ⟨i, hi, rfl⟩ := Option.map_eq_some_iff.mp hvalue
      exact .inr ⟨by simpa using hdot, i, hi, rfl⟩
  · cases h

/-- What is read in front of a tail that goes on with no number: the whole text, or all but a point at
    its end. -/
theorem parseNumber_text {text tail rest : List Char} {n : ℚ} {v : Value ℚ}
    (hn : parseF64 text = some n) (htail : ∀ c ∈ tail.head?, c.isDigit = false ∧ c ≠ '.')
    (h : (parseNumber len (text ++ tail) : Except ParseError (Value ℚ × List Char)) =
      .ok (v, rest)) :
    rest = tail ∧ v.seconds = some n ∨ ∃ rest', rest = '.' :: rest' := by
  have hne : text ≠ [] := by
    rintro rfl
    cases hn
  obtain ⟨htext, -⟩ := signed_cases text
  obtain ⟨whole, frac, hwhole, hfrac, hsome, hshape⟩ := parseF64_inv hn
  have hsigned := signed_append hne tail
  have hsign : (signed (text ++ tail)).1 = (signed text).1 := by rw [hsigned]
  have hdigits : (signed (text ++ tail)).2 = (signed text).2 ++ tail := by rw [hsigned]
  rcases hshape with ⟨hshape, -⟩ | hshape
  · have hscan : scanNumber false (signed (text ++ tail)).2 = (whole, false, tail) := by
      rw [hdigits, hshape]
      exact scanNumber_digits false hwhole fun c hc => ⟨(htail c hc).1, .inr (htail c hc).2⟩
    obtain ⟨rfl, hvalue⟩ := parseNumber_of_scan hscan h
    refine .inl ⟨rfl, ?_⟩
    rw [hsign, ← hshape, ← htext] at hvalue
    rcases hvalue with ⟨hfalse, -⟩ | ⟨-, i, hi, rfl⟩
    · cases hfalse
    · exact (parseI64_value hi).symm.trans hn
  · by_cases hnofrac : frac = []
    · subst hnofrac
      have hscan : scanNumber false (signed (text ++ tail)).2 = (whole, false, '.' :: tail) := by
        rw [hdigits, hshape, List.append_assoc]
        exact scanNumber_point hwhole fun c hc => (htail c hc).1
      exact .inr ⟨tail, (parseNumber_of_scan hscan h).1⟩
    · have hscan : scanNumber false (signed (text ++ tail)).2 = (whole ++ '.' :: frac, true, tail) := by
        rw [hdigits, hshape]
        exact scanNumber_decimal hwhole ⟨hnofrac, hfrac⟩ fun c hc => (htail c hc).1
      obtain ⟨rfl, hvalue⟩ := parseNumber_of_scan hscan h
      refine .inl ⟨rfl, ?_⟩
      rw [hsign, ← hshape, ← htext] at hvalue
      rcases hvalue with ⟨-, x, hx, rfl⟩ | ⟨hfalse, -⟩
      · exact hx.symm.trans hn
      · cases hfalse

/-! ### White space and units -/

/-- A byte of a white space character of Unicode. -/
def IsBlank (b : Char) : Prop := isAsciiWhitespace b = true ∨ b = '\x0b' ∨ 128 ≤ b.toNat

theorem isBlank_bytes {s : List Char} (h : ∀ c ∈ s, isWhitespace c = true) :
    ∀ b ∈ bytes s, IsBlank b := by
  induction s with
  | nil => simp [bytes]
  | cons c s ih =>
    obtain ⟨hc, hs⟩ := List.forall_mem_cons.mp h
    intro b hb
    rw [bytes_cons] at hb
    rcases List.mem_append.mp hb with hb | hb
    · by_cases hascii : c.toNat < 128
      · rw [bytes_singleton hascii] at hb
        obtain rfl := List.mem_singleton.mp hb
        have hvalue : b.toNat ∈ [9, 10, 11, 12, 13, 32] := by
          simp only [isWhitespace, Bool.or_eq_true, Bool.and_eq_true, decide_eq_true_eq] at hc
          simp only [List.mem_cons, List.not_mem_nil, or_false]
          omega
        have hchar : ∀ d : Char, b.toNat = d.toNat → b = d := fun d hd => Char.toNat_inj.mp hd
        simp only [List.mem_cons, List.not_mem_nil, or_false] at hvalue
        rcases hvalue with h | h | h | h | h | h
        · exact .inl (hchar '\t' h ▸ by decide)
        · exact .inl (hchar '\n' h ▸ by decide)
        · exact .inr (.inl (hchar '\x0b' h))
        · exact .inl (hchar '\x0c' h ▸ by decide)
        · exact .inl (hchar '\r' h ▸ by decide)
        · exact .inl (hchar ' ' h ▸ by decide)
      · exact .inr (.inr ((bytes_singleton_of_le (not_lt.mp hascii)).2 b hb))
    · exact ih hs b hb

/-- White space is no part of a number, a unit or a time. -/
theorem IsBlank.ends {b : Char} (h : IsBlank b) :
    b.isDigit = false ∧ b ≠ '.' ∧ b.isLower = false ∧ b ≠ ':' := by
  rcases h with h | rfl | h
  · simp only [isAsciiWhitespace, Bool.or_eq_true, decide_eq_true_eq] at h
    rcases h with (((rfl | rfl) | rfl) | rfl) | rfl <;> decide
  · decide
  · have hdigit : ¬b.isDigit = true := fun hd => absurd (isAscii_of_isDigit hd) (not_lt.mpr h)
    have hlower : ¬b.isLower = true := by
      intro hl
      have hbyte : isIdentByte b = true := by simp [isIdentByte, Char.isAlphanum, isAlpha_eq, hl]
      exact absurd (isAscii_of_isIdentByte hbyte) (not_lt.mpr h)
    refine ⟨by simpa using hdigit, ?_, by simpa using hlower, ?_⟩
    all_goals
      rintro rfl
      revert h
      decide

theorem unit_spec {unit : List Char} {k : ℚ} (h : unitSeconds unit = some k) :
    (∀ c ∈ unit, c.isLower = true) ∧ (unit = [] ∧ k = 1 ∨
      unit ≠ [] ∧ isDurationSuffix unit = true ∧ ∀ n : ℚ, scaleBySuffix n unit = n * k) := by
  have h60 : (F64.ofInt 60 : ℚ) = 60 := by decide +kernel
  have h1000 : (F64.ofInt 1000 : ℚ) = 1000 := by decide +kernel
  have h3600 : (F64.ofInt 3600 : ℚ) = 3600 := by decide +kernel
  have hlist : ∀ {text : String}, String.ofList unit = text → unit = text.toList := by
    intro text htext
    rw [← htext, String.toList_ofList]
  unfold unitSeconds at h
  split at h <;> cases h
  all_goals
    rename_i htext
    obtain rfl := hlist htext
  · exact ⟨List.all_eq_true.mp (by decide), .inl ⟨rfl, rfl⟩⟩
  all_goals
    refine ⟨List.all_eq_true.mp (by decide), .inr ⟨by decide, by decide, fun n => ?_⟩⟩
    simp [scaleBySuffix, h60, h1000, h3600]
  ring

/-! ### Times -/

theorem duration?_eq_none {tail : List Char} (h : ∀ c ∈ tail.head?, c.isLower = false) (v : Value ℚ) :
    duration? v tail = none := by
  have htake : tail.takeWhile Char.isLower = [] := by
    simpa using (takeWhile_of_forall (s := []) (by simp) h).1
  unfold duration?
  rw [htake]
  simp

theorem duration?_unit {v : Value ℚ} {n : ℚ} (hv : v.seconds = some n) {unit cs : List Char}
    (htake : cs.takeWhile Char.isLower = unit) (hne : unit ≠ [])
    (hsuffix : isDurationSuffix unit = true) :
    duration? v cs = some (scaleBySuffix n unit, cs.dropWhile Char.isLower) := by
  subst htake
  cases v with
  | int i =>
    obtain rfl := Option.some.inj hv
    exact if_pos ⟨hne, hsuffix⟩
  | num x =>
    obtain rfl := Option.some.inj hv
    exact if_pos ⟨hne, hsuffix⟩
  | str s => cases hv
  | bool b => cases hv

theorem clock?_eq_none {tail : List Char} (h : ∀ c ∈ tail.head?, c ≠ ':') (v : Value ℚ) :
    clock? len v tail = none := by
  unfold clock?
  split
  · exact absurd rfl (h ':' rfl)
  · rfl

/-- A number and its unit, with white space behind. -/
theorem numeral_number {text unit blanks rest : List Char} {n k : ℚ} {v : Value ℚ}
    (hn : parseF64 text = some n) (hk : unitSeconds unit = some k) (hblanks : ∀ b ∈ blanks, IsBlank b)
    (h : (parseNumeral len (text ++ (unit ++ blanks)) : Except ParseError (Value ℚ × List Char)) =
      .ok (v, rest)) (hrest : skipWhitespace rest = []) : v.seconds = some (n * k) := by
  obtain ⟨hlower, hunit⟩ := unit_spec hk
  have hblank : ∀ c ∈ blanks.head?, IsBlank c := fun c hc => hblanks c (List.mem_of_mem_head? hc)
  have htail : ∀ c ∈ (unit ++ blanks).head?, c.isDigit = false ∧ c ≠ '.' := by
    intro c hc
    cases unit with
    | nil =>
      obtain ⟨hdigit, hdot, -, -⟩ := (hblank c hc).ends
      exact ⟨hdigit, hdot⟩
    | cons d unit =>
      obtain rfl : d = c := by simpa using hc
      have hd := hlower d List.mem_cons_self
      have halpha : d.isAlpha = true := by simp [isAlpha_eq, hd]
      refine ⟨(not_special_of_alpha (.inl halpha)).2, ?_⟩
      rintro rfl
      cases hd
  obtain ⟨htake, hdrop⟩ := takeWhile_of_forall hlower fun c hc => (hblank c hc).ends.2.2.1
  obtain ⟨v', rest', hnumber, hcases⟩ := parseNumeral_inv h
  rcases parseNumber_text hn htail hnumber with ⟨rfl, hv⟩ | ⟨rest'', rfl⟩
  · rcases hunit with ⟨rfl, rfl⟩ | ⟨hne, hsuffix, hscale⟩
    · rw [List.nil_append, duration?_eq_none fun c hc => (hblank c hc).ends.2.2.1,
        clock?_eq_none fun c hc => (hblank c hc).ends.2.2.2] at hcases
      rcases hcases with ⟨x, hx, -⟩ | ⟨-, ⟨x, hx, -⟩ | ⟨-, rfl, -⟩⟩
      · cases hx
      · cases hx
      · rw [hv, mul_one]
    · have hduration : duration? v' (unit ++ blanks) = some (n * k, blanks) := by
        rw [duration?_unit hv htake hne hsuffix, hdrop, hscale]
      rw [hduration] at hcases
      rcases hcases with ⟨x, hx, rfl⟩ | ⟨hnone, -⟩
      · rw [← (Prod.mk.inj (Option.some.inj hx)).1]
        rfl
      · cases hnone
  · -- The point is left, and no literal goes on with it.
    have hpoint : ∀ c ∈ ('.' :: rest'').head?, c.isLower = false ∧ c ≠ ':' := by
      intro c hc
      obtain rfl : '.' = c := by simpa using hc
      decide
    rw [duration?_eq_none fun c hc => (hpoint c hc).1, clock?_eq_none fun c hc => (hpoint c hc).2]
      at hcases
    rcases hcases with ⟨x, hx, -⟩ | ⟨-, ⟨x, hx, -⟩ | ⟨-, -, rfl⟩⟩
    · cases hx
    · cases hx
    · rw [skipWhitespace_of_head (by decide)] at hrest
      cases hrest

/-- A number in front of a colon or of the end is read whole, or what is left begins with a point. -/
theorem parseNumber_part {text tail rest : List Char} {a : U64} {v : Value ℚ}
    (ha : parseU64 text = some a) (htail : ∀ c ∈ tail.head?, c = ':' ∨ IsBlank c)
    (h : (parseNumber len (text ++ tail) : Except ParseError (Value ℚ × List Char)) =
      .ok (v, rest)) :
    rest = tail ∧ v.seconds = some (a.1 : ℚ) ∨ ∃ rest', rest = '.' :: rest' := by
  refine parseNumber_text (parseU64_value ha) (fun c hc => ?_) h
  rcases htail c hc with rfl | hblank
  · decide
  · exact ⟨hblank.ends.1, hblank.ends.2.1⟩

theorem clock?_inv {v : Value ℚ} {cs rest : List Char} {x : ℚ} (h : clock? len v cs = some (x, rest)) :
    ∃ a b c cs₁ cs₂, v = .int a ∧ cs = ':' :: cs₁ ∧
      (parseNumber len cs₁ : Except ParseError (Value ℚ × List Char)) = .ok (.int b, ':' :: cs₂) ∧
      (parseNumber len cs₂ : Except ParseError (Value ℚ × List Char)) = .ok (.int c, rest) ∧
      x = a.toInt * 3600 + b.toInt * 60 + c.toInt := by
  have h60 : (F64.ofInt 60 : ℚ) = 60 := by decide +kernel
  have h3600 : (F64.ofInt 3600 : ℚ) = 3600 := by decide +kernel
  unfold clock? at h
  split at h
  · rename_i a cs₁
    split at h
    · rename_i b cs₂ hb
      split at h
      · rename_i c rest' hc
        obtain ⟨rfl, rfl⟩ := Prod.mk.inj (Option.some.inj h)
        refine ⟨a, b, c, cs₁, cs₂, rfl, rfl, hb, hc, ?_⟩
        rw [h60, h3600]
        rfl
      · cases h
    · cases h
  · cases h

/-- Three numbers with colons between them. -/
theorem numeral_clock {x y z blanks rest : List Char} {a b c : U64} {v : Value ℚ}
    (ha : parseU64 x = some a) (hb : parseU64 y = some b) (hc : parseU64 z = some c)
    (hblanks : ∀ b ∈ blanks, IsBlank b)
    (h : (parseNumeral len (x ++ ':' :: (y ++ ':' :: (z ++ blanks))) :
      Except ParseError (Value ℚ × List Char)) = .ok (v, rest)) (hrest : skipWhitespace rest = []) :
    v.seconds = some ((a.1 : ℚ) * 3600 + b.1 * 60 + c.1) := by
  have hblank : ∀ c ∈ blanks.head?, c = ':' ∨ IsBlank c := fun c hc =>
    .inr (hblanks c (List.mem_of_mem_head? hc))
  have hcolon : ∀ cs : List Char, ∀ c ∈ (':' :: cs).head?, c = ':' ∨ IsBlank c := fun cs c hc =>
    .inl (by simpa [eq_comm] using hc)
  have hpoint : ∀ {cs cs' : List Char}, skipWhitespace cs = [] → cs ≠ '.' :: cs' := by
    rintro cs cs' hcs rfl
    rw [skipWhitespace_of_head (by decide)] at hcs
    cases hcs
  obtain ⟨v', rest', hnumber, hcases⟩ := parseNumeral_inv h
  have hnone : duration? v' rest' = none := by
    rcases parseNumber_part ha (hcolon _) hnumber with ⟨rfl, -⟩ | ⟨rest'', rfl⟩
    all_goals
      refine duration?_eq_none (fun c hc => ?_) v'
      obtain rfl := Option.some.inj hc
      decide
  rw [hnone] at hcases
  rcases hcases with ⟨x, hx, -⟩ | ⟨-, ⟨x, hx, rfl⟩ | ⟨-, -, rfl⟩⟩
  · cases hx
  · obtain ⟨i, j, l, cs₁, cs₂, rfl, rfl, hy, hz, rfl⟩ := clock?_inv hx
    rcases parseNumber_part ha (hcolon _) hnumber with ⟨heq, hi⟩ | ⟨rest'', heq⟩
    · obtain rfl := (List.cons.inj heq).2
      rcases parseNumber_part hb (hcolon _) hy with ⟨heq, hj⟩ | ⟨rest'', heq⟩
      · obtain rfl := (List.cons.inj heq).2
        rcases parseNumber_part hc hblank hz with ⟨-, hl⟩ | ⟨rest'', heq⟩
        · have hi := Option.some.inj hi
          have hj := Option.some.inj hj
          have hl := Option.some.inj hl
          rw [Value.seconds, hi, hj, hl]
        · exact absurd heq (hpoint hrest)
      · exact absurd (List.cons.inj heq).1 (by decide)
    · exact absurd (List.cons.inj heq).1 (by decide)
  · -- A colon or a point is left.
    rcases parseNumber_part ha (hcolon _) hnumber with ⟨rfl, -⟩ | ⟨rest'', heq⟩
    · rw [skipWhitespace_of_head (by decide)] at hrest
      cases hrest
    · exact absurd heq (hpoint hrest)

end

/-! ### Both parsers -/

/-- What numbers are written with. -/
def IsNumeric (c : Char) : Prop := c.isDigit = true ∨ c = '-' ∨ c = '+' ∨ c = '.'

theorem isNumeric_of_parseF64 {text : List Char} {n : ℚ} (h : parseF64 text = some n) :
    text ≠ [] ∧ ∀ c ∈ text, IsNumeric c := by
  obtain ⟨htext, hsign⟩ := signed_cases text
  obtain ⟨whole, frac, hwhole, hfrac, -, hshape⟩ := parseF64_inv h
  have hne : text ≠ [] := by
    rintro rfl
    cases h
  refine ⟨hne, fun c hc => ?_⟩
  rw [htext] at hc
  rcases List.mem_append.mp hc with hc | hc
  · rcases hsign with hsign | hsign | hsign <;> rw [hsign] at hc
    · cases hc
    · exact .inr (.inl (List.mem_singleton.mp hc))
    · exact .inr (.inr (.inl (List.mem_singleton.mp hc)))
  · rcases hshape with ⟨hshape, -⟩ | hshape <;> rw [hshape] at hc
    · exact .inl (hwhole c hc)
    · rcases List.mem_append.mp hc with hc | hc
      · exact .inl (hwhole c hc)
      · rcases List.mem_cons.mp hc with rfl | hc
        · exact .inr (.inr (.inr rfl))
        · exact .inl (hfrac c hc)

theorem IsNumeric.isAscii {c : Char} (h : IsNumeric c) : c.toNat < 128 := by
  rcases h with h | rfl | rfl | rfl
  · exact isAscii_of_isDigit h
  all_goals decide

theorem IsNumeric.begins {c : Char} (h : IsNumeric c) : isAsciiWhitespace c = false ∧
    c ≠ '(' ∧ c ≠ '"' ∧ c ≠ '\'' ∧ c.isAlpha = false ∧ c ≠ '_' := by
  rcases h with h | rfl | rfl | rfl
  · have halpha : ¬c.isAlpha = true := fun ha => by
      rw [(not_special_of_alpha (.inl ha)).2] at h
      cases h
    refine ⟨not_isAsciiWhitespace_of_isDigit h, ?_, ?_, ?_, by simpa using halpha, ?_⟩
    all_goals
      rintro rfl
      simp at h
  all_goals decide

/-- White space that is not the grammar's stays. -/
theorem skipWhitespace_blanks {blanks t : List Char} (h : ∀ b ∈ blanks, IsBlank b)
    (ht : ∀ c ∈ t.head?, isAsciiWhitespace c = false) : skipWhitespace (blanks ++ t) = t ∨
      ∃ b cs, skipWhitespace (blanks ++ t) = b :: cs ∧ (b = '\x0b' ∨ 128 ≤ b.toNat) := by
  induction blanks with
  | nil =>
    left
    cases t with
    | nil => rfl
    | cons c t => exact skipWhitespace_of_head (ht c rfl) t
  | cons b blanks ih =>
    obtain ⟨hb, hblanks⟩ := List.forall_mem_cons.mp h
    by_cases hascii : isAsciiWhitespace b = true
    · have hskip : skipWhitespace (b :: blanks ++ t) = skipWhitespace (blanks ++ t) :=
        List.dropWhile_cons_of_pos hascii
      rw [hskip]
      exact ih hblanks
    · exact .inr ⟨b, blanks ++ t, skipWhitespace_of_head (by simpa using hascii) _,
        hb.resolve_left hascii⟩

theorem not_numeral_of_odd {b : Char} (h : b = '\x0b' ∨ 128 ≤ b.toNat) :
    (b ≠ '(' ∧ b ≠ '"' ∧ b ≠ '\'' ∧ b.isAlpha = false ∧ b ≠ '_') ∧
      ¬(b.isDigit = true ∨ b = '-' ∨ b = '+') := by
  rcases h with rfl | h
  · decide
  · have hlarge : ∀ c : Char, c.toNat < 128 → b ≠ c := by
      rintro c hc rfl
      omega
    have halpha : ¬b.isAlpha = true := by
      intro ha
      have hbyte : isIdentByte b = true := by simp [isIdentByte, Char.isAlphanum, ha]
      exact absurd (isAscii_of_isIdentByte hbyte) (not_lt.mpr h)
    have hdigit : ¬b.isDigit = true := fun hd => absurd (isAscii_of_isDigit hd) (not_lt.mpr h)
    refine ⟨⟨hlarge _ (by decide), hlarge _ (by decide), hlarge _ (by decide), by simpa using halpha,
      hlarge _ (by decide)⟩, ?_⟩
    rintro (hd | hminus | hplus)
    · exact hdigit hd
    · exact hlarge _ (by decide) hminus
    · exact hlarge _ (by decide) hplus

/-- A text that begins with a number is one literal only if this is read to its end. -/
theorem numeral_of_literal {s before after text more : List Char} {n : ℚ} {v : Value ℚ}
    (hs : s = before ++ (text ++ more ++ after)) (hbefore : ∀ c ∈ before, isWhitespace c = true)
    (hn : parseF64 text = some n) (hmore : IsAscii more) (h : parse s = pure (.literal v)) :
    ∃ rest, (parseNumeral (bytes s).length (text ++ (more ++ bytes after)) :
      Except ParseError (Value ℚ × List Char)) = .ok (v, rest) ∧ skipWhitespace rest = [] := by
  obtain ⟨hne, hnumeric⟩ := isNumeric_of_parseF64 hn
  obtain ⟨c, text', rfl⟩ := List.exists_cons_of_ne_nil hne
  obtain ⟨hspace, hbegins⟩ := (hnumeric c List.mem_cons_self).begins
  have hascii : IsAscii (c :: text' ++ more) :=
    isAscii_append (fun d hd => (hnumeric d hd).isAscii) hmore
  have hbytes : bytes s = bytes before ++ (c :: text' ++ (more ++ bytes after)) := by
    rw [hs, bytes_append, bytes_append, bytes_of_isAscii hascii, List.append_assoc]
  obtain ⟨fuel, rest, hterm, hrest⟩ := parse_literal h
  have hhead : ∀ d ∈ (c :: text' ++ (more ++ bytes after)).head?, isAsciiWhitespace d = false := by
    intro d hd
    obtain rfl := Option.some.inj hd
    exact hspace
  rcases skipWhitespace_blanks (isBlank_bytes hbefore) hhead with hskip | ⟨b, cs, hskip, hodd⟩
  · rw [← hbytes] at hskip
    exact ⟨rest, (parseTerm_numeral hterm hskip hbegins).2, hrest⟩
  · rw [← hbytes] at hskip
    obtain ⟨hother, hno⟩ := not_numeral_of_odd hodd
    exact absurd (parseTerm_numeral hterm hskip hother).1 hno

/-- A literal of the expression parser stands for the time that `parse_duration` reads in the text. -/
theorem literal_seconds {alphabet : Alphabet} {s : List Char} {time : Time} {v : Value ℚ}
    (hnamed : named alphabet s = some time) (h : parse s = pure (.literal v)) :
    v.seconds = some time.seconds := by
  obtain ⟨before, after, hs, hbefore, hafter⟩ := trim_eq s
  have hblanks := isBlank_bytes hafter
  cases time with
  | number n unit k =>
    obtain ⟨numStr, htrim, hn, hk⟩ := named_number hnamed
    have hunit : IsAscii unit := by
      intro c hc
      have hlower := (unit_spec hk).1 c hc
      exact isAscii_of_isIdentByte (by simp [isIdentByte, Char.isAlphanum, isAlpha_eq, hlower])
    rw [htrim] at hs
    obtain ⟨rest, hnumeral, hrest⟩ := numeral_of_literal hs hbefore hn hunit h
    exact numeral_number hn hk hblanks hnumeral hrest
  | clock a b c =>
    obtain ⟨x, y, z, htrim, ha, hb, hc⟩ := named_clock hnamed
    have hpart : ∀ {text : List Char} {a : U64}, parseU64 text = some a → IsAscii text := by
      intro text a ha c hc
      exact ((isNumeric_of_parseF64 (parseU64_value ha)).2 c hc).isAscii
    have hcolon : IsAscii [':'] := fun c hc => List.mem_singleton.mp hc ▸ by decide
    have hmore : IsAscii (':' :: (y ++ ':' :: z)) :=
      isAscii_append hcolon (isAscii_append (hpart hb) (isAscii_append hcolon (hpart hc)))
    rw [htrim] at hs
    obtain ⟨rest, hnumeral, hrest⟩ := numeral_of_literal hs hbefore (parseU64_value ha) hmore h
    have hsplit : x ++ (':' :: (y ++ ':' :: z) ++ bytes after) =
        x ++ ':' :: (y ++ ':' :: (z ++ bytes after)) := by
      simp
    rw [hsplit] at hnumeral
    exact numeral_clock ha hb hc hblanks hnumeral hrest

/-- ASCII letters only. -/
def asciiAlphabet : Alphabet := ⟨Char.isAlpha, fun _ _ => rfl⟩

/-- The seconds of a source that is one literal. -/
def Expr.seconds? : Expr ℚ → Option ℚ
  | .literal v => v.seconds
  | _ => none

end Midas.Dsl.Expression
