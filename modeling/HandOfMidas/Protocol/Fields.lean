import Mathlib.Data.Int.Basic
import Mathlib.Data.Int.Order.Basic
import HandOfMidas.Lib.Codec
import HandOfMidas.Protocol.Framing

/-! The typed fields of TWS messages (`protocol/messages/fields.rs`) and the server versions that gate
    them. A field is the text of a number, a flag or a string; numbers have a value that stands for
    "unset", and an optional number is read as absent when it is empty or unset. For each kind of
    field the reader undoes the writer up to that value. -/

namespace Midas.Protocol

/-- The errors of `ProtocolError` that the message codec raises. `parseInt` and `parseFloat` carry
    the errors of the standard library's `parse`. -/
inductive MessageError where
  | unsupportedMsgId (id : Int32)
  | field (message : String)
  | parseInt
  | parseFloat
  deriving DecidableEq

/-! ### Server versions -/

def MIN_VERSION : ℤ := 176
def MAX_VERSION : ℤ := 221

/-- Values outside the advertised range cannot be built. -/
structure ServerVersion where
  raw : ℤ
  advertised : MIN_VERSION ≤ raw ∧ raw ≤ MAX_VERSION

def ServerVersion.new (v : ℤ) : Option ServerVersion :=
  if h : MIN_VERSION ≤ v ∧ v ≤ MAX_VERSION then some ⟨v, h⟩ else none

/-- `if version >= gate { x } else { y }`. -/
def since {α : Type} (v : ServerVersion) (gate : ℤ) (x y : α) : α := if gate ≤ v.raw then x else y

/-- `if version < gate { x } else { y }`. -/
def before {α : Type} (v : ServerVersion) (gate : ℤ) (x y : α) : α := if v.raw < gate then x else y

/-- What the oldest advertised version carries, every advertised version carries. -/
theorem since_eq {α : Type} (v : ServerVersion) {gate : ℤ} (h : gate ≤ MIN_VERSION) (x y : α) :
    since v gate x y = x := if_pos (le_trans h v.advertised.1)

theorem before_eq {α : Type} (v : ServerVersion) {gate : ℤ} (h : gate ≤ MIN_VERSION) (x y : α) :
    before v gate x y = y := if_neg (not_lt.mpr (le_trans h v.advertised.1))

/-! ### Text of numbers -/

/-- What the codec uses of `f64`, whose values are taken up to `==`. -/
class F64 (F : Type) where
  decEq : DecidableEq F
  zero : F
  /-- `f64::MAX`, which stands for "unset". -/
  max : F
  isNan : F → Bool
  isFinite : F → Bool
  isInfinite : F → Bool
  /-- `v > 0.0`. -/
  isPositive : F → Bool
  /-- `v.fract() == 0.0`. -/
  isIntegral : F → Bool
  /-- `v.abs() < 1e16`. -/
  isSmall : F → Bool
  /-- `v as i64` and `v as i32`. -/
  asI64 : F → ℤ
  asI32 : F → Int32
  /-- `n as f64`. -/
  ofI32 : Int32 → F
  /-- `format!("{v}")`. -/
  display : F → String
  parse : String → Option F

attribute [reducible, instance] F64.decEq

def UNSET_INT : Int32 := 2147483647
def UNSET_DOUBLE_STR : String := "1.7976931348623157E308"

def itoaI32 (v : Int32) : String := v.toInt.repr

/-- One or more decimal digits. -/
def parseDigits (digits : List Char) : Option ℕ :=
  if digits ≠ [] ∧ digits.all Char.isDigit then some (Nat.ofDigitChars 10 digits 0) else none

/-- An optional sign and digits, as `str::parse` takes them. -/
def parseInt (text : List Char) : Option ℤ :=
  match text with
  | '-' :: digits => (parseDigits digits).map fun n => -(n : ℤ)
  | '+' :: digits => (parseDigits digits).map fun n => (n : ℤ)
  | digits => (parseDigits digits).map fun n => (n : ℤ)

/-- `s.parse::<i32>()`. -/
def parseI32 (s : String) : Option Int32 :=
  match parseInt s.toList with
  | some n => if -2 ^ 31 ≤ n ∧ n < 2 ^ 31 then some (.ofInt n) else none
  | none => none

section Values

variable {F : Type} [F64 F]

/-- Integral values stay integral, exponents are upper case, the unset value and NaN have the
    canonical text. -/
def formatF64 (v : F) : String :=
  if v = F64.max then UNSET_DOUBLE_STR
  else if F64.isNan v then UNSET_DOUBLE_STR
  else if F64.isIntegral v ∧ F64.isFinite v ∧ F64.isSmall v then (F64.asI64 v).repr
  else .ofList ((F64.display v).toList.map fun c => if c = 'e' then 'E' else c)

/-- Formatting a number and parsing the text gives the number back; an empty text is no number. NaN
    is neither positive nor infinite, and `f64::MAX` is a finite number. -/
class LawfulF64 (F : Type) [F64 F] : Prop where
  max_not_nan : F64.isNan (F64.max : F) = false
  max_not_infinite : F64.isInfinite (F64.max : F) = false
  nan_not_positive : ∀ v : F, F64.isNan v = true → F64.isPositive v = false
  nan_not_infinite : ∀ v : F, F64.isNan v = true → F64.isInfinite v = false
  parse_empty : F64.parse (F := F) "" = none
  parse_format : ∀ v : F, F64.isNan v = false → F64.parse (formatF64 v) = some v

theorem parseDigits_toDigits (n : ℕ) : parseDigits (Nat.toDigits 10 n) = some n := by
  have hne : Nat.toDigits 10 n ≠ [] := List.ne_nil_of_length_pos Nat.length_toDigits_pos
  have hall : (Nat.toDigits 10 n).all Char.isDigit = true :=
    List.all_eq_true.mpr fun c hc => Nat.isDigit_of_mem_toDigits (by decide) (by decide) hc
  rw [parseDigits, if_pos ⟨hne, hall⟩, Nat.ofDigitChars_ten_toDigits]

/-- A text without a sign is read as its digits. -/
theorem parseInt_of_digits {cs : List Char} (h : ∀ c ∈ cs, c.isDigit) :
    parseInt cs = (parseDigits cs).map fun n => (n : ℤ) := by
  unfold parseInt
  split
  · exact absurd (h '-' List.mem_cons_self) (by decide)
  · exact absurd (h '+' List.mem_cons_self) (by decide)
  · rfl

/-- The decimal text of an integer is parsed back. -/
theorem parseInt_repr (n : ℤ) : parseInt n.repr.toList = some n := by
  cases n with
  | ofNat m =>
    have hdigits : (Int.ofNat m).repr.toList = Nat.toDigits 10 m := Nat.toList_repr
    rw [hdigits, parseInt_of_digits fun c hc =>
      Nat.isDigit_of_mem_toDigits (by decide) (by decide) hc, parseDigits_toDigits]
    rfl
  | negSucc m =>
    have hsign : (Int.negSucc m).repr.toList = '-' :: Nat.toDigits 10 (m + 1) := by
      show ("-" ++ (m + 1).repr).toList = _
      rw [String.toList_append, Nat.toList_repr]
      rfl
    rw [hsign]
    simp only [parseInt]
    rw [parseDigits_toDigits]
    rfl

theorem parseI32_itoaI32 (v : Int32) : parseI32 (itoaI32 v) = some v := by
  have hrange : -2 ^ 31 ≤ v.toInt ∧ v.toInt < 2 ^ 31 := ⟨v.le_toInt, v.toInt_lt⟩
  rw [parseI32, itoaI32, parseInt_repr]
  show (if -2 ^ 31 ≤ v.toInt ∧ v.toInt < 2 ^ 31 then _ else _) = _
  rw [if_pos hrange, Int32.ofInt_toInt]

/-- What is parsed is not empty. -/
theorem itoaI32_ne_empty (v : Int32) : itoaI32 v ≠ "" := by
  intro h
  have hv := parseI32_itoaI32 v
  rw [h] at hv
  cases hv

theorem formatF64_max : formatF64 (F64.max : F) = UNSET_DOUBLE_STR := if_pos rfl

theorem formatF64_nan {v : F} (h : F64.isNan v = true) : formatF64 v = UNSET_DOUBLE_STR := by
  by_cases hmax : v = F64.max
  · rw [hmax, formatF64_max]
  · rw [formatF64, if_neg hmax, if_pos h]

section Lawful

variable [LawfulF64 F]

/-- The canonical text of the unset value is the unset value. -/
theorem parse_unset : F64.parse UNSET_DOUBLE_STR = some (F64.max : F) := by
  rw [← formatF64_max (F := F), LawfulF64.parse_format (F64.max : F) LawfulF64.max_not_nan]

theorem formatF64_ne_empty (v : F) : formatF64 v ≠ "" := by
  intro h
  by_cases hnan : F64.isNan v = true
  · rw [formatF64_nan hnan] at h
    exact absurd h (by decide)
  · have hv := LawfulF64.parse_format v (Bool.not_eq_true _ ▸ hnan)
    rw [h, LawfulF64.parse_empty] at hv
    cases hv

end Lawful

/-! ### Readers -/

abbrev FieldReader (α : Type) := Reading MessageError Bytes α

/-- The next raw field. -/
def takeRaw : FieldReader Bytes := fun c =>
  match c.all[c.idx]? with
  | some field => .ok (field, c.advance 1)
  | none => .error (.field s!"unexpected end of fields at index {c.idx} (len={c.all.length})")

/-- The next field as UTF-8. -/
def takeStr : FieldReader String := do
  let raw ← takeRaw
  match String.fromUTF8? ⟨raw.toArray⟩ with
  | some s => pure s
  | none => throw (.field "invalid utf-8 in field")

def readI32 : FieldReader Int32 := do
  let s ← takeStr
  if s = "" then throw (.field "expected i32, got empty field") else
  match parseI32 s with
  | some v => pure v
  | none => throw .parseInt

def readF64 : FieldReader F := do
  let s ← takeStr
  if s = "" then throw (.field "expected f64, got empty field") else
  match F64.parse s with
  | some v => pure v
  | none => throw .parseFloat

def readString : FieldReader String := takeStr

/-- Empty is false, and so is what is no number; any number but zero is true. -/
def readBool : FieldReader Bool := do
  let s ← takeStr
  if s = "" then pure false else pure ((parseI32 s).getD 0 ≠ 0)

/-- Absent if empty or unset. -/
def readOptI32 : FieldReader (Option Int32) := do
  let s ← takeStr
  if s = "" then pure none else
  match parseI32 s with
  | some v => pure (if v = UNSET_INT then none else some v)
  | none => throw .parseInt

def readOptF64 : FieldReader (Option F) := do
  let s ← takeStr
  if s = "" ∨ s = UNSET_DOUBLE_STR then pure none else
  match F64.parse s with
  | some v => pure (if v = F64.max then none else some v)
  | none => throw .parseFloat

/-! ### Writers -/

abbrev FieldWriter := Writing Bytes Unit

/-- The bytes of a string. -/
def utf8 (s : String) : Bytes := s.toUTF8.data.toList

def skip : FieldWriter := pure ()

def pushRaw (bytes : Bytes) : FieldWriter := fun pushed => ((), pushed ++ [bytes])

def writeString (s : String) : FieldWriter := pushRaw (utf8 s)

def writeI32 (v : Int32) : FieldWriter := writeString (itoaI32 v)

def writeF64 (v : F) : FieldWriter := writeString (formatF64 v)

def writeBool (v : Bool) : FieldWriter := writeString (if v then "1" else "0")

def writeOptI32 : Option Int32 → FieldWriter
  | some v => writeI32 v
  | none => writeI32 UNSET_INT

def writeOptF64 : Option F → FieldWriter
  | some v => writeF64 v
  | none => writeString UNSET_DOUBLE_STR

/-- The payload of a writer, each field ended by NUL (`buf`). -/
def FieldWriter.buf (w : FieldWriter) : Bytes := (w []).2.flatMap fun f => f ++ [0]

/-- The fields the framing codec will split off the payload. -/
def FieldWriter.intoFields (w : FieldWriter) : List Bytes := splitFields [] w.buf

/-! ### What a written value is read as -/

/-- NaN is written as the unset value. -/
def wireF64 (v : F) : F := if F64.isNan v then F64.max else v

/-- An optional number that is unset is absent. -/
def wireOptI32 (o : Option Int32) : Option Int32 := if o = some UNSET_INT then none else o

def wireOptF64 : Option F → Option F
  | some v => if v = F64.max ∨ F64.isNan v then none else some v
  | none => none

end Values

/-! ### Integral numbers -/

/-- The `f64` values without a fraction, as long as their digits are exact. -/
instance integralF64 : F64 ℤ where
  decEq := inferInstance
  zero := 0
  max := (2 ^ 53 - 1) * 2 ^ 971
  isNan _ := false
  isFinite _ := true
  isInfinite _ := false
  isPositive v := 0 < v
  isIntegral _ := true
  isSmall v := v.natAbs < 10 ^ 16
  asI64 v := v
  asI32 v := .ofInt v
  ofI32 n := n.toInt
  display v := v.repr
  parse s := if s = UNSET_DOUBLE_STR then some ((2 ^ 53 - 1) * 2 ^ 971) else parseInt s.toList

/-- Decimal digits have no exponent to put in upper case. -/
theorem format_integral {v : ℤ} (h : v ≠ F64.max) : formatF64 v = v.repr := by
  have hdigits : ∀ c ∈ v.repr.toList, (if c = 'e' then 'E' else c) = c := by
    intro c hc
    refine if_neg fun he => ?_
    subst he
    cases v with
    | ofNat n =>
      have hdigit := Nat.isDigit_of_mem_toDigits (by decide) (by decide) (Nat.toList_repr ▸ hc)
      exact absurd hdigit (by decide)
    | negSucc n =>
      have hmem : 'e' ∈ ("-" ++ (n + 1).repr).toList := hc
      rw [String.toList_append, Nat.toList_repr] at hmem
      rcases List.mem_append.mp hmem with hsign | hmem
      · exact absurd hsign (by decide)
      · exact absurd (Nat.isDigit_of_mem_toDigits (by decide) (by decide) hmem) (by decide)
  have hmap : v.repr.toList.map (fun c => if c = 'e' then 'E' else c) = v.repr.toList := by
    rw [List.map_congr_left hdigits, List.map_id']
  rw [formatF64, if_neg h]
  show (if _ then v.repr else .ofList (v.repr.toList.map _)) = _
  rw [hmap, String.ofList_toList]
  exact ite_self _

instance : LawfulF64 ℤ where
  max_not_nan := rfl
  max_not_infinite := rfl
  nan_not_positive _ h := by cases h
  nan_not_infinite _ h := by cases h
  parse_empty := by decide +kernel
  parse_format v _ := by
    by_cases h : v = F64.max
    · rw [h, formatF64_max]
      exact if_pos rfl
    · have hdot : parseInt UNSET_DOUBLE_STR.toList = none := by decide +kernel
      have htext : v.repr ≠ UNSET_DOUBLE_STR := by
        intro heq
        have hv := parseInt_repr v
        rw [heq, hdot] at hv
        cases hv
      rw [format_integral h]
      exact (if_neg htext).trans (parseInt_repr v)

end Midas.Protocol

namespace Midas.Undoes

open Midas.Protocol

theorem str (s : String) : Undoes readString (writeString s) s := by
  refine ⟨[utf8 s], fun pushed => rfl, fun c hc => ?_⟩
  obtain ⟨tail, htail⟩ := hc
  have hfield : c.all[c.idx]? = some (utf8 s) := by
    rw [← List.head?_drop]
    show c.rest.head? = _
    rw [← htail]
    rfl
  have hutf8 : String.fromUTF8? ⟨(utf8 s).toArray⟩ = some s := by
    show String.fromUTF8? s.toByteArray = some s
    rw [String.fromUTF8?, dif_pos s.isValidUTF8]
    rfl
  have hraw : takeRaw c = .ok (utf8 s, c.advance 1) := by
    rw [takeRaw, hfield]
  show (takeRaw c >>= fun p => _) = _
  rw [hraw]
  show (match String.fromUTF8? ⟨(utf8 s).toArray⟩ with
    | some s => (pure s : FieldReader String)
    | none => throw (MessageError.field "invalid utf-8 in field")) (c.advance 1) = _
  rw [hutf8]
  rfl

theorem i32 (v : Int32) : Undoes readI32 (writeI32 v) v := by
  refine (str (itoaI32 v)).last ?_
  rw [if_neg (itoaI32_ne_empty v), parseI32_itoaI32]

theorem bool (v : Bool) : Undoes readBool (writeBool v) v := by
  refine (str (if v then "1" else "0")).last ?_
  cases v with
  | false => rfl
  | true => rfl

theorem optI32 (o : Option Int32) : Undoes readOptI32 (writeOptI32 o) (wireOptI32 o) := by
  have hsome : ∀ v, Undoes readOptI32 (writeI32 v) (if v = UNSET_INT then none else some v) := by
    intro v
    refine (str (itoaI32 v)).last ?_
    rw [if_neg (itoaI32_ne_empty v), parseI32_itoaI32]
  cases o with
  | none => exact hsome UNSET_INT
  | some v =>
    have hv : wireOptI32 (some v) = if v = UNSET_INT then none else some v := by
      simp only [wireOptI32, Option.some.injEq]
    rw [hv]
    exact hsome v

section Values

variable {F : Type} [F64 F] [LawfulF64 F]

theorem f64 (v : F) : Undoes readF64 (writeF64 v) (wireF64 v) := by
  refine (str (formatF64 v)).last ?_
  rw [if_neg (formatF64_ne_empty v)]
  by_cases hnan : F64.isNan v = true
  · rw [formatF64_nan hnan, parse_unset, wireF64, if_pos hnan]
  · rw [LawfulF64.parse_format v (Bool.not_eq_true _ ▸ hnan), wireF64, if_neg hnan]

theorem optF64 (o : Option F) : Undoes readOptF64 (writeOptF64 o) (wireOptF64 o) := by
  have hunset : Undoes readOptF64 (writeString UNSET_DOUBLE_STR) (none : Option F) := by
    refine (str UNSET_DOUBLE_STR).last ?_
    rw [if_pos (Or.inr rfl)]
  cases o with
  | none => exact hunset
  | some v =>
    by_cases hv : v = F64.max ∨ F64.isNan v = true
    · have htext : formatF64 v = UNSET_DOUBLE_STR := by
        rcases hv with rfl | hnan
        · exact formatF64_max
        · exact formatF64_nan hnan
      show Undoes readOptF64 (writeString (formatF64 v)) (if _ then _ else _)
      rw [htext, if_pos hv]
      exact hunset
    · show Undoes readOptF64 (writeString (formatF64 v)) (if _ then _ else _)
      have hparse := LawfulF64.parse_format v (by simpa using fun h => hv (Or.inr h))
      have htext : ¬ (formatF64 v = "" ∨ formatF64 v = UNSET_DOUBLE_STR) := by
        rintro (hempty | hunset)
        · exact formatF64_ne_empty v hempty
        · rw [hunset, parse_unset] at hparse
          exact hv (Or.inl (Option.some.inj hparse).symm)
      rw [if_neg hv]
      refine (str (formatF64 v)).last ?_
      rw [if_neg htext, hparse]
      show (pure (if v = F64.max then none else some v) : FieldReader (Option F)) = _
      rw [if_neg fun h => hv (Or.inl h)]

end Values

/-- Gates that every advertised version passes; reader and writer may differ in them. -/
theorem since {α : Type} {r r' : FieldReader α} {w w' : FieldWriter} {a : α} {v : ServerVersion}
    {gate gate' : ℤ} (hgates : gate ≤ MIN_VERSION ∧ gate' ≤ MIN_VERSION) (h : Undoes r w a) :
    Undoes (Protocol.since v gate r r') (Protocol.since v gate' w w') a := by
  rw [since_eq v hgates.1, since_eq v hgates.2]
  exact h

/-- A gate that no advertised version passes. -/
theorem before {α : Type} {r r' : FieldReader α} {w w' : FieldWriter} {a : α} {v : ServerVersion}
    {gate : ℤ} (hgate : gate ≤ MIN_VERSION) (h : Undoes r' w' a) :
    Undoes (Protocol.before v gate r r') (Protocol.before v gate w w') a := by
  rw [before_eq v hgate, before_eq v hgate]
  exact h

end Midas.Undoes
