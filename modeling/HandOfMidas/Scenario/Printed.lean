import HandOfMidas.Scenario.Expression

/-! The text of an expression: a compound operand stands in parentheses, and quotes and backslashes in a
    string are escaped. -/

namespace Midas.Dsl.Expression

variable {F : Type} [F64 F]

/-! ### Printing -/

def wrap (compound : Bool) (text : List Char) : List Char :=
  if compound then '(' :: (text ++ [')']) else text

def escape (s : List Char) : List Char :=
  s.flatMap fun c => if c = '"' ∨ c = '\\' then ['\\', c] else [c]

def quoted (s : List Char) : List Char := '"' :: (escape s ++ ['"'])

def Index.print : Index → List Char
  | .int i => i.toInt.repr.toList
  | .str s => quoted s
  | .ident name => name
  | .wildcard => ['*']

def Segment.print : Segment → List Char
  | .field name => '.' :: name
  | .index idx => '[' :: (idx.print ++ [']'])

def BinOp.print : BinOp → List Char
  | .eq => "==".toList
  | .neq => "!=".toList
  | .lt => "<".toList
  | .le => "<=".toList
  | .gt => ">".toList
  | .ge => ">=".toList

def Value.print : Value F → List Char
  | .num n => F64.text n
  | .int i => i.toInt.repr.toList
  | .str s => quoted s
  | .bool true => "true".toList
  | .bool false => "false".toList

def Expr.compound : Expr F → Bool
  | .binOp _ _ _ | .and _ _ | .or _ _ => true
  | _ => false

mutual

def Expr.print : Expr F → List Char
  | .literal v => v.print
  | .path root segments => root ++ segments.flatMap Segment.print
  | .call name args => name ++ '(' :: (printArgs args ++ [')'])
  | .binOp op lhs rhs =>
    wrap lhs.compound lhs.print ++ ' ' :: (op.print ++ ' ' :: wrap rhs.compound rhs.print)
  | .and lhs rhs =>
    wrap lhs.compound lhs.print ++ " and ".toList ++ wrap rhs.compound rhs.print
  | .or lhs rhs =>
    wrap lhs.compound lhs.print ++ " or ".toList ++ wrap rhs.compound rhs.print

def printArgs : List (Expr F) → List Char
  | [] => []
  | e :: es => e.print ++ printMore es

def printMore : List (Expr F) → List Char
  | [] => []
  | e :: es => ", ".toList ++ e.print ++ printMore es

end

/-! ### Without parentheses -/

def Expr.junction : Expr F → Bool
  | .and _ _ | .or _ _ => true
  | _ => false

/-- An operand of `and`; only another `and` or an `or` must stand in parentheses. -/
structure Operand (F : Type) where
  parens : Bool
  expr : Expr F
  plain : parens = false → expr.junction = false

def Operand.text (x : Operand F) : List Char := wrap x.parens x.expr.print

/-- Operands with `and` between them. -/
structure Conjunction (F : Type) where
  first : Operand F
  more : List (Operand F)

def Conjunction.text (c : Conjunction F) : List Char :=
  c.first.text ++ c.more.flatMap fun x => " and ".toList ++ x.text

def Conjunction.expr (c : Conjunction F) : Expr F :=
  c.more.foldl (fun e x => .and e x.expr) c.first.expr

/-- Conjunctions with `or` between them. -/
structure Disjunction (F : Type) where
  first : Conjunction F
  more : List (Conjunction F)

def Disjunction.text (d : Disjunction F) : List Char :=
  d.first.text ++ d.more.flatMap fun c => " or ".toList ++ c.text

def Disjunction.expr (d : Disjunction F) : Expr F :=
  d.more.foldl (fun e c => .or e c.expr) d.first.expr

/-! ### The documented grammar -/

def IsDigits (ds : List Char) : Prop := ds ≠ [] ∧ ∀ c ∈ ds, c.isDigit = true

def IsDecimal (text : List Char) : Prop :=
  ∃ sign whole frac, text = sign ++ whole ++ '.' :: frac ∧ (sign = [] ∨ sign = ['-']) ∧
    IsDigits whole ∧ IsDigits frac

/-- A letter or an underscore, and then these and digits, and in an index hyphens too. -/
def IsWord (isByte : Char → Bool) (name : List Char) : Prop :=
  (∃ c ∈ name.head?, c.isAlpha = true ∨ c = '_') ∧ ∀ c ∈ name, isByte c = true

def IsIdent (name : List Char) : Prop := IsWord isIdentByte name

def IsKey (name : List Char) : Prop := IsWord (fun c => isIdentByte c || c = '-') name

/-- `true` and `false` are literals. -/
def IsName (name : List Char) : Prop :=
  IsIdent name ∧ name ≠ "true".toList ∧ name ≠ "false".toList

def Value.Documented : Value F → Prop
  | .num n => IsDecimal (F64.text n) ∧ F64.parse (F64.text n) = some n
  | _ => True

def Index.Documented : Index → Prop
  | .ident name => IsKey name
  | _ => True

def Segment.Documented : Segment → Prop
  | .field name => IsIdent name
  | .index idx => idx.Documented

mutual

def Expr.Documented : Expr F → Prop
  | .literal v => v.Documented
  | .path root segments => IsName root ∧ ∀ segment ∈ segments, segment.Documented
  | .call name args => IsName name ∧ AllDocumented args
  | .binOp _ lhs rhs | .and lhs rhs | .or lhs rhs => lhs.Documented ∧ rhs.Documented

def AllDocumented : List (Expr F) → Prop
  | [] => True
  | e :: es => e.Documented ∧ AllDocumented es

end

/-! ### What the parser makes of strings -/

def IsAscii (s : List Char) : Prop := ∀ c ∈ s, c.toNat < 128

theorem isAscii_of_all {s : List Char} (h : s.all (fun c => decide (c.toNat < 128)) = true) :
    IsAscii s :=
  fun c hc => of_decide_eq_true (List.all_eq_true.mp h c hc)

/-- Each byte of a string becomes a character of its own. -/
def Value.mangled : Value F → Value F
  | .str s => .str (bytes s)
  | v => v

def Index.mangled : Index → Index
  | .str s => .str (bytes s)
  | idx => idx

def Segment.mangled : Segment → Segment
  | .index idx => .index idx.mangled
  | segment => segment

mutual

def Expr.mangled : Expr F → Expr F
  | .literal v => .literal v.mangled
  | .path root segments => .path root (segments.map Segment.mangled)
  | .call name args => .call name (mangledArgs args)
  | .binOp op lhs rhs => .binOp op lhs.mangled rhs.mangled
  | .and lhs rhs => .and lhs.mangled rhs.mangled
  | .or lhs rhs => .or lhs.mangled rhs.mangled

def mangledArgs : List (Expr F) → List (Expr F)
  | [] => []
  | e :: es => e.mangled :: mangledArgs es

end

def Operand.mangled (x : Operand F) : Operand F where
  parens := x.parens
  expr := x.expr.mangled
  plain := by
    obtain ⟨parens, e, hplain⟩ := x
    cases e <;> exact hplain

def Conjunction.mangled (c : Conjunction F) : Conjunction F where
  first := c.first.mangled
  more := c.more.map Operand.mangled

def Disjunction.mangled (d : Disjunction F) : Disjunction F where
  first := d.first.mangled
  more := d.more.map Conjunction.mangled

def Value.Ascii : Value F → Prop
  | .str s => IsAscii s
  | _ => True

def Segment.Ascii : Segment → Prop
  | .index (.str s) => IsAscii s
  | _ => True

mutual

/-- All strings in the expression are ASCII. -/
def Expr.Ascii : Expr F → Prop
  | .literal v => v.Ascii
  | .path _ segments => ∀ segment ∈ segments, segment.Ascii
  | .call _ args => AllAscii args
  | .binOp _ lhs rhs | .and lhs rhs | .or lhs rhs => lhs.Ascii ∧ rhs.Ascii

def AllAscii : List (Expr F) → Prop
  | [] => True
  | e :: es => e.Ascii ∧ AllAscii es

end

/-! ### Bytes -/

theorem bytes_append (s s' : List Char) : bytes (s ++ s') = bytes s ++ bytes s' :=
  List.flatMap_append

theorem bytes_cons (c : Char) (s : List Char) : bytes (c :: s) = bytes [c] ++ bytes s :=
  bytes_append [c] s

/-- A byte stands as the character of its value. -/
theorem toNat_byte {n : ℕ} (h : n < 256) : (Char.ofNat (UInt8.ofNat n).toNat).toNat = n := by
  have hn : (UInt8.ofNat n).toNat = n := UInt8.toNat_ofNat_of_lt' h
  have hvalid : n.isValidChar := Or.inl (by omega)
  rw [hn, Char.ofNat, dif_pos hvalid]
  rfl

theorem bytes_singleton {c : Char} (h : c.toNat < 128) : bytes [c] = [c] := by
  have hle : c.val.toNat ≤ 127 := Nat.le_of_lt_succ h
  have hbyte : Char.ofNat (UInt8.ofNat c.val.toNat).toNat = c := by
    rw [← Char.toNat_inj, toNat_byte (by omega)]
    rfl
  rw [bytes, List.flatMap_cons, List.flatMap_nil, List.append_nil, String.utf8EncodeChar]
  simp only [if_pos hle, List.map_cons, List.map_nil, hbyte]

theorem bytes_of_isAscii {s : List Char} (h : IsAscii s) : bytes s = s := by
  induction s with
  | nil => rfl
  | cons c s ih =>
    obtain ⟨hc, hs⟩ := List.forall_mem_cons.mp h
    rw [bytes_cons, bytes_singleton hc, ih hs]
    rfl

/-- A character that is not ASCII becomes at least two bytes, none of which is ASCII. -/
theorem bytes_singleton_of_le {c : Char} (h : 128 ≤ c.toNat) :
    2 ≤ (bytes [c]).length ∧ ∀ b ∈ bytes [c], 128 ≤ b.toNat := by
  have hle : ¬c.val.toNat ≤ 127 := not_le.mpr h
  have hbyte : ∀ n, 128 ≤ n → n < 256 → 128 ≤ (Char.ofNat (UInt8.ofNat n).toNat).toNat := by
    intro n hn hlt
    rwa [toNat_byte hlt]
  rw [bytes, List.flatMap_cons, List.flatMap_nil, List.append_nil, String.utf8EncodeChar]
  simp only [if_neg hle]
  split_ifs with h1 h2
  all_goals
    refine ⟨by simp, ?_⟩
    simp only [List.map_cons, List.map_nil, List.forall_mem_cons]
    repeat' constructor
    all_goals first | exact hbyte _ (by omega) (by omega) | simp

theorem bytes_escape (s : List Char) : bytes (escape s) = escape (bytes s) := by
  induction s with
  | nil => rfl
  | cons c s ih =>
    have happend : ∀ s s', escape (s ++ s') = escape s ++ escape s' := fun _ _ => List.flatMap_append
    have hsplit : escape (c :: s) = escape [c] ++ escape s := happend [c] s
    rw [hsplit, bytes_append, ih, bytes_cons c s, happend]
    congr 1
    by_cases hc : c.toNat < 128
    · rw [bytes_singleton hc]
      refine bytes_of_isAscii fun b hb => ?_
      simp only [escape, List.flatMap_cons, List.flatMap_nil, List.append_nil] at hb
      split_ifs at hb
      · rcases List.mem_pair.mp hb with rfl | rfl
        · decide
        · exact hc
      · rwa [List.mem_singleton.mp hb]
    · -- Neither the character nor its bytes are quotes or backslashes.
      have hplain : ∀ s : List Char, (∀ b ∈ s, 128 ≤ b.toNat) → escape s = s := by
        intro s hs
        refine (List.flatMap_congr fun b hb => if_neg ?_).trans (List.flatMap_singleton' s)
        have := hs b hb
        rintro (rfl | rfl) <;> exact absurd this (by decide)
      rw [hplain _ (bytes_singleton_of_le (not_lt.mp hc)).2, hplain [c] (by simpa using hc)]

end Midas.Dsl.Expression
