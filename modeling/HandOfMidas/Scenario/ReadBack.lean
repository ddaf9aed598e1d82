import HandOfMidas.Scenario.Printed

/-! The parser reads the text of an expression back, each string as its bytes. For each rule of the
    grammar one lemma says what it reads in front of a tail, as long as the tail cannot be taken for a
    part of it, and that it leaves the tail, up to white space. -/

namespace Midas.Dsl.Expression

variable {F : Type} [F64 F] {len : ℕ}

/-! ### White space and fixed texts -/

theorem skipWhitespace_of_head {c : Char} (h : isAsciiWhitespace c = false) (cs : List Char) :
    skipWhitespace (c :: cs) = c :: cs := by
  simp [skipWhitespace, h]

theorem skipWhitespace_space (cs : List Char) : skipWhitespace (' ' :: cs) = skipWhitespace cs := by
  simp [skipWhitespace, isAsciiWhitespace]

@[simp] theorem skipWhitespace_skipWhitespace (cs : List Char) :
    skipWhitespace (skipWhitespace cs) = skipWhitespace cs := by
  induction cs with
  | nil => rfl
  | cons c cs ih =>
    by_cases h : isAsciiWhitespace c = true
    · have hskip : skipWhitespace (c :: cs) = skipWhitespace cs := List.dropWhile_cons_of_pos h
      rw [hskip, ih]
    · rw [skipWhitespace_of_head (by simpa using h), skipWhitespace_of_head (by simpa using h)]

theorem skipWhitespace_append {ws : List Char} (h : ∀ c ∈ ws, isAsciiWhitespace c = true)
    (cs : List Char) : skipWhitespace (ws ++ cs) = skipWhitespace cs := by
  induction ws with
  | nil => rfl
  | cons c ws ih =>
    obtain ⟨hc, hws⟩ := List.forall_mem_cons.mp h
    rw [List.cons_append, skipWhitespace, List.dropWhile_cons_of_pos hc]
    exact ih hws

theorem eat_of_eq {text : String} {cs rest : List Char}
    (h : skipWhitespace cs = text.toList ++ rest) : eat text cs = some rest := by
  have hprefix : text.toList <+: skipWhitespace cs := ⟨rest, h.symm⟩
  rw [eat, if_pos hprefix, h, List.drop_left]

/-- A text that begins with another byte is not there. -/
theorem eat_of_ne {text : String} {cs : List Char} {c : Char} {text' : List Char}
    (htext : text.toList = c :: text') (h : ∀ d ∈ (skipWhitespace cs).head?, d ≠ c) :
    eat text cs = none := by
  rw [eat, if_neg]
  rintro ⟨rest, heq⟩
  rw [htext] at heq
  exact h c (by rw [← heq]; rfl) rfl

theorem eatKeyword_of_eq {kw : String} {cs rest : List Char}
    (h : skipWhitespace cs = kw.toList ++ ' ' :: rest) : eatKeyword kw cs = some (' ' :: rest) := by
  rw [eatKeyword, eat_of_eq h]
  rfl

theorem expect_of_eq {text : String} {cs rest : List Char}
    (h : skipWhitespace cs = text.toList ++ rest) : expect len text cs = .ok rest := by
  rw [expect, eat_of_eq h]

/-! ### Strings -/

theorem stringBody_escape (start : ℕ) (s rest : List Char) :
    stringBody '"' start (escape s ++ '"' :: rest) = .ok (s, rest) := by
  induction s with
  | nil =>
    change stringBody '"' start ('"' :: rest) = .ok ([], rest)
    rw [stringBody.eq_def]
    exact if_pos rfl
  | cons c s ih =>
    have hsplit : escape (c :: s) ++ '"' :: rest =
        (if c = '"' ∨ c = '\\' then ['\\', c] else [c]) ++ (escape s ++ '"' :: rest) := by
      rw [← List.append_assoc]
      rfl
    rw [hsplit]
    by_cases hc : c = '"' ∨ c = '\\'
    · rw [if_pos hc, List.cons_append, List.cons_append, List.nil_append, stringBody,
        if_neg (by decide), if_pos rfl]
      simp only [ih]
      rcases hc with rfl | rfl <;> rfl
    · obtain ⟨hquote, hslash⟩ := not_or.mp hc
      rw [if_neg hc, List.cons_append, List.nil_append, stringBody.eq_def]
      simp only [if_neg hquote, if_neg hslash, ih]
      rfl

theorem parseString_quoted (s rest : List Char) :
    parseString len (quoted s ++ rest) = .ok (s, rest) := by
  have hsplit : quoted s ++ rest = '"' :: (escape s ++ '"' :: rest) := by
    simp [quoted]
  rw [hsplit, parseString, stringBody_escape]

/-! ### Words -/

theorem takeWhile_of_forall {p : Char → Bool} {s tail : List Char} (hs : ∀ c ∈ s, p c = true)
    (htail : ∀ c ∈ tail.head?, p c = false) :
    (s ++ tail).takeWhile p = s ∧ (s ++ tail).dropWhile p = tail := by
  have hstop : tail.takeWhile p = [] ∧ tail.dropWhile p = tail := by
    cases tail with
    | nil => exact ⟨rfl, rfl⟩
    | cons c tail =>
      have hc := htail c rfl
      exact ⟨List.takeWhile_cons_of_neg (by simp [hc]), List.dropWhile_cons_of_neg (by simp [hc])⟩
  rw [List.takeWhile_append_of_pos hs, List.dropWhile_append_of_pos hs, hstop.1, hstop.2]
  exact ⟨List.append_nil s, rfl⟩

theorem isUpper_iff {c : Char} : c.isUpper = true ↔ 65 ≤ c.val.toNat ∧ c.val.toNat ≤ 90 :=
  decide_eq_true_iff

theorem isLower_iff {c : Char} : c.isLower = true ↔ 97 ≤ c.val.toNat ∧ c.val.toNat ≤ 122 := by
  change (decide ('a'.val ≤ c.val) && decide (c.val ≤ 'z'.val)) = true ↔ _
  rw [Bool.and_eq_true, decide_eq_true_iff, decide_eq_true_iff]
  rfl

theorem isAlpha_eq (c : Char) : c.isAlpha = (c.isUpper || c.isLower) := rfl

theorem isAlpha_iff {c : Char} : c.isAlpha = true ↔
    65 ≤ c.val.toNat ∧ c.val.toNat ≤ 90 ∨ 97 ≤ c.val.toNat ∧ c.val.toNat ≤ 122 := by
  rw [isAlpha_eq, Bool.or_eq_true, isUpper_iff, isLower_iff]

theorem not_isAsciiWhitespace_of_alpha {c : Char} (h : c.isAlpha = true ∨ c = '_') :
    isAsciiWhitespace c = false := by
  by_contra hws
  simp only [isAsciiWhitespace, Bool.not_eq_false, Bool.or_eq_true, decide_eq_true_eq] at hws
  rcases hws with (((rfl | rfl) | rfl) | rfl) | rfl <;> revert h <;> decide

theorem IsWord.cons {isByte : Char → Bool} {name : List Char} (h : IsWord isByte name) :
    ∃ c cs, name = c :: cs ∧ (c.isAlpha = true ∨ c = '_') := by
  obtain ⟨⟨c, hc, halpha⟩, -⟩ := h
  cases name with
  | nil => simp at hc
  | cons d cs =>
    obtain rfl : d = c := by simpa using hc
    exact ⟨d, cs, rfl, halpha⟩

theorem parseIdentOf_word {isByte : Char → Bool} {name tail : List Char} (h : IsWord isByte name)
    (htail : ∀ c ∈ tail.head?, isByte c = false) :
    parseIdentOf len isByte (name ++ tail) = .ok (name, tail) := by
  obtain ⟨c, cs, rfl, halpha⟩ := h.cons
  obtain ⟨htake, hdrop⟩ := takeWhile_of_forall h.2 htail
  rw [parseIdentOf, List.cons_append, skipWhitespace_of_head (not_isAsciiWhitespace_of_alpha halpha),
    ← List.cons_append]
  simp only [htake, hdrop]
  rw [if_neg (by simp)]

/-! ### Numbers -/

theorem scanNumber_digits {digits tail : List Char} (sawDot : Bool)
    (hdigits : ∀ c ∈ digits, c.isDigit = true)
    (htail : ∀ c ∈ tail.head?, c.isDigit = false ∧ (sawDot = true ∨ c ≠ '.')) :
    scanNumber sawDot (digits ++ tail) = (digits, sawDot, tail) := by
  induction digits with
  | nil =>
    cases tail with
    | nil => rfl
    | cons c tail =>
      obtain ⟨hc, hdot⟩ := htail c rfl
      have hpoint : ¬(c = '.' ∧ sawDot = false ∧ tail.head?.any Char.isDigit = true) := by
        rintro ⟨rfl, hsaw, -⟩
        simp [hsaw] at hdot
      rw [List.nil_append, scanNumber, if_neg (by simp [hc]), if_neg hpoint]
  | cons c digits ih =>
    obtain ⟨hc, hdigits⟩ := List.forall_mem_cons.mp hdigits
    rw [List.cons_append, scanNumber, if_pos hc, ih hdigits]

theorem scanNumber_decimal {whole frac tail : List Char} (hwhole : ∀ c ∈ whole, c.isDigit = true)
    (hfrac : IsDigits frac) (htail : ∀ c ∈ tail.head?, c.isDigit = false) :
    scanNumber false (whole ++ '.' :: frac ++ tail) = (whole ++ '.' :: frac, true, tail) := by
  induction whole with
  | nil =>
    obtain ⟨hne, hdigits⟩ := hfrac
    obtain ⟨d, ds, rfl⟩ := List.exists_cons_of_ne_nil hne
    have hhead : (d :: ds ++ tail).head?.any Char.isDigit = true := hdigits d List.mem_cons_self
    rw [List.nil_append, List.cons_append, scanNumber, if_neg (by decide), if_pos ⟨rfl, rfl, hhead⟩,
      scanNumber_digits true hdigits fun c hc => ⟨htail c hc, .inl rfl⟩]
  | cons c whole ih =>
    obtain ⟨hc, hwhole⟩ := List.forall_mem_cons.mp hwhole
    rw [List.cons_append, List.cons_append, scanNumber, if_pos hc, ih hwhole]

/-- The sign is told from the digits behind it. -/
theorem sign_of_digits {sign whole : List Char} (rest : List Char) (hsign : sign = [] ∨ sign = ['-'])
    (hwhole : IsDigits whole) :
    ((sign ++ whole ++ rest).take 1).filter (fun c => c = '-' || c = '+') = sign ∧
      (sign ++ whole ++ rest).drop sign.length = whole ++ rest := by
  obtain ⟨d, ds, rfl⟩ := List.exists_cons_of_ne_nil hwhole.1
  have hd := hwhole.2 d List.mem_cons_self
  rcases hsign with rfl | rfl
  · have hplain : ¬((d = '-' || d = '+') = true) := by
      simp only [Bool.or_eq_true, decide_eq_true_eq]
      rintro (rfl | rfl) <;> simp at hd
    exact ⟨by simp [hplain], rfl⟩
  · exact ⟨rfl, rfl⟩

theorem parseNumber_int {sign whole tail : List Char} {i : Int64} (hsign : sign = [] ∨ sign = ['-'])
    (hwhole : IsDigits whole) (hvalue : parseI64 (sign ++ whole) = some i)
    (htail : ∀ c ∈ tail.head?, c.isDigit = false ∧ c ≠ '.') :
    (parseNumber len (sign ++ whole ++ tail) : Except ParseError (Value F × List Char)) =
      .ok (.int i, tail) := by
  obtain ⟨htake, hdrop⟩ := sign_of_digits tail hsign hwhole
  have hany : whole.any Char.isDigit = true := by
    obtain ⟨d, hd⟩ := List.exists_mem_of_ne_nil _ hwhole.1
    exact List.any_eq_true.mpr ⟨d, hd, hwhole.2 d hd⟩
  rw [parseNumber]
  simp only [htake, hdrop,
    scanNumber_digits false hwhole.2 fun c hc => ⟨(htail c hc).1, .inr (htail c hc).2⟩, hany, hvalue]
  rfl

theorem parseNumber_decimal {text tail : List Char} {n : F} (htext : IsDecimal text)
    (hvalue : F64.parse text = some n) (htail : ∀ c ∈ tail.head?, c.isDigit = false) :
    (parseNumber len (text ++ tail) : Except ParseError (Value F × List Char)) =
      .ok (.num n, tail) := by
  obtain ⟨sign, whole, frac, rfl, hsign, hwhole, hfrac⟩ := htext
  have hscan := scanNumber_decimal hwhole.2 hfrac htail
  rw [List.append_assoc] at hscan
  obtain ⟨htake, hdrop⟩ := sign_of_digits ('.' :: frac ++ tail) hsign hwhole
  have hany : (whole ++ '.' :: frac).any Char.isDigit = true := by
    obtain ⟨d, hd⟩ := List.exists_mem_of_ne_nil _ hwhole.1
    exact List.any_eq_true.mpr ⟨d, List.mem_append_left _ hd, hwhole.2 d hd⟩
  rw [parseNumber, List.append_assoc (sign ++ whole)]
  simp only [htake, hdrop, hscan, hany]
  rw [List.append_assoc] at hvalue
  simp [hvalue]

/-- The digits of an integer, and what they are read as. -/
theorem repr_int (i : Int64) : ∃ sign whole : List Char, i.toInt.repr.toList = sign ++ whole ∧
    (sign = [] ∨ sign = ['-']) ∧ IsDigits whole ∧ parseI64 (sign ++ whole) = some i := by
  have hparse : parseI64 i.toInt.repr.toList = some i := by
    rw [parseI64, Protocol.parseInt_repr]
    have hrange : -2 ^ 63 ≤ i.toInt ∧ i.toInt < 2 ^ 63 := ⟨i.le_toInt, i.toInt_lt⟩
    simp only [hrange, and_self, if_true, Int64.ofInt_toInt]
  have hdigits : ∀ n, IsDigits (Nat.toDigits 10 n) := fun n =>
    ⟨List.ne_nil_of_length_pos Nat.length_toDigits_pos,
      fun c hc => Nat.isDigit_of_mem_toDigits (by decide) (by decide) hc⟩
  suffices h : ∃ sign whole : List Char, i.toInt.repr.toList = sign ++ whole ∧
      (sign = [] ∨ sign = ['-']) ∧ IsDigits whole by
    obtain ⟨sign, whole, heq, hsign, hwhole⟩ := h
    exact ⟨sign, whole, heq, hsign, hwhole, heq ▸ hparse⟩
  cases i.toInt with
  | ofNat m =>
    exact ⟨[], Nat.toDigits 10 m, Nat.toList_repr, .inl rfl, hdigits m⟩
  | negSucc m =>
    refine ⟨['-'], Nat.toDigits 10 (m + 1), ?_, .inr rfl, hdigits (m + 1)⟩
    change ("-" ++ (m + 1).repr).toList = _
    rw [String.toList_append, Nat.toList_repr]
    rfl

/-! ### What may follow -/

/-- No byte of the tail goes on with a word or a number, and no bracket or point with a path. -/
structure TermEnds (tail : List Char) : Prop where
  next : ∀ c ∈ tail.head?, isIdentByte c = false ∧ c ≠ '.' ∧ c ≠ ':'
  afterSpace : ∀ c ∈ (skipWhitespace tail).head?, c ≠ '(' ∧ c ≠ '.' ∧ c ≠ '['

structure CmpEnds (tail : List Char) : Prop extends TermEnds tail where
  compares : binOp? tail = none

structure AndEnds (tail : List Char) : Prop extends CmpEnds tail where
  conjoins : (eat "&&" tail <|> eatKeyword "and" tail) = none

structure OrEnds (tail : List Char) : Prop extends AndEnds tail where
  disjoins : (eat "||" tail <|> eatKeyword "or" tail) = none

theorem eat_congr {cs cs' : List Char} (h : skipWhitespace cs = skipWhitespace cs') (text : String) :
    eat text cs = eat text cs' := by
  rw [eat, eat, h]

theorem eatKeyword_congr {cs cs' : List Char} (h : skipWhitespace cs = skipWhitespace cs')
    (kw : String) : eatKeyword kw cs = eatKeyword kw cs' := by
  rw [eatKeyword, eatKeyword, eat_congr h]

theorem binOp?_congr {cs cs' : List Char} (h : skipWhitespace cs = skipWhitespace cs') :
    binOp? cs = binOp? cs' := by
  simp only [binOp?, eat_congr h]

theorem binOp?_of_ne {cs : List Char}
    (h : ∀ c ∈ (skipWhitespace cs).head?, c ≠ '=' ∧ c ≠ '!' ∧ c ≠ '<' ∧ c ≠ '>') :
    binOp? cs = none := by
  have heq : eat "==" cs = none := eat_of_ne rfl fun c hc => (h c hc).1
  have hneq : eat "!=" cs = none := eat_of_ne rfl fun c hc => (h c hc).2.1
  have hle : eat "<=" cs = none := eat_of_ne rfl fun c hc => (h c hc).2.2.1
  have hge : eat ">=" cs = none := eat_of_ne rfl fun c hc => (h c hc).2.2.2
  have hlt : eat "<" cs = none := eat_of_ne rfl fun c hc => (h c hc).2.2.1
  have hgt : eat ">" cs = none := eat_of_ne rfl fun c hc => (h c hc).2.2.2
  simp [binOp?, heq, hneq, hle, hge, hlt, hgt]

theorem binOp?_print {op : BinOp} {cs rest : List Char}
    (h : skipWhitespace cs = op.print ++ ' ' :: rest) : binOp? cs = some (op, ' ' :: rest) := by
  cases op <;> simp [binOp?, eat, h, BinOp.print]

theorem eatKeyword_of_ne {kw : String} {cs : List Char} {c : Char} {kw' : List Char}
    (hkw : kw.toList = c :: kw') (h : ∀ d ∈ (skipWhitespace cs).head?, d ≠ c) :
    eatKeyword kw cs = none := by
  rw [eatKeyword, eat_of_ne hkw h]
  rfl

theorem TermEnds.cmp {tail : List Char} (h : TermEnds tail)
    (hhead : ∀ c ∈ (skipWhitespace tail).head?, c ≠ '=' ∧ c ≠ '!' ∧ c ≠ '<' ∧ c ≠ '>') :
    CmpEnds tail := ⟨h, binOp?_of_ne hhead⟩

theorem CmpEnds.and {tail : List Char} (h : CmpEnds tail)
    (hhead : ∀ c ∈ (skipWhitespace tail).head?, c ≠ '&' ∧ c ≠ 'a') : AndEnds tail := by
  refine ⟨h, ?_⟩
  rw [eat_of_ne rfl fun c hc => (hhead c hc).1, eatKeyword_of_ne rfl fun c hc => (hhead c hc).2]
  rfl

theorem AndEnds.or {tail : List Char} (h : AndEnds tail)
    (hhead : ∀ c ∈ (skipWhitespace tail).head?, c ≠ '|' ∧ c ≠ 'o') : OrEnds tail := by
  refine ⟨h, ?_⟩
  rw [eat_of_ne rfl fun c hc => (hhead c hc).1, eatKeyword_of_ne rfl fun c hc => (hhead c hc).2]
  rfl

/-- At the end, at a closing parenthesis and at a comma, all rules end. -/
theorem orEnds_of_closes {tail : List Char}
    (hnext : ∀ c ∈ tail.head?, isIdentByte c = false ∧ c ≠ '.' ∧ c ≠ ':')
    (hhead : ∀ c ∈ (skipWhitespace tail).head?, c = ')' ∨ c = ',') : OrEnds tail := by
  have hne : ∀ d, d ≠ ')' → d ≠ ',' → ∀ c ∈ (skipWhitespace tail).head?, c ≠ d := by
    rintro d hparen hcomma c hc rfl
    exact (hhead c hc).elim hparen hcomma
  have hterm : TermEnds tail := ⟨hnext, fun c hc => ⟨hne _ (by decide) (by decide) c hc,
    hne _ (by decide) (by decide) c hc, hne _ (by decide) (by decide) c hc⟩⟩
  refine ((hterm.cmp fun c hc => ⟨?_, ?_, ?_, ?_⟩).and fun c hc => ⟨?_, ?_⟩).or fun c hc => ⟨?_, ?_⟩
  all_goals exact hne _ (by decide) (by decide) c hc

theorem orEnds_of_whitespace {ws : List Char} (h : ∀ c ∈ ws, isAsciiWhitespace c = true) :
    OrEnds ws := by
  have hskip : skipWhitespace ws = [] := by
    simpa [skipWhitespace] using skipWhitespace_append h []
  refine orEnds_of_closes (fun c hc => ?_) (by simp [hskip])
  have hws := h c (List.mem_of_mem_head? hc)
  simp only [isAsciiWhitespace, Bool.or_eq_true, decide_eq_true_eq] at hws
  rcases hws with (((rfl | rfl) | rfl) | rfl) | rfl <;> decide

theorem isDigit_of_not_isIdentByte {c : Char} (h : isIdentByte c = false) :
    c.isDigit = false ∧ c.isLower = false := by
  simp only [isIdentByte, Char.isAlphanum, isAlpha_eq, Bool.or_eq_false_iff] at h
  exact ⟨h.1.2, h.1.1.2⟩

/-- A number with such a tail is no duration and no time. -/
theorem parseNumeral_of_number {cs tail : List Char} {v : Value F}
    (h : (parseNumber len cs : Except ParseError (Value F × List Char)) = .ok (v, tail))
    (htail : TermEnds tail) :
    (parseNumeral len cs : Except ParseError (Value F × List Char)) = .ok (v, tail) := by
  have hduration : duration? v tail = none := by
    have hlower : tail.takeWhile Char.isLower = [] := by
      cases tail with
      | nil => rfl
      | cons c tail =>
        have hc := (isDigit_of_not_isIdentByte (htail.next c rfl).1).2
        exact List.takeWhile_cons_of_neg (by simp [hc])
    simp [duration?, hlower]
  have hclock : clock? len v tail = none := by
    unfold clock?
    split
    · exact absurd rfl (htail.next ':' rfl).2.2
    · rfl
  rw [parseNumeral, h]
  dsimp only [bind, Except.bind]
  simp only [hduration, hclock]
  rfl

theorem parseNumeral_int {tail : List Char} (i : Int64) (htail : TermEnds tail) :
    (parseNumeral len (i.toInt.repr.toList ++ tail) : Except ParseError (Value F × List Char)) =
      .ok (.int i, tail) := by
  obtain ⟨sign, whole, heq, hsign, hwhole, hvalue⟩ := repr_int i
  refine parseNumeral_of_number ?_ htail
  rw [heq]
  exact parseNumber_int hsign hwhole hvalue fun c hc =>
    ⟨(isDigit_of_not_isIdentByte (htail.next c hc).1).1, (htail.next c hc).2.1⟩

theorem parseNumeral_num {tail : List Char} {n : F} (h : (Value.num n).Documented)
    (htail : TermEnds tail) :
    (parseNumeral len (F64.text n ++ tail) : Except ParseError (Value F × List Char)) =
      .ok (.num n, tail) :=
  parseNumeral_of_number (parseNumber_decimal h.1 h.2 fun c hc =>
    (isDigit_of_not_isIdentByte (htail.next c hc).1).1) htail

/-! ### Rules -/

/-- The text of an expression begins with neither white space nor a closing parenthesis. -/
def Starts (text : List Char) : Prop := ∃ c ∈ text.head?, isAsciiWhitespace c = false ∧ c ≠ ')'

theorem Starts.cons {text : List Char} (h : Starts text) :
    ∃ c cs, text = c :: cs ∧ isAsciiWhitespace c = false ∧ c ≠ ')' := by
  obtain ⟨c, hc, hstarts⟩ := h
  cases text with
  | nil => simp at hc
  | cons d cs =>
    obtain rfl : d = c := by simpa using hc
    exact ⟨d, cs, rfl, hstarts⟩

theorem Starts.append {text : List Char} (h : Starts text) (tail : List Char) :
    Starts (text ++ tail) := by
  obtain ⟨c, cs, rfl, hc⟩ := h.cons
  exact ⟨c, rfl, hc⟩

theorem Starts.skipWhitespace {text : List Char} (h : Starts text) (tail : List Char) :
    skipWhitespace (text ++ tail) = text ++ tail := by
  obtain ⟨c, cs, rfl, hc, -⟩ := h.cons
  exact skipWhitespace_of_head hc _

/-- The rule reads `e` from the text in front of every tail that ends it, with fuel for each byte and
    `k` for the rules on the way to the first one, and leaves the tail up to white space. -/
def Reads (rule : ℕ → List Char → Result (Expr F × List Char)) (k : ℕ) (Ends : List Char → Prop)
    (text : List Char) (e : Expr F) : Prop :=
  Starts text ∧
  ∀ fuel cs tail, skipWhitespace cs = text ++ tail → Ends tail → 7 * (text ++ tail).length + k ≤ fuel →
    ∃ rest, rule fuel cs = pure (e, rest) ∧ skipWhitespace rest = skipWhitespace tail

@[simp] theorem read_ok {α : Type} (a : α) : read (.ok a) = pure a := rfl

/-! ### Chains -/

section

omit [F64 F]

variable {sub top : ℕ → List Char → Result (Expr F × List Char)}
  {loop : ℕ → Expr F → List Char → Result (Expr F × List Char)} {mk : Expr F → Expr F → Expr F}
  {sep? : List Char → Option (List Char)} {sep : List Char} {k : ℕ} {SubEnds Ends : List Char → Prop}

/-- What one operator joins, from the left. -/
structure Joins (sub : ℕ → List Char → Result (Expr F × List Char))
    (loop : ℕ → Expr F → List Char → Result (Expr F × List Char)) (mk : Expr F → Expr F → Expr F)
    (sep? : List Char → Option (List Char)) (sep : List Char) (SubEnds Ends : List Char → Prop) :
    Prop where
  loop_succ : ∀ fuel lhs cs, loop (fuel + 1) lhs cs =
    match sep? cs with
    | some rest => do
      let (rhs, rest) ← sub fuel rest
      loop fuel (mk lhs rhs) rest
    | none => return (lhs, skipWhitespace cs)
  congr : ∀ cs cs', skipWhitespace cs = skipWhitespace cs' → sep? cs = sep? cs'
  found : ∀ cs, sep? (sep ++ cs) = some (' ' :: cs)
  between : ∀ cs, SubEnds (sep ++ cs)
  last : ∀ tail, Ends tail → SubEnds tail ∧ sep? tail = none

/-- The operands behind the first one, each behind the operator. -/
def joined (sep : List Char) (xs : List (List Char × Expr F)) : List Char :=
  xs.flatMap fun x => sep ++ x.1

theorem Joins.subEnds (h : Joins sub loop mk sep? sep SubEnds Ends)
    (xs : List (List Char × Expr F)) {tail : List Char} (htail : Ends tail) :
    SubEnds (joined sep xs ++ tail) := by
  cases xs with
  | nil => exact (h.last tail htail).1
  | cons x xs =>
    have hsplit : joined sep (x :: xs) ++ tail = sep ++ (x.1 ++ joined sep xs ++ tail) := by
      simp [joined]
    rw [hsplit]
    exact h.between _

theorem Joins.loop_reads (h : Joins sub loop mk sep? sep SubEnds Ends)
    {xs : List (List Char × Expr F)} (hxs : ∀ x ∈ xs, Reads sub k SubEnds x.1 x.2) {tail : List Char}
    (htail : Ends tail) (lhs : Expr F) {cs : List Char} (fuel : ℕ)
    (hcs : skipWhitespace cs = skipWhitespace (joined sep xs ++ tail))
    (hfuel : 7 * (joined sep xs ++ tail).length + (k + 1) ≤ fuel) :
    ∃ rest, loop fuel lhs cs = pure (xs.foldl (fun e x => mk e x.2) lhs, rest) ∧
      skipWhitespace rest = skipWhitespace tail := by
  induction xs generalizing lhs cs fuel with
  | nil =>
    obtain ⟨fuel, rfl⟩ : ∃ n, fuel = n + 1 := ⟨fuel - 1, by omega⟩
    have hnone : sep? cs = none := (h.congr _ _ hcs).trans (h.last tail htail).2
    refine ⟨skipWhitespace cs, ?_, (skipWhitespace_skipWhitespace cs).trans hcs⟩
    rw [h.loop_succ, hnone]
    rfl
  | cons x xs ih =>
    obtain ⟨fuel, rfl⟩ : ∃ n, fuel = n + 1 := ⟨fuel - 1, by omega⟩
    obtain ⟨hx, hxs⟩ := List.forall_mem_cons.mp hxs
    have hsplit : joined sep (x :: xs) ++ tail = sep ++ (x.1 ++ (joined sep xs ++ tail)) := by
      simp [joined]
    rw [hsplit] at hcs hfuel
    have hfound : sep? cs = some (' ' :: (x.1 ++ (joined sep xs ++ tail))) :=
      (h.congr _ _ hcs).trans (h.found _)
    have hspace : skipWhitespace (' ' :: (x.1 ++ (joined sep xs ++ tail))) =
        x.1 ++ (joined sep xs ++ tail) :=
      (skipWhitespace_space _).trans (hx.1.skipWhitespace _)
    have hlength : (joined sep xs ++ tail).length < (x.1 ++ (joined sep xs ++ tail)).length := by
      obtain ⟨c, text, htext, -⟩ := hx.1.cons
      simp only [htext, List.length_append, List.length_cons]
      omega
    rw [List.length_append] at hfuel
    obtain ⟨rest, hread, hrest⟩ :=
      hx.2 fuel _ _ hspace (h.subEnds xs htail) (by omega)
    obtain ⟨rest', hloop, hrest'⟩ := ih hxs (mk lhs x.2) fuel hrest (by omega)
    refine ⟨rest', ?_, hrest'⟩
    rw [h.loop_succ, hfound]
    simp only [hread, pure_bind]
    exact hloop

theorem Joins.reads (h : Joins sub loop mk sep? sep SubEnds Ends)
    (htop : ∀ fuel cs, top (fuel + 1) cs = do
      let (lhs, rest) ← sub fuel cs
      loop fuel lhs rest)
    {x : List Char × Expr F} {xs : List (List Char × Expr F)}
    (hxs : ∀ y ∈ x :: xs, Reads sub k SubEnds y.1 y.2) :
    Reads top (k + 1) Ends (x.1 ++ joined sep xs) (xs.foldl (fun e y => mk e y.2) x.2) := by
  obtain ⟨hx, hxs⟩ := List.forall_mem_cons.mp hxs
  refine ⟨hx.1.append _, fun fuel cs tail hcs htail hfuel => ?_⟩
  obtain ⟨fuel, rfl⟩ : ∃ n, fuel = n + 1 := ⟨fuel - 1, by omega⟩
  rw [List.append_assoc] at hcs hfuel
  have hlength : (joined sep xs ++ tail).length < (x.1 ++ (joined sep xs ++ tail)).length := by
    obtain ⟨c, text, htext, -⟩ := hx.1.cons
    simp only [htext, List.length_append, List.length_cons]
    omega
  obtain ⟨rest, hread, hrest⟩ := hx.2 fuel cs _ hcs (h.subEnds xs htail) (by omega)
  obtain ⟨rest', hloop, hrest'⟩ := h.loop_reads hxs htail x.2 fuel hrest (by omega)
  refine ⟨rest', ?_, hrest'⟩
  rw [htop]
  simp only [hread, pure_bind]
  exact hloop

end

/-! ### Comparisons, conjunctions and disjunctions -/

theorem Starts.afterSpace {text : List Char} (h : Starts text) (tail : List Char) :
    Midas.Dsl.Expression.skipWhitespace (' ' :: (text ++ tail)) = text ++ tail :=
  (skipWhitespace_space _).trans (h.skipWhitespace tail)

theorem termEnds_of_space {tail : List Char}
    (h : ∀ c ∈ (skipWhitespace tail).head?, c ≠ '(' ∧ c ≠ '.' ∧ c ≠ '[') : TermEnds (' ' :: tail) := by
  refine ⟨fun c hc => ?_, fun c hc => h c (skipWhitespace_space tail ▸ hc)⟩
  obtain rfl : ' ' = c := by simpa using hc
  decide

theorem BinOp.head_print (op : BinOp) : ∃ c cs, op.print = c :: cs ∧ isAsciiWhitespace c = false ∧
    c ≠ '(' ∧ c ≠ '.' ∧ c ≠ '[' := by
  cases op <;> exact ⟨_, _, rfl, by decide, by decide, by decide, by decide⟩

theorem reads_binOp {k : ℕ} {s s' : List Char} {lhs rhs : Expr F} (op : BinOp)
    (hlhs : Reads (parseTerm len) k TermEnds s lhs) (hrhs : Reads (parseTerm len) k TermEnds s' rhs) :
    Reads (parseCmp len) (k + 1) CmpEnds (s ++ ' ' :: (op.print ++ ' ' :: s')) (.binOp op lhs rhs) := by
  refine ⟨hlhs.1.append _, fun fuel cs tail hcs htail hfuel => ?_⟩
  obtain ⟨fuel, rfl⟩ : ∃ n, fuel = n + 1 := ⟨fuel - 1, by omega⟩
  obtain ⟨c, ops, hop, hspace, hne⟩ := op.head_print
  have hsplit : s ++ ' ' :: (op.print ++ ' ' :: s') ++ tail =
      s ++ ' ' :: (op.print ++ ' ' :: (s' ++ tail)) := by
    simp
  rw [hsplit] at hcs hfuel
  have hskip : skipWhitespace (op.print ++ ' ' :: (s' ++ tail)) = op.print ++ ' ' :: (s' ++ tail) := by
    rw [hop]
    exact skipWhitespace_of_head hspace _
  have hends : TermEnds (' ' :: (op.print ++ ' ' :: (s' ++ tail))) := by
    refine termEnds_of_space fun d hd => ?_
    rw [hskip, hop] at hd
    obtain rfl : c = d := by simpa using hd
    exact hne
  obtain ⟨rest, hread, hrest⟩ := hlhs.2 fuel cs _ hcs hends (by omega)
  rw [skipWhitespace_space, hskip] at hrest
  have hlength : (s' ++ tail).length ≤ (s ++ ' ' :: (op.print ++ ' ' :: (s' ++ tail))).length := by
    simp only [List.length_append, List.length_cons]
    omega
  obtain ⟨rest', hread', hrest'⟩ :=
    hrhs.2 fuel _ tail (hrhs.1.afterSpace tail) htail.toTermEnds (by omega)
  refine ⟨rest', ?_, hrest'⟩
  rw [parseCmp]
  simp only [hread, pure_bind, binOp?_print hrest, hread']

theorem reads_operand {k : ℕ} {s : List Char} {e : Expr F} (h : Reads (parseTerm len) k TermEnds s e) :
    Reads (parseCmp len) (k + 1) CmpEnds s e := by
  refine ⟨h.1, fun fuel cs tail hcs htail hfuel => ?_⟩
  obtain ⟨fuel, rfl⟩ : ∃ n, fuel = n + 1 := ⟨fuel - 1, by omega⟩
  obtain ⟨rest, hread, hrest⟩ := h.2 fuel cs tail hcs htail.toTermEnds (by omega)
  refine ⟨skipWhitespace rest, ?_, (skipWhitespace_skipWhitespace rest).trans hrest⟩
  rw [parseCmp]
  simp only [hread, pure_bind, (binOp?_congr hrest).trans htail.compares]

theorem joins_and : Joins (F := F) (parseCmp len) (andLoop len) .and
    (fun cs => eat "&&" cs <|> eatKeyword "and" cs) " and ".toList CmpEnds AndEnds where
  loop_succ fuel lhs cs := (andLoop.eq_def len (fuel + 1) lhs cs).trans rfl
  congr cs cs' h := by simp only [eat_congr h, eatKeyword_congr h]
  found cs := by
    have hskip : skipWhitespace (" and ".toList ++ cs) = "and".toList ++ ' ' :: cs := by
      exact skipWhitespace_space _
    have hne : eat "&&" (" and ".toList ++ cs) = none := by
      refine eat_of_ne rfl fun d hd => ?_
      rw [hskip] at hd
      obtain rfl : 'a' = d := by simpa using hd
      decide
    rw [hne, eatKeyword_of_eq hskip]
    rfl
  between cs := by
    have hhead : ∀ c ∈ (skipWhitespace ('a' :: 'n' :: 'd' :: ' ' :: cs)).head?, c = 'a' := by
      intro c hc
      rw [skipWhitespace_of_head (by decide)] at hc
      simpa [eq_comm] using hc
    refine (termEnds_of_space fun c hc => ?_).cmp fun c hc => ?_
    · rw [hhead c hc]
      decide
    · rw [hhead c (skipWhitespace_space _ ▸ hc)]
      decide
  last tail h := ⟨h.toCmpEnds, h.conjoins⟩

theorem joins_or : Joins (F := F) (parseAnd len) (orLoop len) .or
    (fun cs => eat "||" cs <|> eatKeyword "or" cs) " or ".toList AndEnds OrEnds where
  loop_succ fuel lhs cs := (orLoop.eq_def len (fuel + 1) lhs cs).trans rfl
  congr cs cs' h := by simp only [eat_congr h, eatKeyword_congr h]
  found cs := by
    have hskip : skipWhitespace (" or ".toList ++ cs) = "or".toList ++ ' ' :: cs := by
      exact skipWhitespace_space _
    have hne : eat "||" (" or ".toList ++ cs) = none := by
      refine eat_of_ne rfl fun d hd => ?_
      rw [hskip] at hd
      obtain rfl : 'o' = d := by simpa using hd
      decide
    rw [hne, eatKeyword_of_eq hskip]
    rfl
  between cs := by
    have hhead : ∀ c ∈ (skipWhitespace ('o' :: 'r' :: ' ' :: cs)).head?, c = 'o' := by
      intro c hc
      rw [skipWhitespace_of_head (by decide)] at hc
      simpa [eq_comm] using hc
    refine ((termEnds_of_space fun c hc => ?_).cmp fun c hc => ?_).and fun c hc => ?_
    · rw [hhead c hc]
      decide
    · rw [hhead c (skipWhitespace_space _ ▸ hc)]
      decide
    · rw [hhead c (skipWhitespace_space _ ▸ hc)]
      decide
  last tail h := ⟨h.toAndEnds, h.disjoins⟩

theorem reads_conjunction {x : List Char × Expr F} {xs : List (List Char × Expr F)}
    (h : ∀ y ∈ x :: xs, Reads (parseCmp len) 2 CmpEnds y.1 y.2) :
    Reads (parseAnd len) 3 AndEnds (x.1 ++ joined " and ".toList xs)
      (xs.foldl (fun e y => .and e y.2) x.2) :=
  joins_and.reads (fun fuel cs => by rw [parseAnd]) h

theorem reads_disjunction {x : List Char × Expr F} {xs : List (List Char × Expr F)}
    (h : ∀ y ∈ x :: xs, Reads (parseAnd len) 3 AndEnds y.1 y.2) :
    Reads (parseOr len) 4 OrEnds (x.1 ++ joined " or ".toList xs)
      (xs.foldl (fun e y => .or e y.2) x.2) :=
  joins_or.reads (fun fuel cs => by rw [parseOr]) h

/-- An operand is a conjunction of one comparison, and a disjunction of one conjunction. -/
theorem reads_and_of_cmp {s : List Char} {e : Expr F} (h : Reads (parseCmp len) 2 CmpEnds s e) :
    Reads (parseAnd len) 3 AndEnds s e := by
  have hone : ∀ y ∈ [(s, e)], Reads (parseCmp len) 2 CmpEnds y.1 y.2 := by simpa using h
  simpa [joined] using reads_conjunction hone

theorem reads_or_of_and {s : List Char} {e : Expr F} (h : Reads (parseAnd len) 3 AndEnds s e) :
    Reads (parseOr len) 4 OrEnds s e := by
  have hone : ∀ y ∈ [(s, e)], Reads (parseAnd len) 3 AndEnds y.1 y.2 := by simpa using h
  simpa [joined] using reads_disjunction hone

end Midas.Dsl.Expression
