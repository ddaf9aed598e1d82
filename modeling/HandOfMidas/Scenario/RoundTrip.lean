import HandOfMidas.Scenario.ReadBack

/-! Every documented expression is read back, with its strings as their bytes; so exactly the ones
    whose strings are ASCII come back as they were written. -/

namespace Midas.Dsl.Expression

variable {F : Type} [F64 F] {len : ℕ}

/-! ### Literals -/

theorem reads_string (s : List Char) :
    Reads (F := F) (parseTerm len) 1 TermEnds (quoted s) (.literal (.str s)) := by
  refine ⟨⟨'"', rfl, by decide⟩, fun fuel cs tail hcs _ hfuel => ⟨tail, ?_, rfl⟩⟩
  obtain ⟨fuel, rfl⟩ : ∃ n, fuel = n + 1 := ⟨fuel - 1, by omega⟩
  have hparse : parseString len (quoted s ++ tail) = .ok (s, tail) := parseString_quoted s tail
  rw [quoted, List.cons_append] at hcs hparse
  have hopen : '"' ≠ '(' := by decide
  rw [parseTerm, hcs]
  simp only [if_neg hopen, true_or, if_true, hparse, read_ok, pure_bind]

theorem not_isAsciiWhitespace_of_isDigit {c : Char} (h : c.isDigit = true) :
    isAsciiWhitespace c = false := by
  by_contra hws
  simp only [isAsciiWhitespace, Bool.not_eq_false, Bool.or_eq_true, decide_eq_true_eq] at hws
  rcases hws with (((rfl | rfl) | rfl) | rfl) | rfl <;> simp at h

theorem reads_numeral {text : List Char} {v : Value F}
    (hhead : ∃ c cs, text = c :: cs ∧ (c.isDigit = true ∨ c = '-'))
    (hparse : ∀ tail, TermEnds tail →
      (parseNumeral len (text ++ tail) : Except ParseError (Value F × List Char)) = .ok (v, tail)) :
    Reads (parseTerm len) 1 TermEnds text (.literal v) := by
  obtain ⟨c, text', rfl, hc⟩ := hhead
  have hne : isAsciiWhitespace c = false ∧ c ≠ ')' ∧ c ≠ '(' ∧ c ≠ '"' ∧ c ≠ '\'' := by
    rcases hc with hc | rfl
    · refine ⟨not_isAsciiWhitespace_of_isDigit hc, ?_, ?_, ?_, ?_⟩
      all_goals
        rintro rfl
        simp at hc
    · decide
  obtain ⟨hws, hclose, hopen, hquote, htick⟩ := hne
  refine ⟨⟨c, rfl, hws, hclose⟩, fun fuel cs tail hcs htail hfuel => ⟨tail, ?_, rfl⟩⟩
  obtain ⟨fuel, rfl⟩ : ∃ n, fuel = n + 1 := ⟨fuel - 1, by omega⟩
  have hread := hparse tail htail
  have hnumeral : c.isDigit = true ∨ c = '-' ∨ c = '+' := hc.elim .inl fun h => .inr (.inl h)
  rw [List.cons_append] at hcs hread
  rw [parseTerm, hcs]
  simp only [if_neg hopen, if_neg (not_or.mpr ⟨hquote, htick⟩), if_pos hnumeral, hread, read_ok,
    pure_bind]

theorem IsDigits.head {digits : List Char} (h : IsDigits digits) :
    ∃ d ds, digits = d :: ds ∧ d.isDigit = true := by
  obtain ⟨d, ds, rfl⟩ := List.exists_cons_of_ne_nil h.1
  exact ⟨d, ds, rfl, h.2 d List.mem_cons_self⟩

theorem head_of_sign {sign whole : List Char} (rest : List Char) (hsign : sign = [] ∨ sign = ['-'])
    (hwhole : IsDigits whole) :
    ∃ c cs, sign ++ whole ++ rest = c :: cs ∧ (c.isDigit = true ∨ c = '-') := by
  obtain ⟨d, ds, rfl, hd⟩ := hwhole.head
  rcases hsign with rfl | rfl
  · exact ⟨d, ds ++ rest, rfl, .inl hd⟩
  · exact ⟨'-', d :: ds ++ rest, rfl, .inr rfl⟩

theorem reads_int (i : Int64) :
    Reads (F := F) (parseTerm len) 1 TermEnds i.toInt.repr.toList (.literal (.int i)) := by
  refine reads_numeral ?_ fun tail htail => parseNumeral_int i htail
  obtain ⟨sign, whole, heq, hsign, hwhole, -⟩ := repr_int i
  have hhead := head_of_sign [] hsign hwhole
  rwa [List.append_nil, ← heq] at hhead

theorem reads_num {n : F} (h : (Value.num n).Documented) :
    Reads (parseTerm len) 1 TermEnds (F64.text n) (.literal (.num n)) := by
  refine reads_numeral ?_ fun tail htail => parseNumeral_num h htail
  obtain ⟨⟨sign, whole, frac, htext, hsign, hwhole, -⟩, -⟩ := h
  rw [htext]
  exact head_of_sign _ hsign hwhole

/-! ### Words, paths and calls -/

theorem IsWord.starts {isByte : Char → Bool} {name : List Char} (h : IsWord isByte name) :
    Starts name := by
  obtain ⟨c, cs, rfl, halpha⟩ := h.cons
  refine ⟨c, rfl, not_isAsciiWhitespace_of_alpha halpha, ?_⟩
  rintro rfl
  revert halpha
  decide

theorem not_special_of_alpha {c : Char} (h : c.isAlpha = true ∨ c = '_') :
    (c ≠ '(' ∧ c ≠ '"' ∧ c ≠ '\'' ∧ c ≠ '-' ∧ c ≠ '+' ∧ c ≠ '*') ∧ c.isDigit = false := by
  have hdigit : ¬c.isDigit = true := by
    intro hdigit
    rcases h with halpha | rfl
    · rw [isAlpha_iff] at halpha
      simp only [Char.isDigit, Bool.and_eq_true, decide_eq_true_eq, UInt32.le_iff_toNat_le] at hdigit
      have h9 : ('9').val.toNat = 57 := rfl
      omega
    · revert hdigit
      decide
  refine ⟨⟨?_, ?_, ?_, ?_, ?_, ?_⟩, by simpa using hdigit⟩
  all_goals
    rintro rfl
    revert h
    decide

/-- A word is an identifier and what follows it. -/
theorem parseTerm_word {name tail cs : List Char} {fuel : ℕ} (h : IsIdent name)
    (hcs : skipWhitespace cs = name ++ tail) :
    parseTerm (F := F) len (fuel + 1) cs = parseIdentExpr len fuel (name ++ tail) := by
  obtain ⟨c, name', rfl, halpha⟩ := h.cons
  obtain ⟨hne, hdigit⟩ := not_special_of_alpha halpha
  rw [List.cons_append] at hcs ⊢
  rw [parseTerm, hcs]
  simp only [hne, hdigit, halpha, or_self, if_true, if_false, Bool.false_eq_true]

theorem reads_bool (b : Bool) :
    Reads (F := F) (parseTerm len) 1 TermEnds (Value.bool (F := F) b).print (.literal (.bool b)) := by
  have hword : IsIdent (Value.bool (F := F) b).print := by
    have hfalse : ∀ c ∈ "false".toList, isIdentByte c = true :=
      List.all_eq_true.mp (by decide)
    have htrue : ∀ c ∈ "true".toList, isIdentByte c = true :=
      List.all_eq_true.mp (by decide)
    cases b
    · exact ⟨⟨'f', rfl, by decide⟩, hfalse⟩
    · exact ⟨⟨'t', rfl, by decide⟩, htrue⟩
  refine ⟨hword.starts, fun fuel cs tail hcs htail hfuel => ⟨tail, ?_, rfl⟩⟩
  have hlength : 0 < (Value.bool (F := F) b).print.length := by
    obtain ⟨c, cs, heq, -⟩ := hword.cons
    simp [heq]
  rw [List.length_append] at hfuel
  obtain ⟨fuel, rfl⟩ : ∃ n, fuel = n + 2 := ⟨fuel - 2, by omega⟩
  rw [parseTerm_word hword hcs, parseIdentExpr, parseIdent,
    parseIdentOf_word hword fun c hc => (htail.next c hc).1]
  cases b
  · rfl
  · rfl

theorem parseIndex_print {idx : Index} (h : idx.Documented) (rest : List Char) :
    parseIndex (F := F) len (idx.print ++ ']' :: rest) = .ok (idx, ']' :: rest) := by
  cases idx with
  | int i =>
    obtain ⟨sign, whole, heq, hsign, hwhole, hvalue⟩ := repr_int i
    have hread : (parseNumber len (sign ++ whole ++ ']' :: rest) : Except ParseError (Value F × _)) =
        .ok (.int i, ']' :: rest) := by
      refine parseNumber_int hsign hwhole hvalue fun c hc => ?_
      obtain rfl : ']' = c := by simpa using hc
      decide
    obtain ⟨c, cs, hsplit, hc⟩ := head_of_sign (']' :: rest) hsign hwhole
    have hne : isAsciiWhitespace c = false ∧ c ≠ '*' ∧ c ≠ '"' ∧ c ≠ '\'' := by
      rcases hc with hc | rfl
      · exact ⟨not_isAsciiWhitespace_of_isDigit hc, by rintro rfl; simp at hc,
          by rintro rfl; simp at hc, by rintro rfl; simp at hc⟩
      · decide
    obtain ⟨hws, hstar, hquote, htick⟩ := hne
    rw [Index.print, heq, parseIndex, hsplit, skipWhitespace_of_head hws]
    rw [hsplit] at hread
    simp only [if_neg hstar, if_neg (not_or.mpr ⟨hquote, htick⟩), if_pos hc.symm, hread]
    rfl
  | str s =>
    have hread : parseString len (quoted s ++ ']' :: rest) = .ok (s, ']' :: rest) :=
      parseString_quoted s _
    have hstar : '"' ≠ '*' := by decide
    rw [Index.print, parseIndex]
    rw [quoted, List.cons_append] at hread ⊢
    rw [skipWhitespace_of_head (by decide)]
    simp only [if_neg hstar, true_or, if_true, hread]
    rfl
  | ident name =>
    have hread : parseIdentOf len (fun c => isIdentByte c || c = '-') (name ++ ']' :: rest) =
        .ok (name, ']' :: rest) := by
      refine parseIdentOf_word h fun c hc => ?_
      obtain rfl : ']' = c := by simpa using hc
      decide
    obtain ⟨c, name', rfl, halpha⟩ := h.cons
    obtain ⟨hne, hdigit⟩ := not_special_of_alpha halpha
    rw [Index.print, parseIndex]
    rw [List.cons_append] at hread ⊢
    rw [skipWhitespace_of_head (not_isAsciiWhitespace_of_alpha halpha)]
    simp only [hne, hdigit, halpha, or_self, if_true, if_false, Bool.false_eq_true]
    rw [parseIdentWithHyphen, hread]
    rfl
  | wildcard => rfl

theorem segments_head (segments : List Segment) {tail : List Char} (htail : TermEnds tail) :
    ∀ c ∈ (segments.flatMap Segment.print ++ tail).head?, isIdentByte c = false := by
  intro c hc
  cases segments with
  | nil => exact (htail.next c hc).1
  | cons segment segments =>
    cases segment with
    | field name =>
      obtain rfl : '.' = c := by simpa [Segment.print] using hc
      decide
    | index idx =>
      obtain rfl : '[' = c := by simpa [Segment.print] using hc
      decide

/-- The segments are read in front of a tail that ends a term. -/
theorem parseSegments_print {segments : List Segment} (h : ∀ segment ∈ segments, segment.Documented)
    {tail : List Char} (htail : TermEnds tail) {cs : List Char} (fuel : ℕ)
    (hcs : skipWhitespace cs = skipWhitespace (segments.flatMap Segment.print ++ tail))
    (hfuel : segments.length + 1 ≤ fuel) :
    ∃ rest, parseSegments (F := F) len fuel cs = pure (segments, rest) ∧
      skipWhitespace rest = skipWhitespace tail := by
  induction segments generalizing cs fuel with
  | nil =>
    obtain ⟨fuel, rfl⟩ : ∃ n, fuel = n + 1 := ⟨fuel - 1, by omega⟩
    have hcs : skipWhitespace cs = skipWhitespace tail := hcs
    have hdot : eat "." cs = none := eat_of_ne rfl fun c hc => (htail.afterSpace c (hcs ▸ hc)).2.1
    refine ⟨skipWhitespace cs, ?_, by rw [hcs, skipWhitespace_skipWhitespace]⟩
    have hopen : ∀ rest, skipWhitespace cs ≠ '[' :: rest := by
      intro rest heq
      exact (htail.afterSpace '[' (by rw [← hcs, heq]; rfl)).2.2 rfl
    rw [parseSegments, hdot]
    simp only
  | cons segment segments ih =>
    obtain ⟨fuel, rfl⟩ : ∃ n, fuel = n + 1 := ⟨fuel - 1, by simp at hfuel; omega⟩
    rw [List.length_cons] at hfuel
    obtain ⟨hsegment, hsegments⟩ := List.forall_mem_cons.mp h
    obtain ⟨rest, hread, hrest⟩ := ih hsegments fuel rfl (by omega)
    refine ⟨rest, ?_, hrest⟩
    rw [List.flatMap_cons, List.append_assoc] at hcs
    rw [parseSegments]
    cases segment with
    | field name =>
      have hdot : eat "." cs = some (name ++ (segments.flatMap Segment.print ++ tail)) :=
        eat_of_eq (hcs.trans (skipWhitespace_of_head (by decide) _))
      have hname : parseIdentOf len isIdentByte (name ++ (segments.flatMap Segment.print ++ tail)) =
          .ok (name, segments.flatMap Segment.print ++ tail) :=
        parseIdentOf_word hsegment (segments_head segments htail)
      simp only [hdot, parseIdent, hname, read_ok, pure_bind, hread]
    | index idx =>
      have hsplit : (Segment.index idx).print ++ (segments.flatMap Segment.print ++ tail) =
          '[' :: (idx.print ++ ']' :: (segments.flatMap Segment.print ++ tail)) := by
        simp [Segment.print]
      rw [hsplit, skipWhitespace_of_head (by decide)] at hcs
      have hdot : eat "." cs = none := by
        refine eat_of_ne rfl fun d hd => ?_
        rw [hcs] at hd
        obtain rfl : '[' = d := by simpa using hd
        decide
      have hclose : expect len "]" (']' :: (segments.flatMap Segment.print ++ tail)) =
          .ok (segments.flatMap Segment.print ++ tail) :=
        expect_of_eq (skipWhitespace_of_head (by decide) _)
      simp only [hdot, hcs, parseIndex_print (F := F) hsegment, hclose, read_ok, pure_bind, hread]

theorem length_le_segments (segments : List Segment) :
    segments.length ≤ (segments.flatMap Segment.print).length := by
  induction segments with
  | nil => rfl
  | cons segment segments ih =>
    have hone : 1 ≤ segment.print.length := by cases segment <;> simp [Segment.print]
    rw [List.flatMap_cons, List.length_append, List.length_cons]
    omega

/-- A name that is not followed by a parenthesis is the root of a path. -/
theorem reads_path {root : List Char} {segments : List Segment} (hroot : IsName root)
    (hsegments : ∀ segment ∈ segments, segment.Documented) :
    Reads (F := F) (parseTerm len) 1 TermEnds (root ++ segments.flatMap Segment.print)
      (.path root segments) := by
  obtain ⟨hword, htrue, hfalse⟩ := hroot
  refine ⟨hword.starts.append _, fun fuel cs tail hcs htail hfuel => ?_⟩
  obtain ⟨c, root', hcons, -⟩ := hword.cons
  have hmany := length_le_segments segments
  have hlength : 0 < root.length := by simp [hcons]
  rw [List.append_assoc] at hcs hfuel
  simp only [List.length_append] at hfuel
  obtain ⟨fuel, rfl⟩ : ∃ n, fuel = n + 2 := ⟨fuel - 2, by omega⟩
  obtain ⟨rest, hread, hrest⟩ : ∃ rest, parseSegments (F := F) len fuel
      (skipWhitespace (segments.flatMap Segment.print ++ tail)) = pure (segments, rest) ∧
        skipWhitespace rest = skipWhitespace tail :=
    parseSegments_print hsegments htail fuel (skipWhitespace_skipWhitespace _) (by omega)
  have hopen : ∀ rest, skipWhitespace (segments.flatMap Segment.print ++ tail) ≠ '(' :: rest := by
    intro rest heq
    cases segments with
    | nil =>
      have htail' : skipWhitespace tail = '(' :: rest := heq
      exact (htail.afterSpace '(' (by rw [htail']; rfl)).1 rfl
    | cons segment segments =>
      have hhead : skipWhitespace ((segment :: segments).flatMap Segment.print ++ tail) =
          (segment :: segments).flatMap Segment.print ++ tail := by
        cases segment with
        | field name => exact skipWhitespace_of_head (by decide) _
        | index idx => exact skipWhitespace_of_head (by decide) _
      rw [hhead] at heq
      cases segment <;> simp [Segment.print] at heq
  refine ⟨rest, ?_, hrest⟩
  rw [parseTerm_word hword hcs, parseIdentExpr, parseIdent,
    parseIdentOf_word hword (segments_head segments htail)]
  simp only [read_ok, pure_bind, if_neg htrue, if_neg hfalse, hread]

/-! ### Arguments -/

theorem orEnds_of_paren (tail : List Char) : OrEnds (')' :: tail) := by
  refine orEnds_of_closes (fun c hc => ?_) fun c hc => ?_
  · obtain rfl : ')' = c := by simpa using hc
    decide
  · rw [skipWhitespace_of_head (by decide)] at hc
    exact .inl (by simpa [eq_comm] using hc)

theorem argsLoop_print {e : Expr F} {es : List (Expr F)}
    (h : ∀ a ∈ e :: es, Reads (parseOr len) 4 OrEnds a.print a) {tail cs : List Char} (fuel : ℕ)
    (hcs : skipWhitespace cs = e.print ++ (printMore es ++ ')' :: tail))
    (hfuel : 7 * (e.print ++ (printMore es ++ ')' :: tail)).length + 5 ≤ fuel) :
    ∃ rest, argsLoop len fuel cs = pure (e :: es, rest) ∧ skipWhitespace rest = ')' :: tail := by
  induction es generalizing e cs fuel with
  | nil =>
    obtain ⟨fuel, rfl⟩ : ∃ n, fuel = n + 1 := ⟨fuel - 1, by omega⟩
    have hcs : skipWhitespace cs = e.print ++ ')' :: tail := hcs
    have hends : OrEnds (')' :: tail) := orEnds_of_paren tail
    obtain ⟨rest, hread, hrest⟩ := (h e List.mem_cons_self).2 fuel cs _ hcs hends (by
      simp only [printMore, List.nil_append] at hfuel
      omega)
    rw [skipWhitespace_of_head (by decide)] at hrest
    have hcomma : eat "," rest = none := by
      refine eat_of_ne rfl fun d hd => ?_
      rw [hrest] at hd
      obtain rfl : ')' = d := by simpa using hd
      decide
    refine ⟨skipWhitespace rest, ?_, (skipWhitespace_skipWhitespace rest).trans hrest⟩
    rw [argsLoop]
    simp only [hread, pure_bind, hcomma]
  | cons e' es ih =>
    obtain ⟨fuel, rfl⟩ : ∃ n, fuel = n + 1 := ⟨fuel - 1, by omega⟩
    obtain ⟨he, hes⟩ := List.forall_mem_cons.mp h
    have hsplit : printMore (e' :: es) ++ ')' :: tail =
        ',' :: ' ' :: (e'.print ++ (printMore es ++ ')' :: tail)) := by
      simp [printMore]
    rw [hsplit] at hcs hfuel
    have hends : OrEnds (',' :: ' ' :: (e'.print ++ (printMore es ++ ')' :: tail))) := by
      refine orEnds_of_closes (fun c hc => ?_) fun c hc => ?_
      · obtain rfl : ',' = c := by simpa using hc
        decide
      · rw [skipWhitespace_of_head (by decide)] at hc
        exact .inr (by simpa [eq_comm] using hc)
    obtain ⟨rest, hread, hrest⟩ := he.2 fuel cs _ hcs hends (by omega)
    rw [skipWhitespace_of_head (by decide)] at hrest
    have hcomma : eat "," rest = some (' ' :: (e'.print ++ (printMore es ++ ')' :: tail))) :=
      eat_of_eq hrest
    have hstarts : Starts e'.print := (hes e' List.mem_cons_self).1
    obtain ⟨rest', hread', hrest'⟩ := ih hes fuel (hstarts.afterSpace _) (by
      simp only [List.length_append, List.length_cons] at hfuel ⊢
      omega)
    refine ⟨rest', ?_, hrest'⟩
    rw [argsLoop]
    simp only [hread, pure_bind, hcomma, hread']

theorem reads_call {name : List Char} {args : List (Expr F)} (hname : IsName name)
    (h : ∀ a ∈ args, Reads (parseOr len) 4 OrEnds a.print a) :
    Reads (parseTerm len) 1 TermEnds (name ++ '(' :: (printArgs args ++ [')'])) (.call name args) := by
  obtain ⟨hword, htrue, hfalse⟩ := hname
  refine ⟨hword.starts.append _, fun fuel cs tail hcs _ hfuel => ⟨tail, ?_, rfl⟩⟩
  obtain ⟨c, name', hcons, -⟩ := hword.cons
  have hlength : 0 < name.length := by simp [hcons]
  have hsplit : name ++ '(' :: (printArgs args ++ [')']) ++ tail =
      name ++ '(' :: (printArgs args ++ ')' :: tail) := by
    simp
  rw [hsplit] at hcs hfuel
  simp only [List.length_append, List.length_cons] at hfuel
  obtain ⟨fuel, rfl⟩ : ∃ n, fuel = n + 3 := ⟨fuel - 3, by omega⟩
  have hargs : ∃ rest, parseArgs len (fuel + 1) (printArgs args ++ ')' :: tail) = pure (args, rest) ∧
      skipWhitespace rest = ')' :: tail := by
    cases args with
    | nil =>
      refine ⟨')' :: tail, ?_, skipWhitespace_of_head (by decide) _⟩
      rw [parseArgs, printArgs, List.nil_append, skipWhitespace_of_head (by decide)]
      rfl
    | cons e es =>
      have hstarts : Starts e.print := (h e List.mem_cons_self).1
      have htext : printArgs (e :: es) ++ ')' :: tail = e.print ++ (printMore es ++ ')' :: tail) := by
        simp [printArgs]
      obtain ⟨rest, hread, hrest⟩ := argsLoop_print h fuel (hstarts.skipWhitespace _) (by
        rw [← htext]
        simp only [List.length_append, List.length_cons]
        omega)
      refine ⟨rest, ?_, hrest⟩
      have hclose : ∀ rest, e.print ++ (printMore es ++ ')' :: tail) ≠ ')' :: rest := by
        obtain ⟨c, text, heq, -, hne⟩ := hstarts.cons
        intro rest hhead
        rw [heq] at hhead
        exact hne (List.cons.inj hhead).1
      rw [parseArgs, htext, hstarts.skipWhitespace]
      simp only [hread]
  obtain ⟨rest, hread, hrest⟩ := hargs
  have hopen : skipWhitespace ('(' :: (printArgs args ++ ')' :: tail)) =
      '(' :: (printArgs args ++ ')' :: tail) := skipWhitespace_of_head (by decide) _
  rw [parseTerm_word hword hcs, parseIdentExpr, parseIdent, parseIdentOf_word hword fun c hc => by
    obtain rfl : '(' = c := by simpa using hc
    decide]
  have hclose : expect len ")" rest = .ok tail := expect_of_eq hrest
  simp only [read_ok, pure_bind, if_neg htrue, if_neg hfalse, hopen, hread, hclose]

/-! ### Trees -/

theorem reads_paren {text : List Char} {e : Expr F} (h : Reads (parseOr len) 4 OrEnds text e) :
    Reads (parseTerm len) 1 TermEnds ('(' :: (text ++ [')'])) e := by
  refine ⟨⟨'(', rfl, by decide⟩, fun fuel cs tail hcs _ hfuel => ⟨tail, ?_, rfl⟩⟩
  obtain ⟨fuel, rfl⟩ : ∃ n, fuel = n + 1 := ⟨fuel - 1, by omega⟩
  have hsplit : '(' :: (text ++ [')']) ++ tail = '(' :: (text ++ ')' :: tail) := by simp
  rw [hsplit] at hcs hfuel
  rw [List.length_cons] at hfuel
  obtain ⟨rest, hread, hrest⟩ :=
    h.2 fuel _ _ (h.1.skipWhitespace _) (orEnds_of_paren tail) (by omega)
  rw [skipWhitespace_of_head (by decide)] at hrest
  have hclose : expect len ")" rest = .ok tail := expect_of_eq hrest
  rw [parseTerm, hcs]
  simp only [if_true, hread, pure_bind, hclose, read_ok]

/-- How the text of an expression is read, on its own and as an operand. -/
structure ReadsAs (len : ℕ) (e : Expr F) : Prop where
  alone : Reads (parseOr len) 4 OrEnds e.print e
  operand : Reads (parseTerm len) 1 TermEnds (wrap e.compound e.print) e

theorem ReadsAs.of_term {e : Expr F} (hterm : Reads (parseTerm len) 1 TermEnds e.print e)
    (hplain : e.compound = false) : ReadsAs len e := by
  refine ⟨reads_or_of_and (reads_and_of_cmp (reads_operand hterm)), ?_⟩
  rwa [hplain]

theorem ReadsAs.of_or {e : Expr F} (halone : Reads (parseOr len) 4 OrEnds e.print e)
    (hcompound : e.compound = true) : ReadsAs len e := by
  refine ⟨halone, ?_⟩
  rw [hcompound]
  exact reads_paren halone

theorem reads_and {lhs rhs : Expr F} (hlhs : ReadsAs len lhs) (hrhs : ReadsAs len rhs) :
    Reads (parseOr len) 4 OrEnds (Expr.and lhs rhs).print (.and lhs rhs) := by
  have hpair : ∀ y ∈ [(wrap lhs.compound lhs.print, lhs), (wrap rhs.compound rhs.print, rhs)],
      Reads (parseCmp len) 2 CmpEnds y.1 y.2 := by
    simpa using ⟨reads_operand hlhs.operand, reads_operand hrhs.operand⟩
  simpa [joined, Expr.print] using reads_or_of_and (reads_conjunction hpair)

theorem reads_or {lhs rhs : Expr F} (hlhs : ReadsAs len lhs) (hrhs : ReadsAs len rhs) :
    Reads (parseOr len) 4 OrEnds (Expr.or lhs rhs).print (.or lhs rhs) := by
  have hside : ∀ {e : Expr F}, ReadsAs len e →
      Reads (parseAnd len) 3 AndEnds (wrap e.compound e.print) e := fun he =>
    reads_and_of_cmp (reads_operand he.operand)
  have hpair : ∀ y ∈ [(wrap lhs.compound lhs.print, lhs), (wrap rhs.compound rhs.print, rhs)],
      Reads (parseAnd len) 3 AndEnds y.1 y.2 := by
    simpa using ⟨hside hlhs, hside hrhs⟩
  simpa [joined, Expr.print] using reads_disjunction hpair

mutual

theorem Expr.readsAs : ∀ e : Expr F, e.Documented → ReadsAs len e
  | .literal (.int i), _ => .of_term (reads_int i) rfl
  | .literal (.num _), h => .of_term (reads_num h) rfl
  | .literal (.str s), _ => .of_term (reads_string s) rfl
  | .literal (.bool b), _ => .of_term (reads_bool b) rfl
  | .path _ _, h => .of_term (reads_path h.1 h.2) rfl
  | .call _ args, h => .of_term (reads_call h.1 fun a ha => (readsAs_args args h.2 a ha).alone) rfl
  | .binOp op lhs rhs, h =>
    have hcmp := reads_binOp op (lhs.readsAs h.1).operand (rhs.readsAs h.2).operand
    .of_or (reads_or_of_and (reads_and_of_cmp hcmp)) rfl
  | .and lhs rhs, h => .of_or (reads_and (lhs.readsAs h.1) (rhs.readsAs h.2)) rfl
  | .or lhs rhs, h => .of_or (reads_or (lhs.readsAs h.1) (rhs.readsAs h.2)) rfl

theorem readsAs_args : ∀ es : List (Expr F), AllDocumented es → ∀ e ∈ es, ReadsAs len e
  | [], _ => fun _ he => nomatch he
  | e :: es, h => List.forall_mem_cons.mpr ⟨e.readsAs h.1, readsAs_args es h.2⟩

end

/-! ### Without parentheses -/

theorem Expr.reads_bare {e : Expr F} (h : e.Documented) (hplain : e.junction = false) :
    Reads (parseCmp len) 2 CmpEnds e.print e := by
  cases e with
  | binOp op lhs rhs => exact reads_binOp op (lhs.readsAs h.1).operand (rhs.readsAs h.2).operand
  | and lhs rhs => exact nomatch hplain
  | or lhs rhs => exact nomatch hplain
  | literal v => exact reads_operand ((Expr.literal v).readsAs h).operand
  | path root segments => exact reads_operand ((Expr.path root segments).readsAs h).operand
  | call name args => exact reads_operand ((Expr.call name args).readsAs h).operand

theorem Operand.reads (x : Operand F) (h : x.expr.Documented) :
    Reads (parseCmp len) 2 CmpEnds x.text x.expr := by
  obtain ⟨parens, e, hplain⟩ := x
  cases parens with
  | false => exact Expr.reads_bare h (hplain rfl)
  | true => exact reads_operand (reads_paren (e.readsAs h).alone)

theorem documented_foldl_and {e : Expr F} {xs : List (Operand F)} :
    (xs.foldl (fun e x => .and e x.expr) e).Documented ↔
      e.Documented ∧ ∀ x ∈ xs, x.expr.Documented := by
  induction xs generalizing e with
  | nil => simp
  | cons x xs ih => simp [ih, Expr.Documented, and_assoc]

theorem documented_foldl_or {e : Expr F} {cs : List (Conjunction F)} :
    (cs.foldl (fun e c => .or e c.expr) e).Documented ↔
      e.Documented ∧ ∀ c ∈ cs, c.expr.Documented := by
  induction cs generalizing e with
  | nil => simp
  | cons c cs ih => simp [ih, Expr.Documented, and_assoc]

theorem Conjunction.reads (c : Conjunction F) (h : c.expr.Documented) :
    Reads (parseAnd len) 3 AndEnds c.text c.expr := by
  obtain ⟨hfirst, hmore⟩ := documented_foldl_and.mp h
  have hall : ∀ y ∈ (c.first.text, c.first.expr) :: c.more.map fun x => (x.text, x.expr),
      Reads (parseCmp len) 2 CmpEnds y.1 y.2 := by
    refine List.forall_mem_cons.mpr ⟨c.first.reads hfirst, fun y hy => ?_⟩
    obtain ⟨x, hx, rfl⟩ := List.mem_map.mp hy
    exact x.reads (hmore x hx)
  simpa [joined, Conjunction.text, Conjunction.expr, List.flatMap_map, List.foldl_map] using
    reads_conjunction hall

theorem Disjunction.reads (d : Disjunction F) (h : d.expr.Documented) :
    Reads (parseOr len) 4 OrEnds d.text d.expr := by
  obtain ⟨hfirst, hmore⟩ := documented_foldl_or.mp h
  have hall : ∀ y ∈ (d.first.text, d.first.expr) :: d.more.map fun c => (c.text, c.expr),
      Reads (parseAnd len) 3 AndEnds y.1 y.2 := by
    refine List.forall_mem_cons.mpr ⟨d.first.reads hfirst, fun y hy => ?_⟩
    obtain ⟨c, hc, rfl⟩ := List.mem_map.mp hy
    exact c.reads (hmore c hc)
  simpa [joined, Disjunction.text, Disjunction.expr, List.flatMap_map, List.foldl_map] using
    reads_disjunction hall

/-! ### Strings as bytes -/

theorem isAscii_of_isDigit {c : Char} (h : c.isDigit = true) : c.toNat < 128 := by
  simp only [Char.isDigit, Bool.and_eq_true, decide_eq_true_eq, UInt32.le_iff_toNat_le] at h
  have h9 : ('9').val.toNat = 57 := rfl
  have hc : c.toNat = c.val.toNat := rfl
  omega

theorem isAscii_of_isIdentByte {c : Char} (h : isIdentByte c = true) : c.toNat < 128 := by
  simp only [isIdentByte, Char.isAlphanum, Bool.or_eq_true, decide_eq_true_eq] at h
  rcases h with (halpha | hdigit) | rfl
  · rw [isAlpha_iff] at halpha
    have hc : c.toNat = c.val.toNat := rfl
    omega
  · exact isAscii_of_isDigit hdigit
  · decide

theorem IsIdent.isAscii {name : List Char} (h : IsIdent name) : IsAscii name := fun c hc =>
  isAscii_of_isIdentByte (h.2 c hc)

theorem IsKey.isAscii {name : List Char} (h : IsKey name) : IsAscii name := by
  intro c hc
  rcases Bool.or_eq_true _ _ ▸ h.2 c hc with hbyte | hhyphen
  · exact isAscii_of_isIdentByte hbyte
  · rw [of_decide_eq_true hhyphen]
    decide

theorem isAscii_append {s s' : List Char} (h : IsAscii s) (h' : IsAscii s') : IsAscii (s ++ s') :=
  fun c hc => (List.mem_append.mp hc).elim (h c) (h' c)

theorem isAscii_sign {sign : List Char} (h : sign = [] ∨ sign = ['-']) : IsAscii sign := by
  rcases h with rfl | rfl
  · exact fun c hc => nomatch hc
  · exact fun c hc => List.mem_singleton.mp hc ▸ by decide

theorem isAscii_int (i : Int64) : IsAscii i.toInt.repr.toList := by
  obtain ⟨sign, whole, heq, hsign, hwhole, -⟩ := repr_int i
  rw [heq]
  exact isAscii_append (isAscii_sign hsign) fun c hc => isAscii_of_isDigit (hwhole.2 c hc)

theorem IsDecimal.isAscii {text : List Char} (h : IsDecimal text) : IsAscii text := by
  obtain ⟨sign, whole, frac, rfl, hsign, hwhole, hfrac⟩ := h
  refine isAscii_append (isAscii_append (isAscii_sign hsign) fun c hc =>
    isAscii_of_isDigit (hwhole.2 c hc)) fun c hc => ?_
  rcases List.mem_cons.mp hc with rfl | hc
  · decide
  · exact isAscii_of_isDigit (hfrac.2 c hc)

theorem bytes_quoted (s : List Char) : bytes (quoted s) = quoted (bytes s) := by
  rw [quoted, bytes_cons, bytes_append, bytes_escape, bytes_singleton (by decide)]
  rfl

theorem bytes_wrap (compound : Bool) (text : List Char) :
    bytes (wrap compound text) = wrap compound (bytes text) := by
  cases compound with
  | false => rfl
  | true =>
    change bytes ('(' :: (text ++ [')'])) = '(' :: (bytes text ++ [')'])
    rw [bytes_cons, bytes_append, bytes_singleton (by decide), bytes_singleton (by decide)]
    rfl

theorem Value.bytes_print {v : Value F} (h : v.Documented) : bytes v.print = v.mangled.print := by
  cases v with
  | num n => exact bytes_of_isAscii h.1.isAscii
  | int i => exact bytes_of_isAscii (isAscii_int i)
  | str s => exact bytes_quoted s
  | bool b =>
    have hfalse : IsAscii "false".toList := isAscii_of_all (by decide)
    have htrue : IsAscii "true".toList := isAscii_of_all (by decide)
    cases b
    · exact bytes_of_isAscii hfalse
    · exact bytes_of_isAscii htrue

theorem Segment.bytes_print {segment : Segment} (h : segment.Documented) :
    bytes segment.print = segment.mangled.print := by
  cases segment with
  | field name =>
    rw [Segment.print, bytes_cons, bytes_singleton (by decide), bytes_of_isAscii (IsIdent.isAscii h)]
    rfl
  | index idx =>
    have hidx : bytes idx.print = idx.mangled.print := by
      cases idx with
      | int i => exact bytes_of_isAscii (isAscii_int i)
      | str s => exact bytes_quoted s
      | ident name => exact bytes_of_isAscii (IsKey.isAscii h)
      | wildcard => exact bytes_singleton (by decide)
    rw [Segment.print, bytes_cons, bytes_append, bytes_singleton (by decide),
      bytes_singleton (by decide), hidx]
    rfl

theorem bytes_segments {segments : List Segment} (h : ∀ segment ∈ segments, segment.Documented) :
    bytes (segments.flatMap Segment.print) =
      (segments.map Segment.mangled).flatMap Segment.print := by
  induction segments with
  | nil => rfl
  | cons segment segments ih =>
    obtain ⟨hsegment, hsegments⟩ := List.forall_mem_cons.mp h
    rw [List.flatMap_cons, bytes_append, Segment.bytes_print hsegment, ih hsegments, List.map_cons,
      List.flatMap_cons]

omit [F64 F] in
theorem Expr.compound_mangled (e : Expr F) : e.mangled.compound = e.compound := by
  cases e <;> rfl

theorem bytes_op (op : BinOp) : bytes op.print = op.print := by
  refine bytes_of_isAscii (isAscii_of_all ?_)
  cases op <;> decide

mutual

theorem Expr.bytes_print : ∀ e : Expr F, e.Documented → bytes e.print = e.mangled.print
  | .literal v, h => Value.bytes_print h
  | .path root segments, h => by
    rw [Expr.print, bytes_append, bytes_of_isAscii h.1.1.isAscii, bytes_segments h.2]
    rfl
  | .call name args, h => by
    rw [Expr.print, bytes_append, bytes_of_isAscii h.1.1.isAscii, bytes_cons, bytes_append,
      bytes_singleton (by decide), bytes_singleton (by decide), bytes_args args h.2]
    rfl
  | .binOp op lhs rhs, h => by
    rw [Expr.print, bytes_append, bytes_cons ' ' (op.print ++ _), bytes_append op.print,
      bytes_cons ' ' (wrap _ _), bytes_wrap, bytes_wrap, lhs.bytes_print h.1, rhs.bytes_print h.2,
      bytes_op, bytes_singleton (by decide), ← lhs.compound_mangled, ← rhs.compound_mangled]
    rfl
  | .and lhs rhs, h => by
    have hand : bytes " and ".toList = " and ".toList := bytes_of_isAscii (isAscii_of_all (by decide))
    rw [Expr.print, bytes_append, bytes_append, bytes_wrap, bytes_wrap, lhs.bytes_print h.1,
      rhs.bytes_print h.2, hand, ← lhs.compound_mangled, ← rhs.compound_mangled]
    rfl
  | .or lhs rhs, h => by
    have hor : bytes " or ".toList = " or ".toList := bytes_of_isAscii (isAscii_of_all (by decide))
    rw [Expr.print, bytes_append, bytes_append, bytes_wrap, bytes_wrap, lhs.bytes_print h.1,
      rhs.bytes_print h.2, hor, ← lhs.compound_mangled, ← rhs.compound_mangled]
    rfl

theorem bytes_args : ∀ es : List (Expr F), AllDocumented es →
    bytes (printArgs es) = printArgs (mangledArgs es)
  | [], _ => rfl
  | e :: es, h => by
    rw [printArgs, bytes_append, e.bytes_print h.1, bytes_more es h.2]
    rfl

theorem bytes_more : ∀ es : List (Expr F), AllDocumented es →
    bytes (printMore es) = printMore (mangledArgs es)
  | [], _ => rfl
  | e :: es, h => by
    have hcomma : bytes ", ".toList = ", ".toList := bytes_of_isAscii (isAscii_of_all (by decide))
    rw [printMore, bytes_append, bytes_append, hcomma, e.bytes_print h.1, bytes_more es h.2]
    rfl

end

mutual

theorem Expr.mangled_documented : ∀ e : Expr F, e.Documented → e.mangled.Documented
  | .literal (.int _), h => h
  | .literal (.num _), h => h
  | .literal (.str _), h => h
  | .literal (.bool _), h => h
  | .path root segments, h => by
    refine ⟨h.1, fun segment hsegment => ?_⟩
    obtain ⟨segment, hmem, rfl⟩ := List.mem_map.mp hsegment
    have hdoc := h.2 segment hmem
    cases segment with
    | field name => exact hdoc
    | index idx => cases idx <;> exact hdoc
  | .call _ args, h => ⟨h.1, mangled_documented_args args h.2⟩
  | .binOp _ lhs rhs, h => ⟨lhs.mangled_documented h.1, rhs.mangled_documented h.2⟩
  | .and lhs rhs, h => ⟨lhs.mangled_documented h.1, rhs.mangled_documented h.2⟩
  | .or lhs rhs, h => ⟨lhs.mangled_documented h.1, rhs.mangled_documented h.2⟩

theorem mangled_documented_args : ∀ es : List (Expr F), AllDocumented es →
    AllDocumented (mangledArgs es)
  | [], _ => trivial
  | e :: es, h => ⟨e.mangled_documented h.1, mangled_documented_args es h.2⟩

end

/-- A string that is not ASCII has more bytes than characters. -/
theorem bytes_eq_self_iff {s : List Char} : bytes s = s ↔ IsAscii s := by
  refine ⟨fun h => ?_, bytes_of_isAscii⟩
  have hle : ∀ s : List Char, s.length ≤ (bytes s).length := by
    intro s
    induction s with
    | nil => rfl
    | cons c s ih =>
      have hone : 1 ≤ (bytes [c]).length := by
        by_cases hc : c.toNat < 128
        · rw [bytes_singleton hc]
          rfl
        · have := (bytes_singleton_of_le (not_lt.mp hc)).1
          omega
      rw [bytes_cons, List.length_append, List.length_cons]
      omega
  induction s with
  | nil => exact fun c hc => nomatch hc
  | cons c s ih =>
    by_cases hc : c.toNat < 128
    · rw [bytes_cons, bytes_singleton hc] at h
      exact List.forall_mem_cons.mpr ⟨hc, ih (List.cons.inj h).2⟩
    · have hlength := congrArg List.length h
      have htwo := (bytes_singleton_of_le (not_lt.mp hc)).1
      have hrest := hle s
      rw [bytes_cons, List.length_append, List.length_cons] at hlength
      omega

theorem Segment.mangled_eq_iff (segment : Segment) : segment.mangled = segment ↔ segment.Ascii := by
  cases segment with
  | field name => exact ⟨fun _ => trivial, fun _ => rfl⟩
  | index idx =>
    cases idx with
    | str s => simpa [Segment.mangled, Index.mangled, Segment.Ascii] using bytes_eq_self_iff
    | int i => exact ⟨fun _ => trivial, fun _ => rfl⟩
    | ident name => exact ⟨fun _ => trivial, fun _ => rfl⟩
    | wildcard => exact ⟨fun _ => trivial, fun _ => rfl⟩

theorem mangled_segments (segments : List Segment) :
    segments.map Segment.mangled = segments ↔ ∀ segment ∈ segments, segment.Ascii := by
  induction segments with
  | nil => simp
  | cons segment segments ih =>
    rw [List.map_cons, List.cons.injEq, ih, segment.mangled_eq_iff, List.forall_mem_cons]

omit [F64 F] in
mutual

theorem Expr.mangled_eq_iff : ∀ e : Expr F, e.mangled = e ↔ e.Ascii
  | .literal (.int _) => ⟨fun _ => trivial, fun _ => rfl⟩
  | .literal (.num _) => ⟨fun _ => trivial, fun _ => rfl⟩
  | .literal (.bool _) => ⟨fun _ => trivial, fun _ => rfl⟩
  | .literal (.str s) => by
    simpa [Expr.mangled, Value.mangled, Expr.Ascii, Value.Ascii] using bytes_eq_self_iff
  | .path root segments => by
    simpa [Expr.mangled, Expr.Ascii] using mangled_segments segments
  | .call name args => by
    simpa [Expr.mangled, Expr.Ascii] using mangledArgs_eq_iff args
  | .binOp op lhs rhs => by
    simp [Expr.mangled, Expr.Ascii, lhs.mangled_eq_iff, rhs.mangled_eq_iff]
  | .and lhs rhs => by
    simp [Expr.mangled, Expr.Ascii, lhs.mangled_eq_iff, rhs.mangled_eq_iff]
  | .or lhs rhs => by
    simp [Expr.mangled, Expr.Ascii, lhs.mangled_eq_iff, rhs.mangled_eq_iff]

theorem mangledArgs_eq_iff : ∀ es : List (Expr F), mangledArgs es = es ↔ AllAscii es
  | [] => ⟨fun _ => trivial, fun _ => rfl⟩
  | e :: es => by
    simp [mangledArgs, AllAscii, e.mangled_eq_iff, mangledArgs_eq_iff es]

end

theorem Operand.bytes_text (x : Operand F) (h : x.expr.Documented) :
    bytes x.text = x.mangled.text := by
  rw [Operand.text, bytes_wrap, x.expr.bytes_print h]
  rfl

theorem Conjunction.bytes_text (c : Conjunction F) (h : c.expr.Documented) :
    bytes c.text = c.mangled.text := by
  obtain ⟨first, more⟩ := c
  obtain ⟨hfirst, hmore⟩ := documented_foldl_and.mp h
  have hand : bytes " and ".toList = " and ".toList := bytes_of_isAscii (isAscii_of_all (by decide))
  have hrest : ∀ xs : List (Operand F), (∀ x ∈ xs, x.expr.Documented) →
      bytes (xs.flatMap fun x => " and ".toList ++ x.text) =
        (xs.map Operand.mangled).flatMap fun x => " and ".toList ++ x.text := by
    intro xs hxs
    induction xs with
    | nil => rfl
    | cons x xs ih =>
      obtain ⟨hx, hxs⟩ := List.forall_mem_cons.mp hxs
      rw [List.flatMap_cons, bytes_append, bytes_append, hand, x.bytes_text hx, ih hxs, List.map_cons,
        List.flatMap_cons]
  rw [Conjunction.text, bytes_append, first.bytes_text hfirst, hrest more hmore]
  rfl

theorem Disjunction.bytes_text (d : Disjunction F) (h : d.expr.Documented) :
    bytes d.text = d.mangled.text := by
  obtain ⟨first, more⟩ := d
  obtain ⟨hfirst, hmore⟩ := documented_foldl_or.mp h
  have hor : bytes " or ".toList = " or ".toList := bytes_of_isAscii (isAscii_of_all (by decide))
  have hrest : ∀ cs : List (Conjunction F), (∀ c ∈ cs, c.expr.Documented) →
      bytes (cs.flatMap fun c => " or ".toList ++ c.text) =
        (cs.map Conjunction.mangled).flatMap fun c => " or ".toList ++ c.text := by
    intro cs hcs
    induction cs with
    | nil => rfl
    | cons c cs ih =>
      obtain ⟨hc, hcs⟩ := List.forall_mem_cons.mp hcs
      rw [List.flatMap_cons, bytes_append, bytes_append, hor, c.bytes_text hc, ih hcs, List.map_cons,
        List.flatMap_cons]
  rw [Disjunction.text, bytes_append, first.bytes_text hfirst, hrest more hmore]
  rfl

omit [F64 F] in
theorem Conjunction.mangled_expr (c : Conjunction F) : c.mangled.expr = c.expr.mangled := by
  obtain ⟨first, more⟩ := c
  have hfold : ∀ (xs : List (Operand F)) (e : Expr F),
      (xs.map Operand.mangled).foldl (fun e x => .and e x.expr) e.mangled =
        (xs.foldl (fun e x => .and e x.expr) e).mangled := by
    intro xs
    induction xs with
    | nil => exact fun _ => rfl
    | cons x xs ih => exact fun e => ih (.and e x.expr)
  exact hfold more first.expr

omit [F64 F] in
theorem Disjunction.mangled_expr (d : Disjunction F) : d.mangled.expr = d.expr.mangled := by
  obtain ⟨first, more⟩ := d
  have hfold : ∀ (cs : List (Conjunction F)) (e : Expr F),
      (cs.map Conjunction.mangled).foldl (fun e c => .or e c.expr) e.mangled =
        (cs.foldl (fun e c => .or e c.expr) e).mangled := by
    intro cs
    induction cs with
    | nil => exact fun _ => rfl
    | cons c cs ih =>
      intro e
      rw [List.map_cons, List.foldl_cons, c.mangled_expr, List.foldl_cons]
      exact ih (.or e c.expr)
  change (more.map Conjunction.mangled).foldl _ first.mangled.expr = _
  rw [first.mangled_expr]
  exact hfold more first.expr

/-! ### Whole sources -/

def IsWhitespace (ws : List Char) : Prop := ∀ c ∈ ws, isAsciiWhitespace c = true

theorem IsWhitespace.isAscii {ws : List Char} (h : IsWhitespace ws) : IsAscii ws := by
  intro c hc
  have hws := h c hc
  simp only [isAsciiWhitespace, Bool.or_eq_true, decide_eq_true_eq] at hws
  rcases hws with (((rfl | rfl) | rfl) | rfl) | rfl <;> decide

/-- A text that the grammar reads is the whole of a source, white space around it apart. -/
theorem parse_of_reads {src text before after : List Char} {e : Expr F}
    (h : Reads (parseOr (bytes src).length) 4 OrEnds text e) (hbefore : IsWhitespace before)
    (hafter : IsWhitespace after) (hsrc : bytes src = before ++ (text ++ after)) :
    parse src = pure e := by
  have hskip : skipWhitespace (bytes src) = text ++ after := by
    rw [hsrc, skipWhitespace_append hbefore, h.1.skipWhitespace]
  have hlength : (text ++ after).length ≤ (bytes src).length := by
    simp only [hsrc, List.length_append]
    omega
  obtain ⟨rest, hread, hrest⟩ := h.2 (7 * (bytes src).length + 7) (bytes src) after hskip
    (orEnds_of_whitespace hafter) (by omega)
  have hend : skipWhitespace after = [] := by
    simpa [skipWhitespace] using skipWhitespace_append hafter []
  rw [parse]
  simp only [hread, pure_bind, hrest.trans hend]

theorem bytes_around {before after : List Char} (text : List Char) (hbefore : IsWhitespace before)
    (hafter : IsWhitespace after) :
    bytes (before ++ text ++ after) = before ++ (bytes text ++ after) := by
  rw [bytes_append, bytes_append, bytes_of_isAscii hbefore.isAscii, bytes_of_isAscii hafter.isAscii,
    List.append_assoc]

/-- What the parser makes of a printed tree, white space around it or not. -/
theorem parse_print {before after : List Char} {e : Expr F} (h : e.Documented)
    (hbefore : IsWhitespace before) (hafter : IsWhitespace after) :
    parse (before ++ e.print ++ after) = pure e.mangled := by
  have hsrc := bytes_around e.print hbefore hafter
  rw [e.bytes_print h] at hsrc
  exact parse_of_reads (e.mangled.readsAs (e.mangled_documented h)).alone hbefore hafter hsrc

theorem parse_text {before after : List Char} {d : Disjunction F} (h : d.expr.Documented)
    (hbefore : IsWhitespace before) (hafter : IsWhitespace after) :
    parse (before ++ d.text ++ after) = pure d.expr.mangled := by
  have hsrc := bytes_around d.text hbefore hafter
  rw [d.bytes_text h] at hsrc
  have hdocumented : d.mangled.expr.Documented := d.mangled_expr ▸ d.expr.mangled_documented h
  rw [← d.mangled_expr]
  exact parse_of_reads (d.mangled.reads hdocumented) hbefore hafter hsrc

/-- Exactly the expressions whose strings are ASCII come back as they were written. -/
theorem parses_back_iff_ascii (before after : List Char) (hbefore : IsWhitespace before)
    (hafter : IsWhitespace after) :
    (∀ e : Expr F, e.Documented →
      (parse (before ++ e.print ++ after) = pure e ↔ e.Ascii) ∧
        parse (before ++ e.print ++ after) = parse (F := F) e.print) ∧
    ∀ d : Disjunction F, d.expr.Documented →
      (parse (before ++ d.text ++ after) = pure d.expr ↔ d.expr.Ascii) ∧
        parse (before ++ d.text ++ after) = parse (F := F) d.text := by
  have hnone : IsWhitespace [] := fun c hc => nomatch hc
  have hpure : ∀ e e' : Expr F, (pure e : Result (Expr F)) = pure e' ↔ e = e' := by
    intro e e'
    refine ⟨fun h => ?_, fun h => h ▸ rfl⟩
    exact Except.ok.inj (Option.some.inj h)
  refine ⟨fun e h => ?_, fun d h => ?_⟩
  · have halone := parse_print h hnone hnone
    rw [List.nil_append, List.append_nil] at halone
    rw [parse_print h hbefore hafter, halone, hpure]
    exact ⟨e.mangled_eq_iff, rfl⟩
  · have halone := parse_text h hnone hnone
    rw [List.nil_append, List.append_nil] at halone
    rw [parse_text h hbefore hafter, halone, hpure]
    exact ⟨d.expr.mangled_eq_iff, rfl⟩

/-- `price == 2.0 or tag == "a"`, with blanks around it. -/
theorem parses_back_iff_ascii_price :
    let e : Expr ℚ := .or (.binOp .eq (.path "price".toList []) (.literal (.num 2)))
      (.binOp .eq (.path "tag".toList []) (.literal (.str ['a'])))
    (parse ([' '] ++ e.print ++ [' ']) = pure e ↔ e.Ascii) ∧
      parse ([' '] ++ e.print ++ [' ']) = parse (F := ℚ) e.print := by
  have hblank : IsWhitespace [' '] := List.all_eq_true.mp (by decide)
  refine (parses_back_iff_ascii [' '] [' '] hblank hblank).1 _ ?_
  have hprice : IsName "price".toList :=
    ⟨⟨⟨'p', rfl, by decide⟩, List.all_eq_true.mp (by decide)⟩, by decide, by decide⟩
  have htag : IsName "tag".toList :=
    ⟨⟨⟨'t', rfl, by decide⟩, List.all_eq_true.mp (by decide)⟩, by decide, by decide⟩
  refine ⟨⟨⟨hprice, by simp⟩, ?_⟩, ⟨htag, by simp⟩, trivial⟩
  refine ⟨⟨[], ['2'], ['0'], rfl, .inl rfl, ?_, ?_⟩, by decide +kernel⟩
  all_goals exact ⟨by decide, List.all_eq_true.mp (by decide)⟩

/-- `"é"` is read as `"Ã©"`. -/
theorem parse_mangles :
    ¬∀ e : Expr ℚ, e.Documented → parse e.print = pure e := by
  intro h
  have hnone : IsWhitespace [] := fun c hc => nomatch hc
  have hback := h (.literal (.str ['é'])) trivial
  have hmangled := parse_print (F := ℚ) (e := .literal (.str ['é'])) trivial hnone hnone
  rw [List.nil_append, List.append_nil, hback] at hmangled
  have hsame := Except.ok.inj (Option.some.inj hmangled)
  have hstr : bytes ['é'] = ['Ã', '©'] := by decide
  simp [Expr.mangled, Value.mangled, hstr] at hsame

end Midas.Dsl.Expression
