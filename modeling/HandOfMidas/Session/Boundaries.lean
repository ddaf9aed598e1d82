import HandOfMidas.Session.Idempotent

/-! The anonymised capture and the boundaries of its records. Every record is anonymised alone, so that
    a code cut by a boundary is not found; a boundary beside a separator does no harm. -/

namespace Midas.Session

/-! ### Separators -/

/-- No part of any code or id, and not bound to what follows. -/
structure IsSeparator (s : UInt8) : Prop where
  not_alphanumeric : ¬isAsciiAlphanumeric s
  ne_underscore : s ≠ 95
  ne_dot : s ≠ 46

theorem IsSeparator.not_execChar {s : UInt8} (h : IsSeparator s) : ¬isExecChar s :=
  fun hexec => h.not_alphanumeric (isAsciiAlphanumeric_of_isExecChar hexec)

theorem IsSeparator.not_digit {s : UInt8} (h : IsSeparator s) : ¬isAsciiDigit s :=
  fun hdigit => h.not_execChar (isExecChar_of_isAsciiDigit hdigit)

theorem IsSeparator.not_binds {s : UInt8} (h : IsSeparator s) : ¬bindsNext s := by
  simp [bindsNext, h.not_alphanumeric, h.ne_underscore]

/-- A text without separators that ends before a byte without `p` is found in front of a separator
    too. -/
theorem front_iff {p : UInt8 → Bool} {s : UInt8} {text l b : Bytes} (htext : s ∉ text) (hs : ¬p s) :
    (∃ rest, l ++ s :: b = text ++ rest ∧ ¬rest.head?.any p) ↔
      ∃ rest, l = text ++ rest ∧ ¬rest.head?.any p := by
  constructor
  · rintro ⟨rest, heq, hnext⟩
    rcases List.append_eq_append_iff.mp heq with ⟨c, rfl, hc⟩ | ⟨c, rfl, rfl⟩
    · cases c with
      | nil => exact ⟨[], by simp, by simp⟩
      | cons c₀ c =>
        obtain ⟨rfl, -⟩ := List.cons.inj hc
        exact absurd (by simp) htext
    · refine ⟨c, rfl, ?_⟩
      cases c with
      | nil => simp
      | cons c₀ c => exact hnext
  · rintro ⟨rest, rfl, hnext⟩
    refine ⟨rest ++ s :: b, List.append_assoc .., ?_⟩
    cases rest with
    | nil => exact hs
    | cons c₀ c => exact hnext

theorem letters_alphanumeric (kind : AccountKind) : ∀ b ∈ kind.letters, isAsciiAlphanumeric b := by
  cases kind <;> simp [AccountKind.letters, isAsciiAlphanumeric]

variable {s : UInt8}

theorem accountShape_separator (hs : IsSeparator s) (l b : Bytes) (len : ℕ) (kind : AccountKind) :
    AccountShape (l ++ s :: b) len kind ↔ AccountShape l len kind := by
  have htext (digits : Bytes) (hall : ∀ b ∈ digits, isAsciiDigit b) : s ∉ kind.letters ++ digits := by
    intro hmem
    rcases List.mem_append.mp hmem with hmem | hmem
    · exact hs.not_alphanumeric (letters_alphanumeric kind s hmem)
    · exact hs.not_digit (hall s hmem)
  constructor
  · rintro ⟨hlen, digits, rest, heq, hdigits, hall, hnext⟩
    rw [← List.append_assoc kind.letters] at heq
    obtain ⟨rest', rfl, hnext'⟩ := (front_iff (htext digits hall) hs.not_digit).mp ⟨rest, heq, hnext⟩
    exact ⟨hlen, digits, rest', List.append_assoc .., hdigits, hall, hnext'⟩
  · rintro ⟨hlen, digits, rest, heq, hdigits, hall, hnext⟩
    rw [← List.append_assoc] at heq
    obtain ⟨rest', heq', hnext'⟩ :=
      (front_iff (b := b) (htext digits hall) hs.not_digit).mpr ⟨rest, heq, hnext⟩
    exact ⟨hlen, digits, rest', by rw [heq', List.append_assoc], hdigits, hall, hnext'⟩

theorem execShape_separator (hs : IsSeparator s) (l b : Bytes) (len : ℕ) :
    ExecShape (l ++ s :: b) len ↔ ExecShape l len := by
  have htext {a mid tail : Bytes} (ha : ∀ b ∈ a, isExecChar b) (hm : ∀ b ∈ mid, isExecChar b)
      (ht : ∀ b ∈ tail, isExecChar b) : s ∉ a ++ 46 :: (mid ++ 46 :: tail) := by
    simp only [List.mem_append, List.mem_cons, not_or]
    exact ⟨fun h => hs.not_execChar (ha s h), hs.ne_dot, fun h => hs.not_execChar (hm s h), hs.ne_dot,
      fun h => hs.not_execChar (ht s h)⟩
  have hassoc (a mid tail rest : Bytes) : a ++ 46 :: (mid ++ 46 :: (tail ++ rest)) =
      (a ++ 46 :: (mid ++ 46 :: tail)) ++ rest := by simp
  constructor
  · rintro ⟨a, mid, tail, rest, heq, hlen, ha, hm, ht, hnext⟩
    rw [hassoc] at heq
    obtain ⟨rest', rfl, hnext'⟩ :=
      (front_iff (htext ha.2.2 hm.2.2 ht.2.2) hs.not_execChar).mp ⟨rest, heq, hnext⟩
    exact ⟨a, mid, tail, rest', (hassoc ..).symm, hlen, ha, hm, ht, hnext'⟩
  · rintro ⟨a, mid, tail, rest, heq, hlen, ha, hm, ht, hnext⟩
    rw [hassoc] at heq
    obtain ⟨rest', heq', hnext'⟩ :=
      (front_iff (b := b) (htext ha.2.2 hm.2.2 ht.2.2) hs.not_execChar).mpr ⟨rest, heq, hnext⟩
    exact ⟨a, mid, tail, rest', heq'.trans (hassoc ..).symm, hlen, ha, hm, ht, hnext'⟩

theorem permShape_separator (hs : IsSeparator s) (l b : Bytes) (len : ℕ) :
    PermShape (l ++ s :: b) len ↔ PermShape l len := by
  constructor
  · rintro ⟨digits, rest, heq, hlen, hmin, hmax, hall, hnext⟩
    obtain ⟨rest', rfl, hnext'⟩ :=
      (front_iff (fun hmem => hs.not_digit (hall s hmem)) hs.not_alphanumeric).mp ⟨rest, heq, hnext⟩
    exact ⟨digits, rest', rfl, hlen, hmin, hmax, hall, hnext'⟩
  · rintro ⟨digits, rest, heq, hlen, hmin, hmax, hall, hnext⟩
    obtain ⟨rest', heq', hnext'⟩ :=
      (front_iff (b := b) (fun hmem => hs.not_digit (hall s hmem)) hs.not_alphanumeric).mpr
        ⟨rest, heq, hnext⟩
    exact ⟨digits, rest', heq', hlen, hmin, hmax, hall, hnext'⟩

/-- In front of a separator the same is found as at the end. -/
theorem matchAt_separator (hs : IsSeparator s) (prev : Option UInt8) (l b : Bytes) :
    matchAt prev (l ++ s :: b) = matchAt prev l := by
  have haccount : matchAccountCodeBounded (l ++ s :: b) prev = matchAccountCodeBounded l prev := by
    refine Option.ext fun m => ?_
    rw [matchAccountCodeBounded_eq_some, matchAccountCodeBounded_eq_some, accountShape_separator hs]
  have hexec : matchExecId (l ++ s :: b) = matchExecId l := by
    refine Option.ext fun len => ?_
    rw [matchExecId_iff, matchExecId_iff, execShape_separator hs]
  have hperm : matchPermId (l ++ s :: b) prev = matchPermId l prev := by
    refine Option.ext fun len => ?_
    rw [matchPermId_iff, matchPermId_iff, permShape_separator hs]
  unfold matchAt
  rw [haccount, hexec, hperm]

theorem matchAt_nil (prev : Option UInt8) : matchAt prev [] = none := by
  cases h : matchAt prev [] with
  | none => rfl
  | some m =>
    obtain ⟨len, found⟩ := m
    obtain ⟨text, rest, heq, -, hfits⟩ := matchAt_eq_some h
    obtain ⟨rfl, -⟩ := List.append_eq_nil_iff.mp heq.symm
    exact absurd hfits.pos (by simp)

variable (sha256 : Sha256) (salt : Bytes)

/-- Of the byte before only counts whether it binds. -/
theorem rewritten_congr {prev prev' : Option UInt8} (h : prev'.any bindsNext = prev.any bindsNext)
    (bytes : Bytes) :
    rewritten sha256 salt prev' bytes = rewritten sha256 salt prev bytes := by
  have hmatch := matchAt_eq_of_alike (alike_refl isAsciiDigit bytes) h
  cases bytes with
  | nil => simp [rewritten]
  | cons b rest =>
    cases hm : matchAt prev (b :: rest) with
    | none => rw [rewritten_raw _ _ hm, rewritten_raw _ _ (hmatch.trans hm)]
    | some m =>
      obtain ⟨len, found⟩ := m
      obtain ⟨text, rest', heq, rfl, -⟩ := matchAt_eq_some hm
      rw [heq] at hm hmatch ⊢
      rw [rewritten_hit _ _ hm, rewritten_hit _ _ (hmatch.trans hm)]

/-- What comes after a separator is anonymised as if nothing came before. -/
theorem rewritten_separator (hs : IsSeparator s) (prev : Option UInt8) (a b : Bytes) :
    rewritten sha256 salt prev (a ++ s :: b) =
      rewritten sha256 salt prev a ++ s :: rewritten sha256 salt none b := by
  induction prev, a using pieces_induction with
  | nil prev =>
    have hmatch : matchAt prev (s :: b) = none :=
      (matchAt_separator hs prev [] b).trans (matchAt_nil prev)
    have hfree : (some s).any bindsNext = Option.any bindsNext none := by simp [hs.not_binds]
    rw [List.nil_append, rewritten_raw _ _ hmatch, rewritten_congr sha256 salt hfree]
    simp [rewritten]
  | raw prev x rest hmatch ih =>
    have hmatch' := (matchAt_separator hs prev (x :: rest) b).trans hmatch
    rw [List.cons_append] at hmatch' ⊢
    rw [rewritten_raw _ _ hmatch', rewritten_raw _ _ hmatch, ih, List.cons_append]
  | hit prev text rest found hfits hmatch ih =>
    have hmatch' := (matchAt_separator hs prev (text ++ rest) b).trans hmatch
    rw [List.append_assoc] at hmatch' ⊢
    rw [rewritten_hit _ _ hmatch', rewritten_hit _ _ hmatch, ih, List.append_assoc]

/-- Beside each boundary there is a separator, or nothing. -/
def CutAtSeparators : List Bytes → Prop
  | [] => True
  | q :: qs => (q = [] ∨ qs.flatten = [] ∨ (∃ s, IsSeparator s ∧ q.getLast? = some s) ∨
      ∃ s, IsSeparator s ∧ qs.flatten.head? = some s) ∧ CutAtSeparators qs

theorem rewritten_nil (prev : Option UInt8) : rewritten sha256 salt prev [] = [] := by simp [rewritten]

/-- A stream that is cut at separators is anonymised as if it were not cut. -/
theorem flatMap_rewritten {ps : List Bytes} (h : CutAtSeparators ps) :
    ps.flatMap (rewritten sha256 salt none) = rewritten sha256 salt none ps.flatten := by
  induction ps with
  | nil => simp [rewritten]
  | cons q qs ih =>
    obtain ⟨hcut, hqs⟩ := h
    rw [List.flatMap_cons, List.flatten_cons, ih hqs]
    rcases hcut with rfl | hnil | ⟨s, hs, hlast⟩ | ⟨s, hs, hhead⟩
    · rw [rewritten_nil, List.nil_append, List.nil_append]
    · rw [hnil, rewritten_nil, List.append_nil, List.append_nil]
    · obtain ⟨q, rfl⟩ := List.getLast?_eq_some_iff.mp hlast
      have hend := rewritten_separator sha256 salt hs none q []
      rw [rewritten_nil] at hend
      rw [hend, List.append_assoc, List.append_assoc, List.singleton_append, List.singleton_append,
        rewritten_separator sha256 salt hs]
    · obtain ⟨f, hf⟩ := List.head?_eq_some_iff.mp hhead
      have hstart := rewritten_separator sha256 salt hs none [] f
      rw [rewritten_nil, List.nil_append, List.nil_append] at hstart
      rw [hf, hstart, rewritten_separator sha256 salt hs]

/-! ### Codes that are left -/

/-- Which bytes lie in an exec id that is found. -/
def inExecId (prev : Option UInt8) (bytes : Bytes) : List Bool :=
  (pieces prev bytes).flatMap fun p => List.replicate p.text.length (p.found = some .execId)

theorem inExecId_raw {prev : Option UInt8} {b : UInt8} {rest : Bytes}
    (h : matchAt prev (b :: rest) = none) :
    inExecId prev (b :: rest) = false :: inExecId (some b) rest := by
  rw [inExecId, pieces_raw h]
  rfl

theorem inExecId_hit {prev : Option UInt8} {text rest : Bytes} {found : Found}
    (h : matchAt prev (text ++ rest) = some (text.length, found)) :
    inExecId prev (text ++ rest) =
      List.replicate text.length (decide (found = .execId)) ++ inExecId text.getLast? rest := by
  rw [inExecId, pieces_hit h]
  simp [inExecId]

/-- As long as no exec id is met only digits are changed. -/
theorem alike_take {prev : Option UInt8} {bytes : Bytes} {n : ℕ}
    (h : ∀ i < n, (inExecId prev bytes)[i]? ≠ some true) :
    List.Forall₂ (Alike isAsciiDigit) ((rewritten sha256 salt prev bytes).take n) (bytes.take n) := by
  induction prev, bytes using pieces_induction generalizing n with
  | nil prev => simp [rewritten]
  | raw prev b rest hmatch ih =>
    cases n with
    | zero => exact .nil
    | succ n =>
      rw [inExecId_raw hmatch] at h
      rw [rewritten_raw _ _ hmatch]
      exact .cons (.refl _ _) (ih fun i hi => h (i + 1) (Nat.succ_lt_succ hi))
  | hit prev text rest found hfits hmatch ih =>
    cases n with
    | zero => exact .nil
    | succ n =>
      rw [inExecId_hit hmatch] at h
      have hexec : found ≠ .execId := by
        rintro rfl
        refine h 0 (Nat.succ_pos n) ?_
        rw [List.getElem?_append_left (by simpa using hfits.pos)]
        simp [hfits.pos]
      have htext :=
        alike_digits_replacement sha256 salt (p := ⟨some found, text⟩) (by rintro _ ⟨⟩; exact hfits)
        (by simpa using hexec)
      have hlen : (replacement sha256 salt ⟨some found, text⟩).length = text.length := htext.length_eq
      rw [rewritten_hit _ _ hmatch, List.take_append, List.take_append, hlen]
      refine List.rel_append (List.forall₂_take _ htext) (ih fun i hi => ?_)
      have hmask := h (text.length + i) (by omega)
      rwa [List.getElem?_append_right (by simp), List.length_replicate,
        Nat.add_sub_cancel_left] at hmask

theorem accountShape_take {l : Bytes} {len : ℕ} {kind : AccountKind} :
    AccountShape (l.take (len + 1)) len kind ↔ AccountShape l len kind := by
  rw [accountShape_iff, accountShape_iff]
  refine and_congr_right ?_
  rintro rfl
  have hextract : (l.take (kind.letters.length + 7 + 1)).extract kind.letters.length
    (kind.letters.length + 7) =
      l.extract kind.letters.length (kind.letters.length + 7) := by
    rw [List.extract_eq_take_drop, List.extract_eq_take_drop, List.drop_take, List.take_take]
    congr 1
    omega
  rw [List.prefix_take_iff, hextract, List.getElem?_take_of_lt (Nat.lt_succ_self _), List.length_take]
  constructor
  · rintro ⟨⟨hpre, -⟩, hlen, h⟩
    exact ⟨hpre, by omega, h⟩
  · rintro ⟨hpre, hlen, h⟩
    exact ⟨⟨hpre, by omega⟩, by omega, h⟩

/-- A code starts with a letter of its own. -/
theorem AccountShape.not_digit {v : Bytes} {len : ℕ} {kind : AccountKind}
    (h : AccountShape v len kind) :
    ¬v.head?.any isAsciiDigit := by
  obtain ⟨-, digits, rest, rfl, -⟩ := h
  cases kind <;> simp [AccountKind.letters] <;> decide

theorem AccountShape.letters_prefix {v : Bytes} {len : ℕ} {kind : AccountKind}
    (h : AccountShape v len kind) :
    kind.letters <+: v := by
  obtain ⟨-, digits, rest, rfl, -⟩ := h
  exact List.prefix_append _ _

/-- No code starts among digits. -/
theorem AccountShape.not_forall_digit {w rest : Bytes} {len : ℕ} {kind : AccountKind}
    (h : AccountShape (w ++ rest) len kind) (hw : w ≠ []) : ¬∀ b ∈ w, isAsciiDigit b := by
  intro hdigits
  obtain ⟨b, w, rfl⟩ := List.exists_cons_of_ne_nil hw
  exact h.not_digit (hdigits b List.mem_cons_self)

/-- Inside a code another one starts at the `U` of `DU` only, where it is bound. -/
theorem not_code_inside {u w rest digits : Bytes} {kind kind' : AccountKind} {len : ℕ} (hu : u ≠ [])
    (hw : w ≠ [])
    (htext : u ++ w = kind.letters ++ digits) (hdigits : ∀ b ∈ digits, isAsciiDigit b)
    (h : AccountShape (w ++ rest) len kind') : kind' ≠ .paper ∧ u.getLast?.any bindsNext := by
  rcases List.append_eq_append_iff.mp htext with ⟨c, hletters, rfl⟩ | ⟨c, rfl, rfl⟩
  · by_cases hc : c = []
    · subst hc
      exact absurd hdigits (h.not_forall_digit hw)
    obtain ⟨b, c, rfl⟩ := List.exists_cons_of_ne_nil hc
    obtain ⟨a, u, rfl⟩ := List.exists_cons_of_ne_nil hu
    have hlen := congrArg List.length hletters
    cases kind with
    | paper =>
      obtain ⟨rfl, hrest⟩ := List.cons.inj hletters
      cases u with
      | nil =>
        obtain ⟨rfl, -⟩ := List.cons.inj hrest
        refine ⟨?_, by decide⟩
        rintro rfl
        exact absurd (List.cons_prefix_cons.mp h.letters_prefix).1 (by decide)
      | cons x u => simp [AccountKind.letters] at hlen
    | retail => simp [AccountKind.letters] at hlen
    | fa => simp [AccountKind.letters] at hlen
  · exact absurd (fun b hb => hdigits b (List.mem_append_right c hb)) (h.not_forall_digit hw)

theorem replacement_account {kind : AccountKind} {text : Bytes} (h : (Found.account kind).Fits text) :
    ∃ digits, replacement sha256 salt ⟨some (.account kind), text⟩ = kind.letters ++ digits ∧
      ∀ b ∈ digits, isAsciiDigit b := by
  unfold replacement
  dsimp only
  split
  · obtain ⟨digits, rfl, -, hall⟩ := h
    exact ⟨digits, rfl, hall⟩
  · obtain ⟨digits, heq, -, hall⟩ := accountText_eq sha256 salt text kind
    rw [heq, AccountKind.reserved, List.append_assoc]
    exact ⟨_, rfl, List.forall_mem_append.mpr ⟨List.all_eq_true.mp (by decide), hall⟩⟩

/-- A code that is left in an anonymised payload is next to an exec id, or reserved. -/
theorem code_in_rewritten {prev prev' : Option UInt8} {bytes u v : Bytes} {len : ℕ} {kind : AccountKind}
    (heq : rewritten sha256 salt prev bytes = u ++ v) (hprev : prev'.any bindsNext = prev.any bindsNext)
    (hcode : AccountShape v len kind) (hfree : ¬(kind ≠ .paper ∧ (u.getLast?.or prev').any bindsNext))
    (hreal : ¬kind.reserved <+: v) :
    ∃ i, u.length ≤ i ∧ i ≤ u.length + len ∧ (inExecId prev bytes)[i]? = some true := by
  induction prev, bytes using pieces_induction generalizing u prev' with
  | nil prev =>
    rw [rewritten_nil] at heq
    obtain ⟨-, rfl⟩ := List.append_eq_nil_iff.mp heq.symm
    obtain ⟨-, digits, rest, hnil, hdigits, -⟩ := hcode
    obtain ⟨-, hnil⟩ := List.append_eq_nil_iff.mp hnil.symm
    obtain ⟨rfl, -⟩ := List.append_eq_nil_iff.mp hnil
    simp at hdigits
  | raw prev b rest hmatch ih =>
    rw [rewritten_raw _ _ hmatch] at heq
    cases u with
    | nil =>
      by_contra hno
      have hmask : ∀ i < len + 1, (inExecId prev (b :: rest))[i]? ≠ some true := fun i hi htrue =>
        hno ⟨i, Nat.zero_le i, by simpa using Nat.lt_succ_iff.mp hi, htrue⟩
      have ha := alike_take sha256 salt hmask
      rw [rewritten_raw _ _ hmatch, heq, List.nil_append] at ha
      have hshape := accountShape_take.mp ((accountShape_take.mpr hcode).of_alike (alike_symm ha))
      refine not_shape_of_matchAt hmatch len (.account kind) ⟨hshape, ?_⟩
      simpa [hprev] using hfree
    | cons c u =>
      obtain ⟨rfl, hrest⟩ := List.cons.inj heq
      have hfree' : ¬(kind ≠ .paper ∧ (u.getLast?.or (some b)).any bindsNext) := by
        rwa [← List.singleton_append, getLast?_append_or prev' (by simp)] at hfree
      obtain ⟨i, hlo, hhi, htrue⟩ := ih hrest rfl hfree'
      refine ⟨i + 1, Nat.succ_le_succ hlo, by simp only [List.length_cons]; omega, ?_⟩
      rw [inExecId_raw hmatch]
      exact htrue
  | hit prev text rest found hfits hmatch ih =>
    have halike := alike_replacement sha256 salt (p := ⟨some found, text⟩) (by rintro _ ⟨⟩; exact hfits)
    have hlen : (replacement sha256 salt ⟨some found, text⟩).length = text.length := halike.length_eq
    have hlast := any_getLast?_of_alike (fun _ => bindsNext_of_isExecChar) halike
    have hne : replacement sha256 salt ⟨some found, text⟩ ≠ [] :=
      List.length_pos_iff.mp (hlen ▸ hfits.pos)
    rw [rewritten_hit _ _ hmatch] at heq
    have hbeyond (u' : Bytes) (hu : u = replacement sha256 salt ⟨some found, text⟩ ++ u')
        (hrest : rewritten sha256 salt text.getLast? rest = u' ++ v) :
        ∃ i, u.length ≤ i ∧ i ≤ u.length + len ∧ (inExecId prev (text ++ rest))[i]? = some true := by
      subst hu
      rw [getLast?_append_or prev' hne] at hfree
      obtain ⟨i, hlo, hhi, htrue⟩ := ih hrest hlast hfree
      rw [List.length_append, hlen]
      refine ⟨text.length + i, Nat.add_le_add_left hlo _, by omega, ?_⟩
      rw [inExecId_hit hmatch, List.getElem?_append_right (by simp)]
      simpa using htrue
    rcases List.append_eq_append_iff.mp heq with ⟨u', hu, hrest⟩ | ⟨w, htext, rfl⟩
    · exact hbeyond u' hu hrest
    by_cases hw : w = []
    · subst hw
      exact hbeyond [] (by simpa using htext.symm) rfl
    cases found with
    | account kind' =>
      exfalso
      have hreserved : kind'.reserved <+: replacement sha256 salt ⟨some (.account kind'), text⟩ :=
        reserved_prefix_replacement text
      by_cases hu : u = []
      · subst hu
        rw [List.nil_append] at htext
        rw [htext] at hreserved
        have hletters : kind'.letters <+: w ++ rewritten sha256 salt text.getLast? rest :=
          ((List.prefix_append _ _).trans hreserved).trans (List.prefix_append _ _)
        obtain rfl := kind.eq_of_letters hcode.letters_prefix hletters
        exact hreal (hreserved.trans (List.prefix_append _ _))
      · obtain ⟨digits, hdigits, hall⟩ := replacement_account sha256 salt hfits
        obtain ⟨hkind, hbinds⟩ := not_code_inside hu hw (htext.symm.trans hdigits) hall hcode
        refine hfree ⟨hkind, ?_⟩
        obtain ⟨b, hb⟩ := Option.ne_none_iff_exists'.mp (mt List.getLast?_eq_none_iff.mp hu)
        rw [hb] at hbinds ⊢
        exact hbinds
    | execId =>
      have hlt : u.length < text.length := by
        have hpos := List.length_pos_iff.mpr hw
        have hsum := congrArg List.length htext
        rw [hlen, List.length_append] at hsum
        omega
      refine ⟨u.length, le_rfl, Nat.le_add_right _ _, ?_⟩
      rw [inExecId_hit hmatch, List.getElem?_append_left (by simpa using hlt)]
      simp [hlt]
    | permId =>
      refine absurd (fun b hb => ?_) (hcode.not_forall_digit hw)
      have hmem : b ∈ replacement sha256 salt ⟨some .permId, text⟩ := by
        rw [htext]
        exact List.mem_append_right u hb
      exact forall_permText sha256 salt text b hmem

/-! ### Captures -/

theorem accountShape_of_append {w rest : Bytes} {len : ℕ} {kind : AccountKind}
    (h : AccountShape (w ++ rest) len kind)
    (hle : len ≤ w.length) : AccountShape w len kind := by
  obtain ⟨hlen, digits, rest', heq, hdigits, hall, hnext⟩ := h
  rw [← List.append_assoc] at heq
  have hfront : kind.letters ++ digits <+: w := by
    refine List.prefix_of_prefix_length_le (heq ▸ List.prefix_append _ _) (List.prefix_append w rest) ?_
    rw [List.length_append, hdigits]
    omega
  obtain ⟨c, rfl⟩ := hfront
  rw [List.append_assoc (kind.letters ++ digits)] at heq
  obtain rfl := List.append_cancel_left heq
  refine ⟨hlen, digits, c, List.append_assoc .., hdigits, hall, ?_⟩
  cases c with
  | nil => simp
  | cons b c => exact hnext

theorem length_inExecId (prev : Option UInt8) (bytes : Bytes) :
    (inExecId prev bytes).length = bytes.length := by
  have htext := congrArg List.length (flatMap_text prev bytes)
  rw [List.length_flatMap] at htext
  rw [← htext, inExecId, List.length_flatMap]
  simp

theorem length_rewritten (prev : Option UInt8) (bytes : Bytes) :
    (rewritten sha256 salt prev bytes).length = bytes.length :=
  (alike_rewritten sha256 salt prev bytes).length_eq

/-- A code that is left in a stream crosses a boundary, or is next to an exec id, or is reserved. -/
theorem code_in_flatMap {ps : List Bytes} {u v : Bytes} {len : ℕ} {kind : AccountKind}
    (heq : ps.flatMap (rewritten sha256 salt none) = u ++ v) (hcode : AccountShape v len kind)
    (hfree : ¬(kind ≠ .paper ∧ u.getLast?.any bindsNext)) (hreal : ¬kind.reserved <+: v) :
    (∃ k, u.length < (ps.take k).flatten.length ∧ (ps.take k).flatten.length < u.length + len) ∨
      ∃ i, u.length ≤ i ∧ i ≤ u.length + len ∧ (ps.flatMap (inExecId none))[i]? = some true := by
  induction ps generalizing u with
  | nil =>
    obtain ⟨-, rfl⟩ := List.append_eq_nil_iff.mp heq.symm
    have hletters := List.prefix_nil.mp hcode.letters_prefix
    cases kind <;> cases hletters
  | cons q qs ih =>
    have hlen := length_rewritten sha256 salt none q
    have hbeyond (u' : Bytes) (hu : u = rewritten sha256 salt none q ++ u')
        (hrest : qs.flatMap (rewritten sha256 salt none) = u' ++ v) :
        (∃ k, u.length < ((q :: qs).take k).flatten.length ∧
          ((q :: qs).take k).flatten.length < u.length + len) ∨
          ∃ i, u.length ≤ i ∧ i ≤ u.length + len ∧
            ((q :: qs).flatMap (inExecId none))[i]? = some true := by
      subst hu
      have hfree' : ¬(kind ≠ .paper ∧ u'.getLast?.any bindsNext) := by
        rintro ⟨hkind, hbinds⟩
        refine hfree ⟨hkind, ?_⟩
        rw [List.getLast?_append]
        cases hlast : u'.getLast? with
        | none => rw [hlast] at hbinds; cases hbinds
        | some b => rwa [hlast] at hbinds
      rw [List.length_append, hlen]
      rcases ih hrest hfree' with ⟨k, hlo, hhi⟩ | ⟨i, hlo, hhi, htrue⟩
      · refine .inl ⟨k + 1, ?_, ?_⟩ <;>
          simp only [List.take_succ_cons, List.flatten_cons, List.length_append] <;> omega
      · refine .inr ⟨q.length + i, Nat.add_le_add_left hlo _, by omega, ?_⟩
        rw [List.flatMap_cons, List.getElem?_append_right (by rw [length_inExecId]; omega),
          length_inExecId,
          Nat.add_sub_cancel_left, htrue]
    rw [List.flatMap_cons] at heq
    rcases List.append_eq_append_iff.mp heq with ⟨u', hu, hrest⟩ | ⟨w, hq, rfl⟩
    · exact hbeyond u' hu hrest
    by_cases hw : w = []
    · subst hw
      exact hbeyond [] (by simpa using hq.symm) rfl
    have hsum := congrArg List.length hq
    rw [hlen, List.length_append] at hsum
    have hpos := List.length_pos_iff.mpr hw
    rcases le_or_gt len w.length with hle | hgt
    · have hfree' : ¬(kind ≠ .paper ∧ (u.getLast?.or none).any bindsNext) := by rwa [Option.or_none]
      have hreal' : ¬kind.reserved <+: w := fun hpre => hreal (hpre.trans (List.prefix_append _ _))
      obtain ⟨i, hlo, hhi, htrue⟩ :=
        code_in_rewritten sha256 salt hq rfl (accountShape_of_append hcode hle) hfree' hreal'
      refine .inr ⟨i, hlo, hhi, ?_⟩
      have hi := (List.getElem?_eq_some_iff.mp htrue).1
      rw [List.flatMap_cons, List.getElem?_append_left hi, htrue]
    · exact .inl ⟨1, by simp; omega, by simp; omega⟩

/-- The payloads of one direction. -/
def payloads (d : Direction) (records : List TwsPcapRecord) : List Bytes :=
  (records.filter (·.direction = d)).map (·.payload)

/-- Anonymise a record and write it. -/
def Anonymizer.processRecord (s : TwsPcapWriter × Anonymizer) (record : TwsPcapRecord) :
    Except IoError (TwsPcapWriter × Anonymizer) := do
  let (payload, a) := s.2.anonymizeBytes sha256 record.payload
  let w ← s.1.writeRecord { record with payload }
  pure (w, a)

/-- `process_stream`: what is written, and how many records. They are read up front. -/
def Anonymizer.processStream (a : Anonymizer) (src : Bytes) :
    Except IoError (Bytes × ℕ × Anonymizer) := do
  let reader ← TwsPcapReader.withReader src
  let records ← reader.readAll
  let (w, a) ← records.foldlM (processRecord sha256) (TwsPcapWriter.withWriter [] reader.header, a)
  pure (w.inner, records.length, a)

/-- A record with its payload anonymised. -/
def anonymizedRecord (record : TwsPcapRecord) : TwsPcapRecord :=
  { record with payload := rewritten sha256 salt none record.payload }

variable {sha256 salt}

theorem Anonymizer.Sound.processRecord {a : Anonymizer} (h : a.Sound sha256 salt)
    {record : TwsPcapRecord}
    (hlen : record.payload.length < 2 ^ 32) (w : TwsPcapWriter) :
    ∃ w' a', Anonymizer.processRecord sha256 (w, a) record = .ok (w', a') ∧
      w'.inner = w.inner ++ (anonymizedRecord sha256 salt record).encode ∧ a'.Sound sha256 salt := by
  obtain ⟨htext, hsound⟩ := h.anonymizeBytes record.payload
  obtain ⟨w', hwrite, hinner⟩ : ∃ w', w.writeRecord (anonymizedRecord sha256 salt record) = .ok w' ∧
      w'.inner = w.inner ++ (anonymizedRecord sha256 salt record).encode :=
    ⟨_, writeRecord_eq (by rwa [anonymizedRecord, length_rewritten]) w, rfl⟩
  refine ⟨w', (a.anonymizeBytes sha256 record.payload).2, ?_, hinner, hsound⟩
  unfold Anonymizer.processRecord
  dsimp only
  rw [htext, ← anonymizedRecord, hwrite]
  rfl

theorem Anonymizer.Sound.foldlM_processRecord {records : List TwsPcapRecord}
    (hlen : ∀ r ∈ records, r.payload.length < 2 ^ 32) {a : Anonymizer} (h : a.Sound sha256 salt)
    (w : TwsPcapWriter) :
    ∃ w' a', records.foldlM (Anonymizer.processRecord sha256) (w, a) = .ok (w', a') ∧
      w'.inner = w.inner ++ (records.map (anonymizedRecord sha256 salt)).flatMap
        TwsPcapRecord.encode := by
  induction records generalizing w a with
  | nil => exact ⟨w, a, rfl, by simp⟩
  | cons r records ih =>
    obtain ⟨hr, hrest⟩ := List.forall_mem_cons.mp hlen
    obtain ⟨w', a', hrun, hinner, hsound⟩ := h.processRecord hr w
    obtain ⟨w'', a'', hrun', hinner'⟩ := ih hrest hsound w'
    refine ⟨w'', a'', ?_, by rw [hinner', hinner, List.append_assoc]; rfl⟩
    rw [List.foldlM_cons, hrun]
    exact hrun'

variable (sha256 salt)

/-- A capture is anonymised record by record. -/
theorem processStream_eq (history : List Bytes) (serverVersionNeg : UInt16) (startTsNanos : BitVec 128)
    {records : List TwsPcapRecord} (h : ∀ r ∈ records, r.payload.length < 2 ^ 32) :
    ∃ a, (Anonymizer.after sha256 salt history).processStream sha256
        (fileOf (.new serverVersionNeg startTsNanos) records) = .ok
      (fileOf (.new serverVersionNeg startTsNanos) (records.map (anonymizedRecord sha256 salt)),
        records.length, a) := by
  obtain ⟨w, a, hrun, hinner⟩ := (sound_after sha256 salt history).foldlM_processRecord h
    (TwsPcapWriter.withWriter [] (.new serverVersionNeg startTsNanos))
  have hcut : Cut TwsPcapRecord.encode records (records.flatMap TwsPcapRecord.encode) records [] :=
    ⟨List.prefix_rfl, (List.append_nil _).symm, fun hne => absurd rfl hne⟩
  have hdrain := (drain_cut h hcut).trans (if_pos (by decide))
  refine ⟨a, ?_⟩
  unfold Anonymizer.processStream fileOf
  rw [withReader_new]
  dsimp only [bind, Except.bind]
  rw [TwsPcapReader.readAll, hdrain]
  dsimp only
  rw [hrun]
  dsimp only
  rw [hinner, TwsPcapWriter.withWriter, List.nil_append]
  rfl

variable {sha256 salt}

theorem payloads_anonymized (d : Direction) (records : List TwsPcapRecord) :
    (payloads d (records.map (anonymizedRecord sha256 salt))).flatten =
      (payloads d records).flatMap (rewritten sha256 salt none) := by
  rw [payloads, payloads, List.filter_map, List.map_map, List.flatMap_map, List.flatMap_def]
  rfl

theorem Found.Fits.eight_le {found : Found} {text : Bytes} (h : found.Fits text) : 8 ≤ text.length := by
  cases found with
  | account kind =>
    obtain ⟨digits, rfl, hlen, -⟩ := h
    rw [List.length_append, hlen]
    cases kind <;> decide
  | execId =>
    obtain ⟨a, mid, tail, rfl, ⟨ha, -⟩, ⟨hm, -⟩, -⟩ := h
    simp only [List.length_append, List.length_cons]
    omega
  | permId => exact le_trans (by decide) h.1

/-- Less than eight bytes are never changed. -/
theorem rewritten_of_lt (prev : Option UInt8) {bytes : Bytes} (h : bytes.length < 8) :
    rewritten sha256 salt prev bytes = bytes := by
  induction prev, bytes using pieces_induction with
  | nil prev => exact rewritten_nil ..
  | raw prev b rest hmatch ih => rw [rewritten_raw _ _ hmatch, ih (Nat.lt_of_succ_lt h)]
  | hit prev text rest found hfits hmatch ih =>
    have hge := hfits.eight_le
    rw [List.length_append] at h
    omega

/-- `DU123`, then `4567`. -/
def cutAccount : List TwsPcapRecord :=
  [.new 0 .clientToSim [68, 85, 49, 50, 51], .new 1 .clientToSim [52, 53, 54, 55]]

end Midas.Session
