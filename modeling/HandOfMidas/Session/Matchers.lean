import HandOfMidas.Session.Pcap

/-! What the anonymiser looks for (`session/anonymize.rs`): account codes, exec ids, perm ids. Each
    matcher answers with a length; the shape of what it matches is stated beside it. -/

namespace Midas.Session

def isAsciiDigit (b : UInt8) : Bool := 48 ≤ b && b ≤ 57

def isAsciiAlphanumeric (b : UInt8) : Bool :=
  isAsciiDigit b || (65 ≤ b && b ≤ 90) || (97 ≤ b && b ≤ 122)

def isExecChar (b : UInt8) : Bool := isAsciiDigit b || (97 ≤ b && b ≤ 102) || (65 ≤ b && b ≤ 70)

/-- A byte that binds what follows it to a larger identifier: alphanumeric or `_`. -/
def bindsNext (b : UInt8) : Bool := isAsciiAlphanumeric b || b == 95

/-- How far a loop over bytes with `p` gets, at most `max`. -/
def runLength (p : UInt8 → Bool) : ℕ → Bytes → ℕ
  | max + 1, b :: bytes => if p b then runLength p max bytes + 1 else 0
  | _, _ => 0

/-! ### Account codes -/

inductive AccountKind where | paper | retail | fa
  deriving DecidableEq

/-- `DU`, `U` and `F`. -/
def AccountKind.letters : AccountKind → Bytes
  | .paper => [68, 85]
  | .retail => [85]
  | .fa => [70]

def matchAccountCode (bytes : Bytes) : Option (ℕ × AccountKind) :=
  -- longest first so `DU` doesn't get consumed as a `U`
  if bytes.length ≥ 9 ∧ bytes[0]? = some 68 ∧ bytes[1]? = some 85 ∧
      (bytes.extract 2 9).all isAsciiDigit ∧ ¬(bytes[9]?).any isAsciiDigit then some (9, .paper)
  else if bytes.length ≥ 8 then do
    let kind ←
      if bytes[0]? = some 85 then some .retail else if bytes[0]? = some 70 then some .fa else none
    if (bytes.extract 1 8).all isAsciiDigit ∧ ¬(bytes[8]?).any isAsciiDigit then some (8, kind)
      else none
  else none

/-- `U` and `F` are not matched inside a larger identifier. -/
def matchAccountCodeBounded (bytes : Bytes) (prev : Option UInt8) : Option (ℕ × AccountKind) :=
  match matchAccountCode bytes with
  | some (len, kind) => if kind ≠ .paper ∧ prev.any bindsNext then none else some (len, kind)
  | none => none

/-- `bytes` starts with an account code of `len` bytes. -/
structure AccountShape (bytes : Bytes) (len : ℕ) (kind : AccountKind) : Prop where
  len_eq : len = kind.letters.length + 7
  shape : ∃ digits rest, bytes = kind.letters ++ (digits ++ rest) ∧ digits.length = 7 ∧
    (∀ b ∈ digits, isAsciiDigit b) ∧ ¬rest.head?.any isAsciiDigit

/-! ### Exec ids -/

def matchExecId (bytes : Bytes) : Option ℕ :=
  let a := runLength isExecChar 32 bytes
  if a < 6 then none
  else if bytes[a]? ≠ some 46 then none
  else
    let mid := runLength isExecChar 16 (bytes.drop (a + 1))
    if mid < 4 then none
    else if bytes[a + 1 + mid]? ≠ some 46 then none
    else
      let tail := runLength isExecChar 8 (bytes.drop (a + 1 + mid + 1))
      if tail < 2 then none
      -- not if followed by another exec-char (ambiguous)
      else if (bytes[a + 1 + mid + 1 + tail]?).any isExecChar then none
      else some (a + 1 + mid + 1 + tail)

/-- `bytes` starts with an exec id of `len` bytes. -/
def ExecShape (bytes : Bytes) (len : ℕ) : Prop :=
  ∃ a mid tail rest, bytes = a ++ 46 :: (mid ++ 46 :: (tail ++ rest)) ∧
    len = a.length + 1 + mid.length + 1 + tail.length ∧
    (6 ≤ a.length ∧ a.length ≤ 32 ∧ ∀ b ∈ a, isExecChar b) ∧
    (4 ≤ mid.length ∧ mid.length ≤ 16 ∧ ∀ b ∈ mid, isExecChar b) ∧
    (2 ≤ tail.length ∧ tail.length ≤ 8 ∧ ∀ b ∈ tail, isExecChar b) ∧ ¬rest.head?.any isExecChar

/-! ### Perm ids -/

def matchPermId (bytes : Bytes) (prev : Option UInt8) : Option ℕ :=
  if prev.any bindsNext then none
  else
    let i := runLength isAsciiDigit 19 bytes
    if i < 10 then none
    else if (bytes[i]?).any isAsciiAlphanumeric then none
    else some i

/-- `bytes` starts with a perm id of `len` bytes. -/
def PermShape (bytes : Bytes) (len : ℕ) : Prop :=
  ∃ digits rest, bytes = digits ++ rest ∧ len = digits.length ∧ 10 ≤ digits.length ∧
    digits.length ≤ 19 ∧
    (∀ b ∈ digits, isAsciiDigit b) ∧ ¬rest.head?.any isAsciiAlphanumeric

/-! ### The shapes -/

/-- The letters and seven digits, and no eighth. -/
theorem code_iff {letters bytes : Bytes} :
    (∃ digits rest, bytes = letters ++ (digits ++ rest) ∧ digits.length = 7 ∧ (∀ b ∈ digits,
      isAsciiDigit b) ∧
      ¬rest.head?.any isAsciiDigit) ↔
    letters <+: bytes ∧ letters.length + 7 ≤ bytes.length ∧
      (bytes.extract letters.length (letters.length + 7)).all isAsciiDigit ∧
      ¬(bytes[letters.length + 7]?).any isAsciiDigit := by
  constructor
  · rintro ⟨digits, rest, rfl, hlen, hdigits, hrest⟩
    refine ⟨List.prefix_append _ _, by simp; omega, ?_, ?_⟩
    · simpa [hlen] using hdigits
    · rw [← List.append_assoc, List.getElem?_append_right (by simp [hlen])]
      simpa [hlen, List.head?_eq_getElem?] using hrest
  · rintro ⟨⟨rest, rfl⟩, hlen, hdigits, hrest⟩
    refine ⟨rest.take 7, rest.drop 7, by rw [List.take_append_drop], ?_, ?_, ?_⟩
    · rw [List.length_append] at hlen
      rw [List.length_take]
      omega
    · simpa using hdigits
    · rw [List.getElem?_append_right (by omega)] at hrest
      simpa [List.head?_drop] using hrest

theorem letters_prefix_iff (kind : AccountKind) (bytes : Bytes) : kind.letters <+: bytes ↔
    match kind with
    | .paper => bytes[0]? = some 68 ∧ bytes[1]? = some 85
    | .retail => bytes[0]? = some 85
    | .fa => bytes[0]? = some 70 := by
  rcases bytes with _ | ⟨a, _ | ⟨b, bytes⟩⟩ <;> cases kind <;>
    simp only [AccountKind.letters, List.cons_prefix_cons, List.prefix_nil, List.nil_prefix, and_true,
      List.getElem?_cons_zero, List.getElem?_cons_succ, List.getElem?_nil, Option.some.injEq,
        reduceCtorEq,
      and_false, eq_comm]

theorem accountShape_iff {bytes : Bytes} {len : ℕ} {kind : AccountKind} : AccountShape bytes len kind ↔
    len = kind.letters.length + 7 ∧ kind.letters <+: bytes ∧ kind.letters.length + 7 ≤ bytes.length ∧
      (bytes.extract kind.letters.length (kind.letters.length + 7)).all isAsciiDigit ∧
      ¬(bytes[kind.letters.length + 7]?).any isAsciiDigit :=
  ⟨fun h => ⟨h.len_eq, code_iff.mp h.shape⟩, fun h => ⟨h.1, code_iff.mpr h.2⟩⟩

theorem matchAccountCode_iff {bytes : Bytes} {len : ℕ} {kind : AccountKind} :
    matchAccountCode bytes = some (len, kind) ↔ AccountShape bytes len kind := by
  rw [accountShape_iff, letters_prefix_iff]
  unfold matchAccountCode
  split
  · rename_i hpaper
    obtain ⟨hlen, hd, hu, hdigits, hnext⟩ := hpaper
    cases kind
    case paper =>
      constructor
      · intro h
        obtain ⟨rfl, -⟩ := Prod.mk.inj (Option.some.inj h)
        exact ⟨rfl, ⟨hd, hu⟩, hlen, hdigits, hnext⟩
      · rintro ⟨rfl, -⟩
        rfl
    case retail => simp [hd]
    case fa => simp [hd]
  rename_i hpaper
  split
  · rename_i hlen
    cases kind
    case paper =>
      refine iff_of_false ?_ fun ⟨hlen, ⟨hd, hu⟩, h⟩ => hpaper ⟨h.1, hd, hu, h.2⟩
      cases hb : bytes[0]? with
      | none => simp
      | some b => by_cases hU : b = 85 <;> by_cases hF : b = 70 <;> simp [hU, hF]
    case retail =>
      by_cases hu : bytes[0]? = some 85
      · rw [if_pos hu]
        constructor
        · intro h
          obtain ⟨hcode, heq⟩ := Option.ite_none_right_eq_some.mp h
          obtain ⟨rfl, -⟩ := Prod.mk.inj (Option.some.inj heq)
          exact ⟨rfl, hu, hlen, hcode⟩
        · rintro ⟨rfl, -, -, hcode⟩
          exact if_pos hcode
      · by_cases hf : bytes[0]? = some 70 <;> simp [hu, hf]
    case fa =>
      by_cases hf : bytes[0]? = some 70
      · have hu : bytes[0]? ≠ some 85 := by rw [hf]; decide
        rw [if_neg hu, if_pos hf]
        constructor
        · intro h
          obtain ⟨hcode, heq⟩ := Option.ite_none_right_eq_some.mp h
          obtain ⟨rfl, -⟩ := Prod.mk.inj (Option.some.inj heq)
          exact ⟨rfl, hf, hlen, hcode⟩
        · rintro ⟨rfl, -, -, hcode⟩
          exact if_pos hcode
      · by_cases hu : bytes[0]? = some 85 <;> simp [hu, hf]
  · rename_i hshort
    refine iff_of_false (by simp) fun ⟨_, _, hlen, _⟩ => hshort ?_
    cases kind <;> simp only [AccountKind.letters, List.length_cons, List.length_nil] at hlen <;> omega

/-- A run is a piece of bytes with `p`. -/
theorem exists_run (p : UInt8 → Bool) (max : ℕ) (bytes : Bytes) :
    ∃ run rest, bytes = run ++ rest ∧ run.length = runLength p max bytes ∧ run.length ≤ max ∧
      ∀ b ∈ run, p b := by
  induction bytes generalizing max with
  | nil => exact ⟨[], [], rfl, by cases max <;> rfl, Nat.zero_le _, by simp⟩
  | cons b bytes ih =>
    cases max with
    | zero => exact ⟨[], b :: bytes, rfl, rfl, le_rfl, by simp⟩
    | succ max =>
      by_cases hb : p b
      · obtain ⟨run, rest, rfl, hlen, hmax, hrun⟩ := ih max
        refine ⟨b :: run, rest, rfl, ?_, Nat.succ_le_succ hmax, List.forall_mem_cons.mpr ⟨hb, hrun⟩⟩
        rw [runLength, if_pos hb, List.length_cons, hlen]
      · exact ⟨[], b :: bytes, rfl, by rw [runLength, if_neg hb]; rfl, Nat.zero_le _, by simp⟩

/-- A run ends before a byte without `p`. -/
theorem runLength_append {p : UInt8 → Bool} {max : ℕ} {run rest : Bytes} (hrun : ∀ b ∈ run, p b)
    (hmax : run.length ≤ max) (hstop : ¬rest.head?.any p) :
    runLength p max (run ++ rest) = run.length := by
  induction run generalizing max with
  | nil =>
    cases max with
    | zero => cases rest <;> rfl
    | succ max =>
      cases rest with
      | nil => rfl
      | cons b rest => exact if_neg hstop
  | cons b run ih =>
    obtain ⟨hb, hrun⟩ := List.forall_mem_cons.mp hrun
    obtain ⟨max, rfl⟩ :=
      Nat.exists_eq_add_of_le' (Nat.one_le_of_lt (Nat.lt_of_lt_of_le (Nat.succ_pos _) hmax))
    rw [List.cons_append, runLength, if_pos hb, ih hrun (Nat.le_of_succ_le_succ hmax), List.length_cons]

theorem getElem?_length {xs rest : Bytes} {n : ℕ} (h : xs.length = n) :
    (xs ++ rest)[n]? = rest.head? := by
  rw [List.getElem?_append_right h.le, h, Nat.sub_self, List.head?_eq_getElem?]

theorem drop_length_succ {xs rest : Bytes} {b : UInt8} {n : ℕ} (h : xs.length = n) :
    (xs ++ b :: rest).drop (n + 1) = rest := by
  rw [List.append_cons]
  exact List.drop_left' (by rw [List.length_append, h]; rfl)

theorem cons_of_head? {b : UInt8} {rest : Bytes} (h : ¬rest.head? ≠ some b) :
    ∃ rest', rest = b :: rest' :=
  ⟨rest.tail, List.eq_cons_of_mem_head? (not_not.mp h)⟩

theorem matchExecId_iff {bytes : Bytes} {len : ℕ} :
    matchExecId bytes = some len ↔ ExecShape bytes len := by
  constructor
  · intro h
    unfold matchExecId at h
    obtain ⟨a, rest, rfl, ha, hamax, haexec⟩ := exists_run isExecChar 32 bytes
    rw [← ha] at h
    dsimp only at h
    split at h
    · cases h
    rename_i hamin
    rw [getElem?_length rfl] at h
    split at h
    · cases h
    rename_i hdot
    obtain ⟨rest, rfl⟩ := cons_of_head? hdot
    obtain ⟨mid, rest, rfl, hm, hmmax, hmexec⟩ := exists_run isExecChar 16 rest
    have hmid : a ++ 46 :: (mid ++ rest) = (a ++ 46 :: mid) ++ rest := by simp
    have hmlen : (a ++ 46 :: mid).length = a.length + 1 + mid.length := by simp; omega
    rw [drop_length_succ rfl, ← hm] at h
    split at h
    · cases h
    rename_i hmmin
    rw [hmid, getElem?_length hmlen] at h
    split at h
    · cases h
    rename_i hdot'
    obtain ⟨rest, rfl⟩ := cons_of_head? hdot'
    obtain ⟨tail, rest, rfl, ht, htmax, htexec⟩ := exists_run isExecChar 8 rest
    have htail : (a ++ 46 :: mid) ++ 46 :: (tail ++ rest) =
      (a ++ 46 :: mid ++ 46 :: tail) ++ rest := by simp
    have htlen : (a ++ 46 :: mid ++ 46 :: tail).length =
        a.length + 1 + mid.length + 1 + tail.length := by
      simp
      omega
    rw [drop_length_succ hmlen, ← ht] at h
    split at h
    · cases h
    rename_i htmin
    rw [htail, getElem?_length htlen] at h
    split at h
    · cases h
    rename_i hnext
    obtain rfl := Option.some.inj h
    exact ⟨a, mid, tail, rest, rfl, rfl, ⟨not_lt.mp hamin, hamax, haexec⟩,
      ⟨not_lt.mp hmmin, hmmax, hmexec⟩,
      ⟨not_lt.mp htmin, htmax, htexec⟩, hnext⟩
  · rintro ⟨a, mid, tail, rest, rfl, rfl, ⟨hamin, hamax, ha⟩, ⟨hmmin, hmmax, hm⟩, ⟨htmin, htmax, ht⟩,
      hrest⟩
    have hdot (l : Bytes) : ¬(46 :: l : Bytes).head?.any isExecChar := by
      rw [List.head?_cons, Option.any_some]
      decide
    have hhead (l : Bytes) : ¬(46 :: l : Bytes).head? ≠ some 46 := not_not.mpr rfl
    have hmid : a ++ 46 :: (mid ++ 46 :: (tail ++ rest)) =
      (a ++ 46 :: mid) ++ 46 :: (tail ++ rest) := by simp
    have hmlen : (a ++ 46 :: mid).length = a.length + 1 + mid.length := by simp; omega
    have htail : (a ++ 46 :: mid) ++ 46 :: (tail ++ rest) =
      (a ++ 46 :: mid ++ 46 :: tail) ++ rest := by simp
    have htlen : (a ++ 46 :: mid ++ 46 :: tail).length =
        a.length + 1 + mid.length + 1 + tail.length := by
      simp
      omega
    unfold matchExecId
    dsimp only
    rw [runLength_append ha hamax (hdot _), if_neg (not_lt.mpr hamin), getElem?_length rfl,
      if_neg (hhead _), drop_length_succ rfl, runLength_append hm hmmax (hdot _),
      if_neg (not_lt.mpr hmmin), hmid, getElem?_length hmlen, if_neg (hhead _), drop_length_succ hmlen,
      runLength_append ht htmax hrest, if_neg (not_lt.mpr htmin), htail, getElem?_length htlen,
        if_neg hrest]

theorem not_digit_of_not_alphanumeric {b : Option UInt8} (h : ¬b.any isAsciiAlphanumeric) :
    ¬b.any isAsciiDigit := by
  cases b with
  | none => exact h
  | some b =>
    intro hdigit
    simp only [Option.any_some] at h hdigit
    simp [isAsciiAlphanumeric, hdigit] at h

theorem matchPermId_iff {bytes : Bytes} {prev : Option UInt8} {len : ℕ} :
    matchPermId bytes prev = some len ↔ ¬prev.any bindsNext ∧ PermShape bytes len := by
  constructor
  · intro h
    unfold matchPermId at h
    split at h
    · cases h
    rename_i hprev
    obtain ⟨run, rest, rfl, hlen, hmax, hrun⟩ := exists_run isAsciiDigit 19 bytes
    dsimp only at h
    rw [← hlen, getElem?_length rfl] at h
    split at h
    · cases h
    rename_i hmin
    split at h
    · cases h
    rename_i hnext
    obtain rfl := Option.some.inj h
    exact ⟨hprev, run, rest, rfl, rfl, not_lt.mp hmin, hmax, hrun, hnext⟩
  · rintro ⟨hprev, digits, rest, rfl, rfl, hmin, hmax, hdigits, hnext⟩
    have hlen : runLength isAsciiDigit 19 (digits ++ rest) = digits.length :=
      runLength_append hdigits hmax (not_digit_of_not_alphanumeric hnext)
    unfold matchPermId
    dsimp only
    rw [if_neg hprev, hlen, if_neg (not_lt.mpr hmin), getElem?_length rfl, if_neg hnext]

end Midas.Session
