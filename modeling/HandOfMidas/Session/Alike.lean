import HandOfMidas.Session.Anonymize
import Mathlib.Data.List.Forall2

/-! What anonymising leaves of a payload: digits stay digits, and the characters of an exec id stay
    characters of exec ids. The matchers see no more of the bytes than that. -/

namespace Midas.Session

/-- The same byte, or two bytes with `p`. -/
def Alike (p : UInt8 → Bool) (x y : UInt8) : Prop := x = y ∨ p x ∧ p y

theorem Alike.refl (p : UInt8 → Bool) (x : UInt8) : Alike p x x := .inl rfl

theorem Alike.mono {p q : UInt8 → Bool} (h : ∀ b, p b → q b) {x y : UInt8} (ha : Alike p x y) :
    Alike q x y := by
  rcases ha with rfl | ⟨hx, hy⟩
  · exact .inl rfl
  · exact .inr ⟨h x hx, h y hy⟩

theorem Alike.symm {p : UInt8 → Bool} {x y : UInt8} (h : Alike p x y) : Alike p y x := by
  rcases h with rfl | ⟨hx, hy⟩
  · exact .inl rfl
  · exact .inr ⟨hy, hx⟩

/-- A property that the bytes with `p` have is not changed. -/
theorem Alike.eq_of_imp {p q : UInt8 → Bool} (h : ∀ b, p b → q b) {x y : UInt8} (ha : Alike p x y) :
    q x = q y := by
  rcases ha with rfl | ⟨hx, hy⟩
  · rfl
  · rw [h x hx, h y hy]

theorem isExecChar_of_isAsciiDigit {b : UInt8} (h : isAsciiDigit b) : isExecChar b := by
  simp [isExecChar, h]

theorem isAsciiAlphanumeric_of_isExecChar {b : UInt8} (h : isExecChar b) : isAsciiAlphanumeric b := by
  simp only [isExecChar, isAsciiAlphanumeric, Bool.or_eq_true, Bool.and_eq_true,
    decide_eq_true_eq] at h ⊢
  rcases h with (h | ⟨hlo, hhi⟩) | ⟨hlo, hhi⟩
  · exact .inl (.inl h)
  · exact .inr ⟨hlo, UInt8.le_trans hhi (by decide)⟩
  · exact .inl (.inr ⟨hlo, UInt8.le_trans hhi (by decide)⟩)

theorem bindsNext_of_isExecChar {b : UInt8} (h : isExecChar b) : bindsNext b := by
  simp [bindsNext, isAsciiAlphanumeric_of_isExecChar h]

section Rows

variable {p q : UInt8 → Bool} {l l' x y : Bytes}

theorem alike_refl (p : UInt8 → Bool) (l : Bytes) : List.Forall₂ (Alike p) l l :=
  List.forall₂_same.mpr fun x _ => .refl p x

theorem alike_symm (h : List.Forall₂ (Alike p) l l') : List.Forall₂ (Alike p) l' l :=
  (h.imp fun _ _ ha => ha.symm).flip

theorem alike_of_forall (hlen : l.length = l'.length) (h : ∀ b ∈ l, p b) (h' : ∀ b ∈ l', p b) :
    List.Forall₂ (Alike p) l l' := by
  refine List.forall₂_of_length_eq_of_get hlen fun i hi hi' =>
    .inr ⟨h _ (List.get_mem _ _), h' _ (List.get_mem _ _)⟩

theorem alike_append_right (h : List.Forall₂ (Alike p) l (x ++ y)) :
    ∃ x' y', l = x' ++ y' ∧ List.Forall₂ (Alike p) x' x ∧ List.Forall₂ (Alike p) y' y :=
  ⟨l.take x.length, l.drop x.length, (List.take_append_drop ..).symm, List.forall₂_take_append l x y h,
    List.forall₂_drop_append l x y h⟩

theorem alike_cons_right {b : UInt8} (h : List.Forall₂ (Alike p) l (b :: y)) (hb : ¬p b) :
    ∃ y', l = b :: y' ∧ List.Forall₂ (Alike p) y' y := by
  obtain ⟨b', y', hb', hy', rfl⟩ := List.forall₂_cons_right_iff.mp h
  rcases hb' with rfl | ⟨-, hb'⟩
  · exact ⟨y', rfl, hy'⟩
  · exact absurd hb' hb

theorem eq_of_alike (h : List.Forall₂ (Alike p) l l') (hl : ∀ b ∈ l', ¬p b) : l = l' := by
  induction h with
  | nil => rfl
  | cons hb _ ih =>
    obtain ⟨hnot, hrest⟩ := List.forall_mem_cons.mp hl
    rcases hb with rfl | ⟨-, hp⟩
    · rw [ih hrest]
    · exact absurd hp hnot

theorem forall_of_alike (hq : ∀ b, p b → q b) (h : List.Forall₂ (Alike p) l l') (hl : ∀ b ∈ l', q b) :
    ∀ b ∈ l, q b := by
  induction h with
  | nil => simp
  | cons hb _ ih =>
    obtain ⟨hq', hrest⟩ := List.forall_mem_cons.mp hl
    exact List.forall_mem_cons.mpr ⟨by rw [hb.eq_of_imp hq]; exact hq', ih hrest⟩

theorem any_head?_of_alike (hq : ∀ b, p b → q b) (h : List.Forall₂ (Alike p) l l') :
    l.head?.any q = l'.head?.any q := by
  cases h with
  | nil => rfl
  | cons hb _ => exact hb.eq_of_imp hq

theorem any_getLast?_of_alike (hq : ∀ b, p b → q b) (h : List.Forall₂ (Alike p) l l') :
    l.getLast?.any q = l'.getLast?.any q := by
  have hreverse := any_head?_of_alike hq (List.rel_reverse h)
  rwa [List.head?_reverse, List.head?_reverse] at hreverse

end Rows

/-! ### The matchers -/

variable {l l' : Bytes}

theorem AccountShape.of_alike {len : ℕ} {kind : AccountKind} (h : AccountShape l len kind)
    (ha : List.Forall₂ (Alike isAsciiDigit) l' l) : AccountShape l' len kind := by
  obtain ⟨hlen, digits, rest, rfl, hdigits, hall, hnext⟩ := h
  obtain ⟨letters', tail, rfl, hletters, htail⟩ := alike_append_right ha
  obtain ⟨digits', rest', rfl, hdigits', hrest⟩ := alike_append_right htail
  obtain rfl := eq_of_alike hletters (by cases kind <;> simp [AccountKind.letters, isAsciiDigit])
  refine ⟨hlen, digits', rest', rfl, hdigits'.length_eq.trans hdigits, ?_, ?_⟩
  · exact forall_of_alike (fun _ h => h) hdigits' hall
  · rwa [any_head?_of_alike (fun _ h => h) hrest]

theorem ExecShape.of_alike {len : ℕ} (h : ExecShape l len) (ha : List.Forall₂ (Alike isExecChar) l' l) :
    ExecShape l' len := by
  obtain ⟨a, mid, tail, rest, rfl, rfl, ⟨hamin, hamax, haexec⟩, ⟨hmmin, hmmax, hmexec⟩,
    ⟨htmin, htmax, htexec⟩, hnext⟩ := h
  have hdot : ¬isExecChar 46 := by decide
  obtain ⟨a', u, rfl, ha', hu⟩ := alike_append_right ha
  obtain ⟨v, rfl, hv⟩ := alike_cons_right hu hdot
  obtain ⟨mid', w, rfl, hm', hw⟩ := alike_append_right hv
  obtain ⟨z, rfl, hz⟩ := alike_cons_right hw hdot
  obtain ⟨tail', rest', rfl, ht', hrest⟩ := alike_append_right hz
  have halen := ha'.length_eq
  have hmlen := hm'.length_eq
  have htlen := ht'.length_eq
  refine ⟨a', mid', tail', rest', rfl, by omega, ⟨by omega, by omega, ?_⟩, ⟨by omega, by omega, ?_⟩,
    ⟨by omega, by omega, ?_⟩, ?_⟩
  · exact forall_of_alike (fun _ h => h) ha' haexec
  · exact forall_of_alike (fun _ h => h) hm' hmexec
  · exact forall_of_alike (fun _ h => h) ht' htexec
  · rwa [any_head?_of_alike (fun _ h => h) hrest]

theorem PermShape.of_alike {len : ℕ} (h : PermShape l len)
    (ha : List.Forall₂ (Alike isAsciiDigit) l' l) :
    PermShape l' len := by
  obtain ⟨digits, rest, rfl, rfl, hmin, hmax, hall, hnext⟩ := h
  obtain ⟨digits', rest', rfl, hdigits, hrest⟩ := alike_append_right ha
  have hlen := hdigits.length_eq
  refine ⟨digits', rest', rfl, hlen.symm, by omega, by omega,
    forall_of_alike (fun _ h => h) hdigits hall, ?_⟩
  rwa [any_head?_of_alike (fun b hb => isAsciiAlphanumeric_of_isExecChar (isExecChar_of_isAsciiDigit hb)) hrest]

/-! ### The texts -/

theorem isAsciiDigit_digit {d : ℕ} (h : d < 10) : isAsciiDigit (digit d) := by
  revert d
  decide

theorem isExecChar_hexDigit {d : ℕ} (h : d < 16) : isExecChar (hexDigit d) := by
  revert d
  decide

theorem isExecChar_of_mem_hexByte {b c : UInt8} (h : c ∈ hexByte b) : isExecChar c := by
  have hlt := b.toNat_lt
  rcases List.mem_cons.mp h with rfl | h
  · exact isExecChar_hexDigit (by omega)
  · obtain rfl := List.mem_singleton.mp h
    exact isExecChar_hexDigit (Nat.mod_lt _ (by decide))

theorem length_padOrTruncate (s : Bytes) (target : ℕ) : (padOrTruncate s target).length = target := by
  unfold padOrTruncate
  split
  · assumption
  split
  · rw [List.length_take]
    omega
  · rw [List.length_append, List.length_replicate]
    omega

theorem forall_padOrTruncate {p : UInt8 → Bool} {s : Bytes} (h : ∀ b ∈ s, p b) (h0 : p 48)
    (target : ℕ) :
    ∀ b ∈ padOrTruncate s target, p b := by
  unfold padOrTruncate
  split
  · exact h
  split
  · exact fun b hb => h b (List.mem_of_mem_take hb)
  · intro b hb
    rcases List.mem_append.mp hb with hb | hb
    · exact h b hb
    · rw [List.eq_of_mem_replicate hb]
      exact h0

variable (sha256 : Sha256) (salt : Bytes)

/-- The digits behind the reserved letters. -/
theorem accountText_eq (original : Bytes) (kind : AccountKind) : ∃ digits,
    accountText sha256 salt original kind = kind.reserved ++ digits ∧ digits.length = 3 ∧
      ∀ b ∈ digits, isAsciiDigit b := by
  refine ⟨_, rfl, rfl, ?_⟩
  have hn := Nat.mod_lt (((List.finRange 32).take 8).foldl
    (fun acc i => acc * 256 + (sha256 (salt ++ accountTag ++ original) i).toNat) 0)
      (show 0 < 1000 by decide)
  simp only [List.forall_mem_cons, List.not_mem_nil, false_implies, implies_true, and_true]
  exact ⟨isAsciiDigit_digit (by omega), isAsciiDigit_digit (Nat.mod_lt _ (by decide)),
    isAsciiDigit_digit (Nat.mod_lt _ (by decide))⟩

theorem length_permText (original : Bytes) :
    (permText sha256 salt original).length = original.length := by
  simp [permText]

theorem forall_permText (original : Bytes) : ∀ b ∈ permText sha256 salt original, isAsciiDigit b := by
  intro b hb
  obtain ⟨i, -, rfl⟩ := List.mem_map.mp hb
  split
  · exact isAsciiDigit_digit (by omega)
  · exact isAsciiDigit_digit (Nat.mod_lt _ (by decide))

/-- The digest in hex, from the byte `start` on. -/
def hexOf (original : Bytes) (start len : ℕ) : Bytes :=
  (((List.finRange 32).drop start).take len).flatMap fun i =>
    hexByte (sha256 (salt ++ execTag ++ original) i)

theorem forall_hexOf (original : Bytes) (start len : ℕ) :
    ∀ b ∈ hexOf sha256 salt original start len, isExecChar b := by
  intro b hb
  obtain ⟨i, -, hb⟩ := List.mem_flatMap.mp hb
  exact isExecChar_of_mem_hexByte hb

/-- An exec id gets new segments of the same lengths. -/
theorem execText_eq {a mid tail : Bytes} (ha : ∀ b ∈ a, isExecChar b) (hm : ∀ b ∈ mid, isExecChar b)
    (ht : ∀ b ∈ tail, isExecChar b) : execText sha256 salt (a ++ 46 :: (mid ++ 46 :: tail)) =
      padOrTruncate (hexOf sha256 salt (a ++ 46 :: (mid ++ 46 :: tail)) 0 8) a.length ++
        46 :: (padOrTruncate (hexOf sha256 salt (a ++ 46 :: (mid ++ 46 :: tail)) 8 4) mid.length ++
          46 :: padOrTruncate (hexOf sha256 salt (a ++ 46 :: (mid ++ 46 :: tail)) 12 1)
            tail.length) := by
  have hnodot {l : Bytes} (h : ∀ b ∈ l, isExecChar b) : 46 ∉ l :=
    fun hmem => absurd (h 46 hmem) (by decide)
  have hsplit : (a ++ 46 :: (mid ++ 46 :: tail)).splitOn 46 = [a, mid, tail] := by
    rw [List.splitOn_append_cons_self_of_not_mem (hnodot ha),
      List.splitOn_append_cons_self_of_not_mem (hnodot hm),
      List.splitOn_eq_singleton (hnodot ht)]
  unfold execText
  rw [hsplit]
  simp [hexOf]

theorem alike_of_digits {l l' : Bytes} (h : List.Forall₂ (Alike isAsciiDigit) l l') :
    List.Forall₂ (Alike isExecChar) l l' :=
  h.imp fun _ _ ha => ha.mono fun _ => isExecChar_of_isAsciiDigit

/-- Only an exec id does not keep its digits. -/
theorem alike_digits_replacement {p : Piece} (hp : ∀ found, p.found = some found → found.Fits p.text)
    (hexec : p.found ≠ some .execId) :
    List.Forall₂ (Alike isAsciiDigit) (replacement sha256 salt p) p.text := by
  obtain ⟨found, text⟩ := p
  unfold replacement
  rcases found with _ | kind | _ | _
  case none => exact alike_refl _ _
  case some.account =>
    dsimp only
    split
    · exact alike_refl _ _
    · obtain ⟨digits, rfl, hlen, hall⟩ := hp _ rfl
      obtain ⟨digits', heq, hlen', hall'⟩ := accountText_eq sha256 salt (kind.letters ++ digits) kind
      rw [heq, AccountKind.reserved, List.append_assoc]
      refine List.rel_append (alike_refl _ _) (alike_of_forall (by simp [hlen, hlen']) ?_ hall)
      exact List.forall_mem_append.mpr ⟨List.all_eq_true.mp (by decide), hall'⟩
  case some.execId => exact absurd rfl hexec
  case some.permId =>
    obtain ⟨-, -, hall⟩ := hp _ rfl
    exact alike_of_forall (length_permText sha256 salt text) (forall_permText sha256 salt text) hall

/-- What is put for a piece is like it. -/
theorem alike_replacement {p : Piece} (hp : ∀ found, p.found = some found → found.Fits p.text) :
    List.Forall₂ (Alike isExecChar) (replacement sha256 salt p) p.text := by
  by_cases hexec : p.found = some .execId
  · obtain ⟨found, text⟩ := p
    obtain rfl := hexec
    obtain ⟨a, mid, tail, rfl, ⟨-, ha⟩, ⟨-, hm⟩, -, ht⟩ := hp _ rfl
    have hseg {s l : Bytes} (hs : ∀ b ∈ s, isExecChar b) (hl : ∀ b ∈ l, isExecChar b) :
        List.Forall₂ (Alike isExecChar) (padOrTruncate s l.length) l :=
      alike_of_forall (length_padOrTruncate s l.length)
        (forall_padOrTruncate hs (by decide) l.length) hl
    change List.Forall₂ _ (execText sha256 salt _) _
    rw [execText_eq sha256 salt ha hm ht]
    refine List.rel_append (hseg (forall_hexOf sha256 salt _ _ _) ha) (.cons (.refl _ _) ?_)
    exact List.rel_append (hseg (forall_hexOf sha256 salt _ _ _) hm)
      (.cons (.refl _ _) (hseg (forall_hexOf sha256 salt _ _ _) ht))
  · exact alike_of_digits (alike_digits_replacement sha256 salt hp hexec)

theorem length_replacement {p : Piece} (hp : ∀ found, p.found = some found → found.Fits p.text) :
    (replacement sha256 salt p).length = p.text.length :=
  (alike_replacement sha256 salt hp).length_eq

/-! ### Whole payloads -/

theorem alike_flatMap {p : UInt8 → Bool} {ps : List Piece}
    (h : ∀ q ∈ ps, List.Forall₂ (Alike p) (replacement sha256 salt q) q.text) :
    List.Forall₂ (Alike p) (ps.flatMap (replacement sha256 salt)) (ps.flatMap Piece.text) := by
  induction ps with
  | nil => exact .nil
  | cons q ps ih =>
    obtain ⟨hq, hps⟩ := List.forall_mem_cons.mp h
    exact List.rel_append hq (ih hps)

theorem alike_rewritten (prev : Option UInt8) (bytes : Bytes) :
    List.Forall₂ (Alike isExecChar) (rewritten sha256 salt prev bytes) bytes := by
  have h := alike_flatMap sha256 salt fun q (hq : q ∈ pieces prev bytes) =>
    alike_replacement sha256 salt fun _ hfound => fits_of_mem hq hfound
  rwa [flatMap_text] at h

theorem alike_digits_rewritten {prev : Option UInt8} {bytes : Bytes}
    (hexec : ∀ p ∈ pieces prev bytes, p.found ≠ some .execId) :
    List.Forall₂ (Alike isAsciiDigit) (rewritten sha256 salt prev bytes) bytes := by
  have h := alike_flatMap sha256 salt fun q (hq : q ∈ pieces prev bytes) =>
    alike_digits_replacement sha256 salt (fun _ hfound => fits_of_mem hq hfound) (hexec q hq)
  rwa [flatMap_text] at h

theorem rewritten_raw {prev : Option UInt8} {b : UInt8} {rest : Bytes}
    (h : matchAt prev (b :: rest) = none) :
    rewritten sha256 salt prev (b :: rest) = b :: rewritten sha256 salt (some b) rest := by
  rw [rewritten, pieces_raw h]
  rfl

theorem rewritten_hit {prev : Option UInt8} {text rest : Bytes} {found : Found}
    (h : matchAt prev (text ++ rest) = some (text.length, found)) :
    rewritten sha256 salt prev (text ++ rest) =
      replacement sha256 salt ⟨some found, text⟩ ++ rewritten sha256 salt text.getLast? rest := by
  rw [rewritten, pieces_hit h]
  rfl

end Midas.Session
