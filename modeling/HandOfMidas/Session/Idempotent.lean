import HandOfMidas.Session.Alike

/-! Anonymising again what is anonymised. The codes of accounts come to rest in their reserved ranges;
    exec ids and perm ids are hashed again every time. -/

namespace Midas.Session

variable {sha256 : Sha256} {salt : Bytes}

/-! ### The matchers on what is alike -/

theorem matchAccountCodeBounded_eq_of_alike {l l' : Bytes} {prev prev' : Option UInt8}
    (ha : List.Forall₂ (Alike isAsciiDigit) l' l) (hprev : prev'.any bindsNext = prev.any bindsNext) :
    matchAccountCodeBounded l' prev' = matchAccountCodeBounded l prev := by
  refine Option.ext fun m => ?_
  rw [matchAccountCodeBounded_eq_some, matchAccountCodeBounded_eq_some, hprev]
  exact ⟨fun h => ⟨h.1.of_alike (alike_symm ha), h.2⟩, fun h => ⟨h.1.of_alike ha, h.2⟩⟩

theorem matchExecId_eq_of_alike {l l' : Bytes} (ha : List.Forall₂ (Alike isExecChar) l' l) :
    matchExecId l' = matchExecId l := by
  refine Option.ext fun len => ?_
  rw [matchExecId_iff, matchExecId_iff]
  exact ⟨fun h => h.of_alike (alike_symm ha), fun h => h.of_alike ha⟩

theorem matchPermId_eq_of_alike {l l' : Bytes} {prev prev' : Option UInt8}
    (ha : List.Forall₂ (Alike isAsciiDigit) l' l) (hprev : prev'.any bindsNext = prev.any bindsNext) :
    matchPermId l' prev' = matchPermId l prev := by
  refine Option.ext fun len => ?_
  rw [matchPermId_iff, matchPermId_iff, hprev]
  exact ⟨fun h => ⟨h.1, h.2.of_alike (alike_symm ha)⟩, fun h => ⟨h.1, h.2.of_alike ha⟩⟩

/-- Bytes that differ in digits only are walked over in the same way. -/
theorem matchAt_eq_of_alike {l l' : Bytes} {prev prev' : Option UInt8}
    (ha : List.Forall₂ (Alike isAsciiDigit) l' l) (hprev : prev'.any bindsNext = prev.any bindsNext) :
    matchAt prev' l' = matchAt prev l := by
  unfold matchAt
  rw [matchAccountCodeBounded_eq_of_alike ha hprev, matchExecId_eq_of_alike (alike_of_digits ha),
    matchPermId_eq_of_alike ha hprev]

/-! ### Accounts only -/

/-- Neither an exec id nor a perm id is found. -/
def NoIds (prev : Option UInt8) (bytes : Bytes) : Prop :=
  ∀ p ∈ pieces prev bytes, p.found ≠ some .execId ∧ p.found ≠ some .permId

theorem NoIds.alike {prev : Option UInt8} {bytes : Bytes} (h : NoIds prev bytes) :
    List.Forall₂ (Alike isAsciiDigit) (rewritten sha256 salt prev bytes) bytes :=
  alike_digits_rewritten sha256 salt fun p hp => (h p hp).1

theorem reserved_prefix_replacement {kind : AccountKind} (text : Bytes) :
    kind.reserved <+: replacement sha256 salt ⟨some (.account kind), text⟩ := by
  unfold replacement
  dsimp only
  split
  · assumption
  · obtain ⟨digits, heq, -⟩ := accountText_eq sha256 salt text kind
    exact ⟨digits, heq.symm⟩

theorem replacement_of_reserved {kind : AccountKind} {text : Bytes} (h : kind.reserved <+: text) :
    replacement sha256 salt ⟨some (.account kind), text⟩ = text := if_pos h

/-- Codes that have been replaced are not replaced again. -/
theorem NoIds.rewritten_rewritten {prev prev' : Option UInt8} {bytes : Bytes} (h : NoIds prev bytes)
    (hprev : prev'.any bindsNext = prev.any bindsNext) :
    rewritten sha256 salt prev' (rewritten sha256 salt prev bytes) =
      rewritten sha256 salt prev bytes := by
  have halike : List.Forall₂ (Alike isAsciiDigit) (rewritten sha256 salt prev bytes) bytes := h.alike
  have hagain := matchAt_eq_of_alike halike hprev
  induction prev, bytes using pieces_induction generalizing prev' with
  | nil prev => simp [rewritten]
  | raw prev b rest hmatch ih =>
    have hrest : NoIds (some b) rest := fun p hp => h p (by rw [pieces_raw hmatch]; exact .tail _ hp)
    rw [rewritten_raw sha256 salt hmatch] at hagain ⊢
    rw [rewritten_raw sha256 salt (hagain.trans hmatch)]
    rw [ih hrest rfl hrest.alike (matchAt_eq_of_alike hrest.alike rfl)]
  | hit prev text rest found hfits hmatch ih =>
    have hrest : NoIds text.getLast? rest :=
      fun p hp => h p (by rw [pieces_hit hmatch]; exact .tail _ hp)
    obtain ⟨kind, rfl⟩ : ∃ kind, found = .account kind := by
      have hne := h ⟨some found, text⟩ (by rw [pieces_hit hmatch]; exact .head _)
      rcases found with kind | _ | _
      · exact ⟨kind, rfl⟩
      · exact absurd rfl hne.1
      · exact absurd rfl hne.2
    have halike' :=
      alike_replacement sha256 salt (p := ⟨some (.account kind), text⟩) (by rintro _ ⟨⟩; exact hfits)
    have hlen := halike'.length_eq
    have hlast := any_getLast?_of_alike (fun _ => bindsNext_of_isExecChar) halike'
    rw [rewritten_hit sha256 salt hmatch] at hagain ⊢
    rw [hmatch, ← hlen] at hagain
    rw [rewritten_hit sha256 salt hagain, replacement_of_reserved (reserved_prefix_replacement text),
      ih hrest hlast hrest.alike (matchAt_eq_of_alike hrest.alike hlast)]

/-! ### Ids -/

/-- A hash by which no id is put for itself: the first character always changes, and that of an exec
    id becomes a letter. -/
def flipping (salt : Bytes) : Sha256 := fun bytes i =>
  if i.val ≠ 0 then 0
  else if bytes[salt.length + 1]? = some 101 then
    if bytes[salt.length + 6]? = some 97 then 0xb0 else 0xa0
  else if bytes[salt.length + 9]? = some 49 then 1
  else 0

theorem getElem?_behind (salt text : Bytes) (k : ℕ) : (salt ++ text)[salt.length + k]? = text[k]? := by
  rw [List.getElem?_append_right (Nat.le_add_right _ _), Nat.add_sub_cancel_left]

theorem flipping_perm (salt : Bytes) (b : UInt8) (text : Bytes) :
    flipping salt (salt ++ permTag ++ b :: text) 0 = if b = 49 then 1 else 0 := by
  have htag : (permTag ++ b :: text)[1]? = some 112 := rfl
  have hfirst : (permTag ++ b :: text)[9]? = some b := rfl
  unfold flipping
  rw [List.append_assoc, getElem?_behind, getElem?_behind, getElem?_behind, htag, hfirst]
  simp

theorem flipping_exec (salt : Bytes) (b : UInt8) (text : Bytes) :
    flipping salt (salt ++ execTag ++ b :: text) 0 = if b = 97 then 0xb0 else 0xa0 := by
  have htag : (execTag ++ b :: text)[1]? = some 101 := rfl
  have hfirst : (execTag ++ b :: text)[6]? = some b := rfl
  unfold flipping
  rw [List.append_assoc, getElem?_behind, getElem?_behind, getElem?_behind, htag, hfirst]
  simp

/-- The first character of a perm id changes. -/
theorem permText_flipping (salt : Bytes) (b : UInt8) (text : Bytes) :
    (permText (flipping salt) salt (b :: text)).head? ≠ some b := by
  have hhead : (permText (flipping salt) salt (b :: text)).head? =
      some (digit ((flipping salt (salt ++ permTag ++ b :: text) 0).toNat % 9 + 1)) := by
    rw [permText, List.length_cons, List.range_succ_eq_map]
    rfl
  rw [hhead, flipping_perm]
  split
  · rename_i hb
    subst hb
    decide
  · rename_i hb
    intro heq
    exact hb (Option.some.inj heq).symm

theorem padOrTruncate_cons (c : UInt8) (s : Bytes) (n : ℕ) :
    ∃ rest, padOrTruncate (c :: s) (n + 1) = c :: rest := by
  unfold padOrTruncate
  split
  · exact ⟨s, rfl⟩
  split
  · exact ⟨s.take n, rfl⟩
  · exact ⟨_, rfl⟩

/-- The first character of an exec id changes, and is a letter. -/
theorem execText_flipping (salt : Bytes) {text : Bytes} (hfits : Found.execId.Fits text) :
    ∃ b rest, execText (flipping salt) salt text = b :: rest ∧ text.head? ≠ some b ∧
      (b = 97 ∨ b = 98) := by
  obtain ⟨a, mid, tail, rfl, ⟨hamin, ha⟩, ⟨-, hm⟩, -, ht⟩ := hfits
  obtain ⟨c, a', rfl⟩ := List.exists_cons_of_length_pos (Nat.lt_of_lt_of_le (by decide) hamin)
  obtain ⟨hex, hhex⟩ : ∃ hex, hexOf (flipping salt) salt (c :: a' ++ 46 :: (mid ++ 46 :: tail)) 0 8 =
      hexDigit ((flipping salt (salt ++ execTag ++ c :: (a' ++ 46 :: (mid ++ 46 :: tail))) 0).toNat /
        16) :: hex :=
    ⟨_, rfl⟩
  rw [flipping_exec] at hhex
  obtain ⟨rest, hrest⟩ := padOrTruncate_cons
    (hexDigit ((if c = 97 then 0xb0 else 0xa0 : UInt8).toNat / 16)) hex a'.length
  refine ⟨_, _, by rw [execText_eq _ _ ha hm ht, hhex, List.length_cons, hrest, List.cons_append],
    ?_, ?_⟩
  · rw [List.cons_append, List.head?_cons]
    split
    · rename_i hc
      subst hc
      decide
    · rename_i hc
      intro heq
      exact hc (Option.some.inj heq)
  · split
    · exact .inr (by decide)
    · exact .inl (by decide)

/-- From here on an id is found by whoever gets here. -/
inductive Exposed (prev : Option UInt8) (bytes : Bytes) : Prop
  | exec {len : ℕ} {b : UInt8} : ExecShape bytes len → bytes.head? = some b → b = 97 ∨ b = 98 →
    Exposed prev bytes
  | perm {len : ℕ} : PermShape bytes len → ¬prev.any bindsNext → Exposed prev bytes

theorem getLast?_append_or {u v : Bytes} (prev : Option UInt8) (hu : u ≠ []) :
    (u ++ v).getLast?.or prev = v.getLast?.or u.getLast? := by
  obtain ⟨b, hb⟩ := Option.ne_none_iff_exists'.mp (mt List.getLast?_eq_none_iff.mp hu)
  rw [List.getLast?_append, hb]
  cases v.getLast? <;> rfl

/-- Where an id is found, the anonymised bytes have an exposed id. -/
theorem exists_exposed (salt : Bytes) {prev prev' : Option UInt8} {bytes : Bytes}
    (h : ¬NoIds prev bytes)
    (hprev : prev'.any bindsNext = prev.any bindsNext) :
    ∃ u v, rewritten (flipping salt) salt prev bytes = u ++ v ∧ Exposed (u.getLast?.or prev') v := by
  induction prev, bytes using pieces_induction generalizing prev' with
  | nil prev => exact absurd (fun p hp => by simp at hp) h
  | raw prev b rest hmatch ih =>
    have hrest : ¬NoIds (some b) rest := fun hno => h fun p hp => by
      rw [pieces_raw hmatch] at hp
      rcases List.mem_cons.mp hp with rfl | hp
      · exact ⟨by simp, by simp⟩
      · exact hno p hp
    obtain ⟨u, v, heq, hexposed⟩ := @ih (some b) hrest rfl
    refine ⟨b :: u, v, by rw [rewritten_raw _ _ hmatch, heq]; rfl, ?_⟩
    rwa [← List.singleton_append, getLast?_append_or prev' (by simp)]
  | hit prev text rest found hfits hmatch ih =>
    have halike' :=
      alike_replacement (flipping salt) salt (p := ⟨some found, text⟩) (by rintro _ ⟨⟩; exact hfits)
    have hlast := any_getLast?_of_alike (fun _ => bindsNext_of_isExecChar) halike'
    have hshape := shape_of_matchAt hmatch
    have hwhole := alike_rewritten (flipping salt) salt prev (text ++ rest)
    have hrest' := alike_rewritten (flipping salt) salt text.getLast? rest
    rw [rewritten_hit _ _ hmatch] at hwhole ⊢
    cases found with
    | account kind =>
      have hrest : ¬NoIds text.getLast? rest := fun hno => h fun p hp => by
        rw [pieces_hit hmatch] at hp
        rcases List.mem_cons.mp hp with rfl | hp
        · exact ⟨by simp, by simp⟩
        · exact hno p hp
      obtain ⟨u, v, heq, hexposed⟩ := ih hrest hlast
      refine ⟨_ ++ u, v, by rw [heq, List.append_assoc], ?_⟩
      have hne : replacement (flipping salt) salt ⟨some (.account kind), text⟩ ≠ [] :=
        List.length_pos_iff.mp (halike'.length_eq ▸ hfits.pos)
      rwa [getLast?_append_or prev' hne]
    | execId =>
      obtain ⟨b, rest', heq, -, hb⟩ := execText_flipping salt hfits
      have hhead : (replacement (flipping salt) salt ⟨some .execId, text⟩ ++
          rewritten (flipping salt) salt text.getLast? rest).head? = some b := by
        change (execText (flipping salt) salt text ++ _).head? = some b
        rw [heq]
        rfl
      exact ⟨[], _, rfl, .exec (ExecShape.of_alike hshape hwhole) hhead hb⟩
    | permId =>
      obtain ⟨hfree, digits, rest', heq, hlen, hmin, hmax, hall, hnext⟩ := hshape
      obtain ⟨rfl, rfl⟩ := List.append_inj heq hlen
      refine ⟨[], _, rfl, .perm ⟨permText (flipping salt) salt text, _, rfl, rfl,
        ?_⟩ (by simpa [hprev] using hfree)⟩
      rw [length_permText]
      refine ⟨hmin, hmax, forall_permText _ salt text, ?_⟩
      rwa [any_head?_of_alike (fun _ => isAsciiAlphanumeric_of_isExecChar) hrest']

/-- Inside an account code no id is exposed. -/
theorem not_exposed_inside {prev p : Option UInt8} {u w rest : Bytes} {kind : AccountKind} (hw : w ≠ [])
    (h : (Found.account kind).Shape prev (u ++ w ++ rest) (u ++ w).length) :
    ¬Exposed p (w ++ rest) := by
  obtain ⟨⟨hlen, digits, rest', heq, hdigits, hall, hnext⟩, -⟩ := h
  rw [← List.append_assoc] at heq
  obtain ⟨htext, rfl⟩ := List.append_inj heq (by rw [hlen, List.length_append, hdigits])
  rintro (⟨hexec, hhead, hb⟩ | ⟨hperm, -⟩)
  · have hchars : ∀ c ∈ u ++ w, c ≠ 97 ∧ c ≠ 98 := by
      rw [htext]
      refine List.forall_mem_append.mpr ⟨by cases kind <;> simp [AccountKind.letters], fun c hc => ?_⟩
      have hdigit := hall c hc
      constructor <;> rintro rfl <;> revert hdigit <;> decide
    obtain ⟨c, w', rfl⟩ := List.exists_cons_of_ne_nil hw
    obtain rfl := Option.some.inj hhead
    have hc := hchars c (by simp)
    rcases hb with rfl | rfl
    · exact hc.1 rfl
    · exact hc.2 rfl
  · obtain ⟨digits', rest', heq', -, hmin, -, hall', -⟩ := hperm
    have hwlen : w.length < digits'.length := by
      have := congrArg List.length htext
      have hletters : kind.letters.length ≤ 2 := by cases kind <;> decide
      simp only [List.length_append] at this
      omega
    obtain ⟨d, rfl⟩ : w <+: digits' :=
      List.prefix_of_prefix_length_le ⟨rest, rfl⟩ (heq' ▸ List.prefix_append _ _) hwlen.le
    rw [List.append_assoc] at heq'
    obtain rfl := List.append_cancel_left heq'
    cases d with
    | nil => simp at hwlen
    | cons c d => exact hnext (hall' c (by simp))

/-- Where an id is exposed, anonymising again changes something. -/
theorem not_exposed_of_rewritten_eq {prev : Option UInt8} {bytes : Bytes}
    (h : rewritten (flipping salt) salt prev bytes = bytes) {u v : Bytes} (heq : bytes = u ++ v) :
    ¬Exposed (u.getLast?.or prev) v := by
  induction prev, bytes using pieces_induction generalizing u with
  | nil prev =>
    obtain ⟨rfl, rfl⟩ := List.append_eq_nil_iff.mp heq.symm
    rintro (⟨-, hhead, -⟩ | ⟨⟨digits, rest, heq', -, hmin, -⟩, -⟩)
    · cases hhead
    · obtain ⟨rfl, -⟩ := List.append_eq_nil_iff.mp heq'.symm
      simp at hmin
  | raw prev b rest hmatch ih =>
    rw [rewritten_raw _ _ hmatch] at h
    have hrest := (List.cons.inj h).2
    cases u with
    | nil =>
      rw [List.nil_append] at heq
      subst heq
      rintro (⟨hexec, -, -⟩ | ⟨hperm, hfree⟩)
      · exact not_shape_of_matchAt hmatch _ .execId hexec
      · exact not_shape_of_matchAt hmatch _ .permId ⟨hfree, hperm⟩
    | cons c u =>
      obtain ⟨rfl, rfl⟩ := List.cons.inj heq
      rw [← List.singleton_append, getLast?_append_or prev (by simp)]
      exact ih hrest rfl
  | hit prev text rest found hfits hmatch ih =>
    have hlen :=
      length_replacement (flipping salt) salt (p := ⟨some found, text⟩) (by rintro _ ⟨⟩; exact hfits)
    rw [rewritten_hit _ _ hmatch] at h
    obtain ⟨hsame, hrest⟩ := List.append_inj h hlen
    have hne : text ≠ [] := List.length_pos_iff.mp hfits.pos
    cases found with
    | account kind =>
      rcases List.append_eq_append_iff.mp heq with ⟨w, rfl, rfl⟩ | ⟨w, rfl, rfl⟩
      · rw [getLast?_append_or prev hne]
        exact ih hrest rfl
      · by_cases hw : w = []
        · subst hw
          have hnot := ih hrest (u := []) rfl
          rw [← getLast?_append_or prev hne, List.append_nil, List.append_nil] at hnot
          exact hnot
        · exact not_exposed_inside hw (shape_of_matchAt hmatch)
    | execId =>
      obtain ⟨b, text', heq', hhead, -⟩ := execText_flipping salt hfits
      have hsame' : execText (flipping salt) salt text = text := hsame
      rw [← hsame', heq'] at hhead
      exact absurd rfl hhead
    | permId =>
      obtain ⟨b, text', rfl⟩ := List.exists_cons_of_ne_nil hne
      have hsame' : permText (flipping salt) salt (b :: text') = b :: text' := hsame
      have hhead := permText_flipping salt b text'
      rw [hsame'] at hhead
      exact absurd rfl hhead

/-! ### Any number of payloads -/

variable (sha256 salt)

/-- An anonymiser without maps that has anonymised `history`. -/
def Anonymizer.after (history : List Bytes) : Anonymizer :=
  history.foldl (fun a input => (a.anonymizeBytes sha256 input).2) (.new { salt })

theorem sound_after (history : List Bytes) :
    (Anonymizer.after sha256 salt history).Sound sha256 salt := by
  induction history using List.reverseRecOn with
  | nil => exact Anonymizer.sound_new sha256 salt
  | append_singleton history input ih =>
    rw [Anonymizer.after, List.foldl_append]
    exact (ih.anonymizeBytes input).2

/-- `out` has the length of `bytes`, and differs from them only inside what is found there. -/
def Preserves (bytes out : Bytes) : Prop :=
  out.length = bytes.length ∧ ∃ texts, out = texts.flatten ∧
    List.Forall₂ (fun (p : Piece) text => text.length = p.text.length ∧
      (p.found = none → text = p.text))
      (pieces none bytes) texts

theorem preserves_rewritten (bytes : Bytes) : Preserves bytes (rewritten sha256 salt none bytes) := by
  refine ⟨(alike_rewritten sha256 salt none bytes).length_eq,
    (pieces none bytes).map (replacement sha256 salt), List.flatMap_def .., ?_⟩
  rw [List.forall₂_map_right_iff, List.forall₂_same]
  refine fun p hp =>
    ⟨length_replacement sha256 salt fun _ hfound => fits_of_mem hp hfound, fun hnone => ?_⟩
  rw [replacement, hnone]

/-- Anonymised again, by the same anonymiser or a new one, `bytes` come out as they did the first
    time. -/
def AgainSame (history : List Bytes) (bytes : Bytes) : Prop :=
  let first := (Anonymizer.after sha256 salt history).anonymizeBytes sha256 bytes
  (first.2.anonymizeBytes sha256 first.1).1 = first.1 ∧
    ((Anonymizer.new { salt }).anonymizeBytes sha256 first.1).1 = first.1

variable {sha256 salt}

theorem againSame_iff (history : List Bytes) (bytes : Bytes) : AgainSame sha256 salt history bytes ↔
    rewritten sha256 salt none (rewritten sha256 salt none bytes) =
      rewritten sha256 salt none bytes := by
  obtain ⟨hfirst, hsound⟩ := (sound_after sha256 salt history).anonymizeBytes bytes
  unfold AgainSame
  dsimp only
  rw [hfirst, (hsound.anonymizeBytes _).1, ((Anonymizer.sound_new sha256 salt).anonymizeBytes _).1,
    and_self]

theorem againSame_forall_iff (salt bytes : Bytes) :
    (∀ sha256 history, AgainSame sha256 salt history bytes) ↔ NoIds none bytes := by
  constructor
  · intro h
    by_contra hids
    have hsame := (againSame_iff [] bytes).mp (h (flipping salt) [])
    obtain ⟨u, v, heq, hexposed⟩ := exists_exposed salt hids rfl
    exact not_exposed_of_rewritten_eq hsame heq hexposed
  · intro hno sha256 history
    exact (againSame_iff history bytes).mpr (hno.rewritten_rewritten rfl)

/-- Lengths are kept and only what is found is changed, whatever the hash. That anonymising again
    changes nothing holds for every hash exactly when no exec id and no perm id is found. -/
theorem anonymized_iff (salt bytes : Bytes) :
    (∀ sha256 history,
      Preserves bytes ((Anonymizer.after sha256 salt history).anonymizeBytes sha256 bytes).1) ∧
    ((∀ sha256 history, AgainSame sha256 salt history bytes) ↔ NoIds none bytes) := by
  refine ⟨fun sha256 history => ?_, againSame_forall_iff salt bytes⟩
  rw [((sound_after sha256 salt history).anonymizeBytes bytes).1]
  exact preserves_rewritten sha256 salt bytes

/-- `1656474657`. -/
def permIdDigits : Bytes := [49, 54, 53, 54, 52, 55, 52, 54, 53, 55]

/-- A perm id is put for a perm id, and then another one. -/
theorem perm_id_hashed_again :
    ¬ ∀ (sha256 : Sha256) (salt : Bytes) (history : List Bytes) (bytes : Bytes),
    AgainSame sha256 salt history bytes := by
  intro hall
  have hno := (againSame_forall_iff [] permIdDigits).mp fun sha256 history =>
    hall sha256 [] history permIdDigits
  have hmatch : matchAt none (permIdDigits ++ []) = some (permIdDigits.length, .permId) := by decide
  have hpieces := pieces_hit hmatch
  rw [List.append_nil] at hpieces
  exact (hno ⟨some .permId, permIdDigits⟩ (by rw [hpieces]; exact .head _)).2 rfl

end Midas.Session
