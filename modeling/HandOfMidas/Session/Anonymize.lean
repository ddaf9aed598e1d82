import HandOfMidas.Session.Matchers
import Mathlib.Logic.Function.Basic

/-! The anonymiser of captured sessions (`session/anonymize.rs`). It walks over a payload, copies
    what no matcher finds, and puts a text made from a hash where one does. -/

namespace Midas.Session

/-! ### The walk -/

inductive Found where
  | account (kind : AccountKind)
  | execId
  | permId
  deriving DecidableEq

/-- What is found at the cursor. The account codes come first. -/
def matchAt (prev : Option UInt8) (bytes : Bytes) : Option (ℕ × Found) :=
  match matchAccountCodeBounded bytes prev with
  | some (len, kind) => some (len, .account kind)
  | none =>
    match matchExecId bytes with
    | some len => some (len, .execId)
    | none => (matchPermId bytes prev).map (·, .permId)

theorem matchAccountCodeBounded_eq_some {bytes : Bytes} {prev : Option UInt8} {len : ℕ}
    {kind : AccountKind} :
    matchAccountCodeBounded bytes prev = some (len, kind) ↔
      AccountShape bytes len kind ∧ ¬(kind ≠ .paper ∧ prev.any bindsNext) := by
  rw [← matchAccountCode_iff]
  unfold matchAccountCodeBounded
  cases matchAccountCode bytes with
  | none => simp
  | some m =>
    obtain ⟨len', kind'⟩ := m
    dsimp only
    split
    · rename_i hbound
      refine iff_of_false (by simp) fun ⟨heq, hfree⟩ => hfree ?_
      obtain ⟨rfl, rfl⟩ := Prod.mk.inj (Option.some.inj heq)
      exact hbound
    · rename_i hfree
      refine ⟨fun heq => ⟨heq, ?_⟩, fun h => h.1⟩
      obtain ⟨rfl, rfl⟩ := Prod.mk.inj (Option.some.inj heq)
      exact hfree

/-- What a found text looks like. -/
def Found.Fits : Found → Bytes → Prop
  | .account kind, text => ∃ digits, text = kind.letters ++ digits ∧ digits.length = 7 ∧
    ∀ b ∈ digits, isAsciiDigit b
  | .execId, text => ∃ a mid tail, text = a ++ 46 :: (mid ++ 46 :: tail) ∧
      (6 ≤ a.length ∧ ∀ b ∈ a, isExecChar b) ∧ (4 ≤ mid.length ∧ ∀ b ∈ mid, isExecChar b) ∧
      (2 ≤ tail.length ∧ ∀ b ∈ tail, isExecChar b)
  | .permId, text => 10 ≤ text.length ∧ text.length ≤ 19 ∧ ∀ b ∈ text, isAsciiDigit b

theorem Found.Fits.pos {found : Found} {text : Bytes} (h : found.Fits text) : 0 < text.length := by
  cases found with
  | account kind =>
    obtain ⟨digits, rfl, hlen, -⟩ := h
    rw [List.length_append, hlen]
    omega
  | execId =>
    obtain ⟨a, mid, tail, rfl, ⟨ha, -⟩, -⟩ := h
    rw [List.length_append]
    omega
  | permId => exact lt_of_lt_of_le (by decide) h.1

/-- The shape of what is found. -/
def Found.Shape (prev : Option UInt8) (bytes : Bytes) (len : ℕ) : Found → Prop
  | .account kind => AccountShape bytes len kind ∧ ¬(kind ≠ .paper ∧ prev.any bindsNext)
  | .execId => ExecShape bytes len
  | .permId => ¬prev.any bindsNext ∧ PermShape bytes len

theorem shape_of_matchAt {prev : Option UInt8} {bytes : Bytes} {len : ℕ} {found : Found}
    (h : matchAt prev bytes = some (len, found)) : found.Shape prev bytes len := by
  unfold matchAt at h
  split at h
  · rename_i haccount
    obtain ⟨rfl, rfl⟩ := Prod.mk.inj (Option.some.inj h)
    exact matchAccountCodeBounded_eq_some.mp haccount
  split at h
  · rename_i hexec
    obtain ⟨rfl, rfl⟩ := Prod.mk.inj (Option.some.inj h)
    exact matchExecId_iff.mp hexec
  · obtain ⟨i, hperm, heq⟩ := Option.map_eq_some_iff.mp h
    obtain ⟨rfl, rfl⟩ := Prod.mk.inj heq
    exact matchPermId_iff.mp hperm

/-- Where nothing is found there is no shape. -/
theorem not_shape_of_matchAt {prev : Option UInt8} {bytes : Bytes} (h : matchAt prev bytes = none)
    (len : ℕ)
    (found : Found) : ¬found.Shape prev bytes len := by
  unfold matchAt at h
  split at h
  · cases h
  rename_i haccount
  split at h
  · cases h
  rename_i hexec
  have hperm := Option.map_eq_none_iff.mp h
  intro hshape
  cases found with
  | account kind => rw [Found.Shape, ← matchAccountCodeBounded_eq_some,
    haccount] at hshape; cases hshape
  | execId => rw [Found.Shape, ← matchExecId_iff, hexec] at hshape; cases hshape
  | permId => rw [Found.Shape, ← matchPermId_iff, hperm] at hshape; cases hshape

/-- A match is a text that fits, at the front. -/
theorem matchAt_eq_some {prev : Option UInt8} {bytes : Bytes} {len : ℕ} {found : Found}
    (h : matchAt prev bytes = some (len, found)) :
    ∃ text rest, bytes = text ++ rest ∧ text.length = len ∧ found.Fits text := by
  have hshape := shape_of_matchAt h
  cases found with
  | account kind =>
    obtain ⟨⟨hlen, digits, rest, rfl, hdigits, hall, -⟩, -⟩ := hshape
    refine ⟨kind.letters ++ digits, rest, (List.append_assoc ..).symm, ?_, digits, rfl, hdigits, hall⟩
    rw [hlen, List.length_append, hdigits]
  | execId =>
    obtain ⟨a, mid, tail, rest, rfl, rfl, ha, hm, ht, -⟩ := hshape
    refine ⟨a ++ 46 :: (mid ++ 46 :: tail), rest, by simp, by simp; omega, a, mid, tail, rfl, ?_⟩
    exact ⟨⟨ha.1, ha.2.2⟩, ⟨hm.1, hm.2.2⟩, ⟨ht.1, ht.2.2⟩⟩
  | permId =>
    obtain ⟨-, digits, rest, rfl, rfl, hmin, hmax, hall, -⟩ := hshape
    exact ⟨digits, rest, rfl, rfl, hmin, hmax, hall⟩

theorem matchAt_pos {prev : Option UInt8} {bytes : Bytes} {len : ℕ} {found : Found}
    (h : matchAt prev bytes = some (len, found)) : 0 < len := by
  obtain ⟨text, rest, -, rfl, hfits⟩ := matchAt_eq_some h
  exact hfits.pos

/-- A stop of the cursor: what is found there, and the bytes up to the next stop. -/
structure Piece where
  found : Option Found
  text : Bytes
  deriving DecidableEq

/-- The stops of the cursor, with the byte before it as `prev`. -/
def pieces (prev : Option UInt8) : Bytes → List Piece
  | [] => []
  | b :: rest =>
    match _h : matchAt prev (b :: rest) with
    | some (len, found) =>
      ⟨some found, (b :: rest).take len⟩ ::
        pieces ((b :: rest).take len).getLast? ((b :: rest).drop len)
    | none => ⟨none, [b]⟩ :: pieces (some b) rest
  termination_by bytes => bytes.length
  decreasing_by
    · have hpos := matchAt_pos _h
      simp only [List.length_drop, List.length_cons]
      omega
    · simp

@[simp] theorem pieces_nil (prev : Option UInt8) : pieces prev [] = [] := by rw [pieces]

theorem pieces_raw {prev : Option UInt8} {b : UInt8} {rest : Bytes}
    (h : matchAt prev (b :: rest) = none) :
    pieces prev (b :: rest) = ⟨none, [b]⟩ :: pieces (some b) rest := by
  rw [pieces]
  split
  · rename_i hsome
    rw [h] at hsome
    cases hsome
  · rfl

theorem pieces_hit {prev : Option UInt8} {text rest : Bytes} {found : Found}
    (h : matchAt prev (text ++ rest) = some (text.length, found)) :
    pieces prev (text ++ rest) = ⟨some found, text⟩ :: pieces text.getLast? rest := by
  have hpos := matchAt_pos h
  obtain ⟨b, text', rfl⟩ := List.exists_cons_of_length_pos hpos
  rw [List.cons_append] at h ⊢
  rw [pieces]
  split
  · rename_i len' found' hsome
    rw [h] at hsome
    obtain ⟨rfl, rfl⟩ := Prod.mk.inj (Option.some.inj hsome)
    rw [← List.cons_append, List.take_left, List.drop_left]
  · rename_i hnone
    rw [h] at hnone
    cases hnone

/-- Along the walk: at the end, over a byte that is copied, and over a found text. -/
@[elab_as_elim]
theorem pieces_induction {motive : Option UInt8 → Bytes → Prop} (nil : ∀ prev, motive prev [])
    (raw : ∀ prev b rest, matchAt prev (b :: rest) = none → motive (some b) rest →
      motive prev (b :: rest))
    (hit : ∀ prev text rest found, found.Fits text →
      matchAt prev (text ++ rest) = some (text.length, found) →
      motive text.getLast? rest → motive prev (text ++ rest)) (prev : Option UInt8) (bytes : Bytes) :
    motive prev bytes := by
  induction prev, bytes using pieces.induct with
  | case1 prev => exact nil prev
  | case2 prev b rest len found hmatch ih =>
    obtain ⟨text, rest', heq, rfl, hfits⟩ := matchAt_eq_some hmatch
    rw [heq, List.take_left, List.drop_left] at ih
    rw [heq] at hmatch ⊢
    exact hit prev text rest' found hfits hmatch ih
  | case3 prev b rest hmatch ih => exact raw prev b rest hmatch ih

theorem flatMap_text (prev : Option UInt8) (bytes : Bytes) :
    (pieces prev bytes).flatMap Piece.text = bytes := by
  induction prev, bytes using pieces_induction with
  | nil prev => simp
  | raw prev b rest hmatch ih => rw [pieces_raw hmatch, List.flatMap_cons, ih]; rfl
  | hit prev text rest found hfits hmatch ih => rw [pieces_hit hmatch, List.flatMap_cons, ih]

theorem fits_of_mem {prev : Option UInt8} {bytes : Bytes} {p : Piece} (hp : p ∈ pieces prev bytes)
    {found : Found}
    (h : p.found = some found) : found.Fits p.text := by
  induction prev, bytes using pieces_induction with
  | nil prev => simp at hp
  | raw prev b rest hmatch ih =>
    rw [pieces_raw hmatch] at hp
    rcases List.mem_cons.mp hp with rfl | hp
    · cases h
    · exact ih hp
  | hit prev text rest found' hfits hmatch ih =>
    rw [pieces_hit hmatch] at hp
    rcases List.mem_cons.mp hp with rfl | hp
    · obtain rfl := Option.some.inj h
      exact hfits
    · exact ih hp

/-! ### The synthetic texts -/

/-- `sha2::Sha256`, whatever it computes. -/
abbrev Sha256 := Bytes → Fin 32 → UInt8

/-- `RESERVED_SYNTHETIC_ACCOUNT_PREFIX` and its siblings: `DU0000`, `U0000`, `F0000`. -/
def AccountKind.reserved (kind : AccountKind) : Bytes := kind.letters ++ [48, 48, 48, 48]

/-- The character of a digit. -/
def digit (d : ℕ) : UInt8 := .ofNat (48 + d)

/-- One character of `{b:02x}`. -/
def hexDigit (d : ℕ) : UInt8 := if d < 10 then .ofNat (48 + d) else .ofNat (87 + d)

/-- `{b:02x}`. -/
def hexByte (b : UInt8) : Bytes := [hexDigit (b.toNat / 16), hexDigit (b.toNat % 16)]

def padOrTruncate (s : Bytes) (target : ℕ) : Bytes :=
  if s.length = target then s
  else if s.length > target then s.take target
  else s ++ List.replicate (target - s.length) 48

variable (sha256 : Sha256) (salt : Bytes)

/-- `|account|`. -/
def accountTag : Bytes := [124, 97, 99, 99, 111, 117, 110, 116, 124]

/-- `|perm_id|`. -/
def permTag : Bytes := [124, 112, 101, 114, 109, 95, 105, 100, 124]

/-- `|exec|`. -/
def execTag : Bytes := [124, 101, 120, 101, 99, 124]

/-- The code that `synth_account` makes. -/
def accountText (original : Bytes) (kind : AccountKind) : Bytes :=
  let digest := sha256 (salt ++ accountTag ++ original)
  let n := ((List.finRange 32).take 8).foldl (fun acc i => acc * 256 + (digest i).toNat) 0 % 1000
  kind.reserved ++ [digit (n / 100), digit (n / 10 % 10), digit (n % 10)]

/-- The id that `synth_perm_id` makes. -/
def permText (original : Bytes) : Bytes :=
  let digest := sha256 (salt ++ permTag ++ original)
  (List.range original.length).map fun i =>
    if i = 0 then digit ((digest 0).toNat % 9 + 1) else digit ((digest (Fin.ofNat 32 i)).toNat % 10)

/-- The id that `synth_exec_id` makes. -/
def execText (original : Bytes) : Bytes :=
  let digest := sha256 (salt ++ execTag ++ original)
  let hex (start len : ℕ) : Bytes :=
    (((List.finRange 32).drop start).take len).flatMap fun i => hexByte (digest i)
  match original.splitOn 46 with
  | [a, mid, tail] =>
    padOrTruncate (hex 0 8) a.length ++ [46] ++ padOrTruncate (hex 8 4) mid.length ++ [46] ++
      padOrTruncate (hex 12 1) tail.length
  | _ => padOrTruncate (hex 0 (original.length / 2 + 1)) original.length

/-! ### The anonymiser -/

/-- The maps go by the bytes of the texts. -/
structure AnonymizeConfig where
  salt : Bytes
  accountMap : Bytes → Option Bytes := fun _ => none
  execIdMap : Bytes → Option Bytes := fun _ => none

structure Anonymizer where
  config : AnonymizeConfig
  accountCache : Bytes → Option Bytes
  execIdCache : Bytes → Option Bytes
  permIdCache : Bytes → Option Bytes

namespace Anonymizer

def new (config : AnonymizeConfig) : Anonymizer := ⟨config, fun _ => none, fun _ => none, fun _ => none⟩

def synthAccount (a : Anonymizer) (original : Bytes) (kind : AccountKind) : Bytes × Anonymizer :=
  match a.config.accountMap original with
  | some fixed => (fixed, a)
  | none =>
    match a.accountCache original with
    | some c => (c, a)
    | none =>
      let synth := accountText sha256 a.config.salt original kind
      (synth, { a with accountCache := Function.update a.accountCache original (some synth) })

def synthPermId (a : Anonymizer) (original : Bytes) : Bytes × Anonymizer :=
  match a.permIdCache original with
  | some c => (c, a)
  | none =>
    let synth := permText sha256 a.config.salt original
    (synth, { a with permIdCache := Function.update a.permIdCache original (some synth) })

def synthExecId (a : Anonymizer) (original : Bytes) : Bytes × Anonymizer :=
  match a.config.execIdMap original with
  | some fixed => (fixed, a)
  | none =>
    match a.execIdCache original with
    | some c => (c, a)
    | none =>
      let synth := execText sha256 a.config.salt original
      (synth, { a with execIdCache := Function.update a.execIdCache original (some synth) })

/-- What is put for a piece. Codes that are synthetic already are copied. -/
def replace (a : Anonymizer) (p : Piece) : Bytes × Anonymizer :=
  match p.found with
  | some (.account kind) =>
    if kind.reserved <+: p.text then (p.text, a) else a.synthAccount sha256 p.text kind
  | some .execId => a.synthExecId sha256 p.text
  | some .permId => a.synthPermId sha256 p.text
  | none => (p.text, a)

/-- Put a piece at the end of what is out. -/
def push (s : Bytes × Anonymizer) (p : Piece) : Bytes × Anonymizer :=
  let (text, a) := s.2.replace sha256 p
  (s.1 ++ text, a)

def anonymizeBytes (a : Anonymizer) (input : Bytes) : Bytes × Anonymizer :=
  (pieces none input).foldl (push sha256) ([], a)

end Anonymizer

/-! ### Without maps and caches -/

/-- What is put for a piece if no map says otherwise. -/
def replacement (p : Piece) : Bytes :=
  match p.found with
  | some (.account kind) => if kind.reserved <+: p.text then p.text
    else accountText sha256 salt p.text kind
  | some .execId => execText sha256 salt p.text
  | some .permId => permText sha256 salt p.text
  | none => p.text

/-- The anonymised bytes after a byte `prev`. -/
def rewritten (prev : Option UInt8) (bytes : Bytes) : Bytes :=
  (pieces prev bytes).flatMap (replacement sha256 salt)

variable {sha256 salt}

theorem AccountKind.eq_of_letters {kind kind' : AccountKind} {text : Bytes} (h : kind.letters <+: text)
    (h' : kind'.letters <+: text) : kind = kind' := by
  rw [letters_prefix_iff] at h h'
  cases kind <;> cases kind' <;> first | rfl | simp_all

variable (sha256 salt)

/-- The caches hold what would be computed again. -/
structure Anonymizer.Sound (a : Anonymizer) : Prop where
  config : a.config = { salt }
  account : ∀ original c, a.accountCache original = some c →
    ∀ kind : AccountKind, kind.letters <+: original → c = accountText sha256 salt original kind
  execId : ∀ original c, a.execIdCache original = some c → c = execText sha256 salt original
  permId : ∀ original c, a.permIdCache original = some c → c = permText sha256 salt original

namespace Anonymizer

theorem sound_new : (new { salt }).Sound sha256 salt :=
  ⟨rfl, fun _ _ h => absurd h (by simp [new]), fun _ _ h => absurd h (by simp [new]),
    fun _ _ h => absurd h (by simp [new])⟩

variable {sha256 salt} {a : Anonymizer}

theorem Sound.synthAccount (h : a.Sound sha256 salt) {original : Bytes} {kind : AccountKind}
    (hkind : kind.letters <+: original) :
    (a.synthAccount sha256 original kind).1 = accountText sha256 salt original kind ∧
      (a.synthAccount sha256 original kind).2.Sound sha256 salt := by
  have hmap : a.config.accountMap original = none := by rw [h.config]
  have hsalt : a.config.salt = salt := by rw [h.config]
  unfold Anonymizer.synthAccount
  rw [hmap, hsalt]
  cases hcache : a.accountCache original with
  | some c => exact ⟨h.account original c hcache kind hkind, h⟩
  | none =>
    refine ⟨rfl, h.config, fun original' c hc kind' hkind' => ?_, h.execId, h.permId⟩
    by_cases heq : original' = original
    · subst heq
      obtain rfl := kind.eq_of_letters hkind hkind'
      simpa using hc.symm
    · exact h.account original' c (by simpa [heq] using hc) kind' hkind'

theorem Sound.synthPermId (h : a.Sound sha256 salt) (original : Bytes) :
    (a.synthPermId sha256 original).1 = permText sha256 salt original ∧
      (a.synthPermId sha256 original).2.Sound sha256 salt := by
  have hsalt : a.config.salt = salt := by rw [h.config]
  unfold Anonymizer.synthPermId
  rw [hsalt]
  cases hcache : a.permIdCache original with
  | some c => exact ⟨h.permId original c hcache, h⟩
  | none =>
    refine ⟨rfl, h.config, h.account, h.execId, fun original' c hc => ?_⟩
    by_cases heq : original' = original
    · subst heq
      simpa using hc.symm
    · exact h.permId original' c (by simpa [heq] using hc)

theorem Sound.synthExecId (h : a.Sound sha256 salt) (original : Bytes) :
    (a.synthExecId sha256 original).1 = execText sha256 salt original ∧
      (a.synthExecId sha256 original).2.Sound sha256 salt := by
  have hmap : a.config.execIdMap original = none := by rw [h.config]
  have hsalt : a.config.salt = salt := by rw [h.config]
  unfold Anonymizer.synthExecId
  rw [hmap, hsalt]
  cases hcache : a.execIdCache original with
  | some c => exact ⟨h.execId original c hcache, h⟩
  | none =>
    refine ⟨rfl, h.config, h.account, fun original' c hc => ?_, h.permId⟩
    by_cases heq : original' = original
    · subst heq
      simpa using hc.symm
    · exact h.execId original' c (by simpa [heq] using hc)

theorem Sound.replace (h : a.Sound sha256 salt) {p : Piece}
    (hp : ∀ found, p.found = some found → found.Fits p.text) :
    (a.replace sha256 p).1 = replacement sha256 salt p ∧ (a.replace sha256 p).2.Sound sha256 salt := by
  obtain ⟨found, text⟩ := p
  unfold Anonymizer.replace replacement
  rcases found with _ | kind | _ | _
  · exact ⟨rfl, h⟩
  · dsimp only
    split
    · exact ⟨rfl, h⟩
    · obtain ⟨digits, rfl, -⟩ := hp _ rfl
      exact h.synthAccount (List.prefix_append _ _)
  · exact h.synthExecId text
  · exact h.synthPermId text

theorem Sound.foldl_push {ps : List Piece}
    (hps : ∀ p ∈ ps, ∀ found, p.found = some found → found.Fits p.text)
    (h : a.Sound sha256 salt) (out : Bytes) :
    (ps.foldl (push sha256) (out, a)).1 = out ++ ps.flatMap (replacement sha256 salt) ∧
      (ps.foldl (push sha256) (out, a)).2.Sound sha256 salt := by
  induction ps generalizing out a with
  | nil => exact ⟨(List.append_nil out).symm, h⟩
  | cons p ps ih =>
    obtain ⟨htext, hsound⟩ := h.replace (hps p List.mem_cons_self)
    have hrest :=
      ih (fun q hq => hps q (List.mem_cons_of_mem p hq)) hsound (out ++ (a.replace sha256 p).1)
    rw [List.foldl_cons, List.flatMap_cons, ← List.append_assoc, ← htext]
    exact hrest

/-- What the anonymiser answers does not depend on what it has seen before. -/
theorem Sound.anonymizeBytes (h : a.Sound sha256 salt) (input : Bytes) :
    (a.anonymizeBytes sha256 input).1 = rewritten sha256 salt none input ∧
      (a.anonymizeBytes sha256 input).2.Sound sha256 salt :=
  h.foldl_push (fun _ hp _ hfound => fits_of_mem hp hfound) []

end Anonymizer

end Midas.Session
