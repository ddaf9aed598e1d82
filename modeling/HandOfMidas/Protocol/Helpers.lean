import Mathlib.Data.List.TakeDrop
import HandOfMidas.Protocol.WireTypes

/-! The parts that several TWS messages share (`protocol/messages/helpers.rs`): contracts, tag-value
    lists, combo legs, delta-neutral contracts. Each has a parser and, from `incoming_encoder.rs`, a
    writer; the parser undoes the writer up to the fields that the part does not carry. -/

namespace Midas.Protocol

/-! ### Server versions that gate fields (`server_versions.rs`) -/

def INCLUDE_EXPIRED_IN_REQ_CONTRACT_DATA : ℤ := 31
def SSHORT_COMBO_LEGS : ℤ := 35
def CONTRACT_CONID : ℤ := 37
def SEC_ID_TYPE : ℤ := 45
def PLACE_ORDER_CONID : ℤ := 46
def SSHORTX_OLD : ℤ := 51
def TRADING_CLASS : ℤ := 68
def LINKING : ℤ := 70
def PRIMARYEXCH : ℤ := 75
def BOND_ISSUERID : ℤ := 176

/-! ### Lists -/

/-- The count in front of a list. -/
def readCount (what : String) : FieldReader ℕ := do
  let n ← readI32
  if n.toInt < 0 then throw (.field s!"negative {what}: {n.toInt}") else pure n.toInt.toNat

/-- `for _ in 0..n { out.push(item) }` after the count. -/
def readList {α : Type} (what : String) (item : FieldReader α) : FieldReader (List α) := do
  let n ← readCount what
  item.repeat n

/-- `len() as i32`, then the elements. -/
def writeList {α : Type} (item : α → FieldWriter) (as : List α) : FieldWriter := do
  writeI32 (.ofNat as.length)
  Writing.each item as

def parseTagValue : FieldReader TagValue := do
  let tag ← readString
  let value ← readString
  pure { tag, value }

def writeTagValue (tv : TagValue) : FieldWriter := do
  writeString tv.tag
  writeString tv.value

def parseTagValueList : FieldReader (List TagValue) := readList "tagvalue count" parseTagValue

def writeTagValueList (tvs : List TagValue) : FieldWriter := writeList writeTagValue tvs

/-- `split_terminator`, with the characters since the last separator: a separator ends an entry, and
    what is left at the end is an entry only if it is not empty. -/
def splitTerminator (sep : Char) (current : List Char) : List Char → List (List Char)
  | [] => if current = [] then [] else [current]
  | c :: cs =>
    if c = sep then current :: splitTerminator sep [] cs else splitTerminator sep (current ++ [c]) cs

/-- `split_once(sep).unwrap_or((entry, ""))`. -/
def splitOnce (sep : Char) (entry : List Char) : TagValue :=
  match entry.span (· ≠ sep) with
  | (tag, _ :: value) => ⟨.ofList tag, .ofList value⟩
  | (_, []) => ⟨.ofList entry, ""⟩

/-- The form `tag1=val1;tag2=val2;` in a single field. -/
def parseTagValueString : FieldReader (List TagValue) := do
  let raw ← readString
  if raw = "" then pure [] else
  pure (((splitTerminator ';' [] raw.toList).filter (· ≠ [])).map (splitOnce '='))

def writeTagValueString (tvs : List TagValue) : FieldWriter :=
  if tvs = [] then writeString ""
  else writeString (tvs.foldl (fun s tv => s ++ tv.tag ++ "=" ++ tv.value ++ ";") "")

/-- Neither `;` nor `=` in the tag or the value. -/
def TagValue.Plain (tv : TagValue) : Prop :=
  (';' ∉ tv.tag.toList ∧ '=' ∉ tv.tag.toList) ∧ ';' ∉ tv.value.toList ∧ '=' ∉ tv.value.toList

instance (tv : TagValue) : Decidable tv.Plain :=
  inferInstanceAs (Decidable ((_ ∧ _) ∧ _ ∧ _))

/-- The text of an entry without its terminator. -/
def TagValue.entry (tv : TagValue) : List Char := tv.tag.toList ++ '=' :: tv.value.toList

theorem splitTerminator_entry {sep : Char} (current rest : List Char) {entry : List Char}
    (h : sep ∉ entry) : splitTerminator sep current (entry ++ sep :: rest) =
      (current ++ entry) :: splitTerminator sep [] rest := by
  induction entry generalizing current with
  | nil => rw [List.nil_append, List.append_nil, splitTerminator, if_pos rfl]
  | cons c entry ih =>
    rw [List.mem_cons, not_or] at h
    rw [List.cons_append, splitTerminator, if_neg (Ne.symm h.1), ih _ h.2, List.append_assoc]
    rfl

theorem splitOnce_entry {tv : TagValue} (h : '=' ∉ tv.tag.toList) : splitOnce '=' tv.entry = tv := by
  have htag : ∀ c ∈ tv.tag.toList, decide (c ≠ '=') = true := by
    intro c hc
    exact decide_eq_true fun heq => h (heq ▸ hc)
  have hspan : tv.entry.span (· ≠ '=') = (tv.tag.toList, '=' :: tv.value.toList) := by
    rw [List.span_eq_takeWhile_dropWhile, TagValue.entry, List.takeWhile_append_of_pos htag,
      List.dropWhile_append_of_pos htag]
    simp
  rw [splitOnce, hspan]
  show TagValue.mk (.ofList tv.tag.toList) (.ofList tv.value.toList) = tv
  rw [String.ofList_toList, String.ofList_toList]

/-- The single-field form is its entries, each ended by `;`. -/
theorem toList_tagValueString (s : String) (tvs : List TagValue) :
    (tvs.foldl (fun s tv => s ++ tv.tag ++ "=" ++ tv.value ++ ";") s).toList =
      s.toList ++ tvs.flatMap fun tv => tv.entry ++ [';'] := by
  induction tvs generalizing s with
  | nil => rw [List.foldl_nil, List.flatMap_nil, List.append_nil]
  | cons tv tvs ih =>
    rw [List.foldl_cons, ih, List.flatMap_cons, TagValue.entry]
    simp

/-- Splitting the single-field form gives the pairs back. -/
theorem split_tagValueString {tvs : List TagValue} (h : ∀ tv ∈ tvs, tv.Plain) :
    ((splitTerminator ';' [] (tvs.flatMap fun tv => tv.entry ++ [';'])).filter (· ≠ [])).map
      (splitOnce '=') = tvs := by
  induction tvs with
  | nil => rfl
  | cons tv tvs ih =>
    have hplain := h tv List.mem_cons_self
    have hentry : ';' ∉ tv.entry := by
      intro hmem
      rcases List.mem_append.mp hmem with htag | hvalue
      · exact hplain.1.1 htag
      · rcases List.mem_cons.mp hvalue with heq | hvalue
        · exact absurd heq (by decide)
        · exact hplain.2.1 hvalue
    have hne : tv.entry ≠ [] := by simp [TagValue.entry]
    rw [List.flatMap_cons, List.append_assoc, List.singleton_append, splitTerminator_entry [] _ hentry,
      List.nil_append, List.filter_cons_of_pos (by simpa using hne), List.map_cons,
      splitOnce_entry hplain.1.2, ih fun tv' htv' => h tv' (List.mem_cons_of_mem tv htv')]

end Midas.Protocol

namespace Midas.Undoes

open Midas.Protocol

/-- A length that fits an `i32` is read back from the count. -/
theorem count (what : String) {n : ℕ} (hn : n < 2 ^ 31) :
    Undoes (readCount what) (writeI32 (.ofNat n)) n := by
  have hint : (Int32.ofNat n).toInt = (n : ℤ) := Int32.toInt_ofNat_of_lt hn
  refine (i32 (.ofNat n)).last ?_
  rw [hint, if_neg (by omega)]
  rfl

theorem list {α β : Type} {what : String} {r : FieldReader α} {w : β → FieldWriter} {f : β → α}
    {bs : List β} (hlen : bs.length < 2 ^ 31) (h : ∀ b ∈ bs, Undoes r (w b) (f b)) :
    Undoes (readList what r) (writeList w bs) (bs.map f) := (count what hlen).bind (each h)

theorem tagValue (tv : TagValue) : Undoes parseTagValue (writeTagValue tv) tv :=
  .bind (.str _) <| .map (.str _)

theorem tagValueList {tvs : List TagValue} (hlen : tvs.length < 2 ^ 31) :
    Undoes parseTagValueList (writeTagValueList tvs) tvs := by
  have hlist : Undoes parseTagValueList (writeTagValueList tvs) (tvs.map fun tv => tv) :=
    list hlen fun tv _ => tagValue tv
  rw [List.map_id'] at hlist
  exact hlist

theorem tagValueString {tvs : List TagValue} (h : ∀ tv ∈ tvs, tv.Plain) :
    Undoes parseTagValueString (writeTagValueString tvs) tvs := by
  unfold writeTagValueString
  by_cases hnil : tvs = []
  · rw [if_pos hnil, hnil]
    exact (str "").last rfl
  · rw [if_neg hnil]
    refine (str _).last ?_
    have htext := toList_tagValueString "" tvs
    have hne : tvs.foldl (fun s tv => s ++ tv.tag ++ "=" ++ tv.value ++ ";") "" ≠ "" := by
      intro hempty
      rw [hempty] at htext
      cases tvs with
      | nil => exact hnil rfl
      | cons tv tvs => simp at htext
    rw [if_neg hne, htext, String.toList_empty, List.nil_append, split_tagValueString h]

end Midas.Undoes

/-! ### Lists that are too long -/

namespace Midas

open Midas.Protocol

/-- A length that overflows the `i32` count is read as a negative one. -/
theorem Stops.list {α β : Type} (what : String) {r : FieldReader α} {w : β → FieldWriter}
    {bs : List β} {P : Bytes → Prop} (hneg : (Int32.ofNat bs.length).toInt < 0)
    (hall : ∀ b ∈ bs, (w b).All P) :
    Stops (readList what r) (writeList w bs)
      (.field s!"negative {what}: {(Int32.ofNat bs.length).toInt}") :=
  ((Undoes.i32 _).refused (if_pos hneg)).bind (Writing.All.each hall)

namespace Writing.All

/-- A written string has no NUL if the string has none. -/
theorem str {s : String} (h : 0 ∉ utf8 s) : (writeString s).All (0 ∉ ·) :=
  ⟨[utf8 s], fun _ => rfl, fun t ht => by rw [List.mem_singleton.mp ht]; exact h⟩

theorem since {P : Bytes → Prop} {w w' : FieldWriter} (v : ServerVersion) {gate : ℤ}
    (hgate : gate ≤ MIN_VERSION) (h : w.All P) : Writing.All P (Protocol.since v gate w w') := by
  rw [since_eq v hgate]
  exact h

end Writing.All

end Midas
