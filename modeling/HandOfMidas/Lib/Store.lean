import Mathlib.Algebra.BigOperators.Group.List.Basic
import Mathlib.Data.List.Nodup
import Mathlib.Data.List.Perm.Basic

/-! A finite store of values that carry their own key. That no two values share a key is a field
    of the structure, so a store with two records under one key cannot be built, and every lookup
    returns a value that really has the key asked for. Iteration is over `items`, whose order
    means nothing: whoever iterates says which order it takes. -/

namespace Midas

/-- Values of type `α`, indexed by `key`, no two under the same key. -/
structure Store {α κ : Type*} (key : α → κ) where
  items : List α
  nodup : (items.map key).Nodup

namespace Store

variable {α κ : Type*} {key : α → κ}

def empty : Store key := ⟨[], List.nodup_nil⟩

instance : Inhabited (Store key) := ⟨empty⟩

@[simp] theorem items_empty : (empty : Store key).items = [] := rfl

/-- Iterating the values in any order meets each key once. -/
theorem nodup_keys_of_perm {s : Store key} {l : List α} (h : l.Perm s.items) :
    (l.map key).Nodup :=
  ((h.map key).nodup_iff).mpr s.nodup

variable [DecidableEq κ]

/-- The value under key `k`. -/
def get? (s : Store key) (k : κ) : Option α := s.items.find? (fun a => decide (key a = k))

/-- Insert `a` under its own key, replacing what was there. -/
def put (s : Store key) (a : α) : Store key where
  items := a :: s.items.filter (fun b => decide (key b ≠ key a))
  nodup := by
    rw [List.map_cons, List.nodup_cons]
    refine ⟨?_, s.nodup.sublist (List.filter_sublist.map key)⟩
    rintro h
    obtain ⟨b, hb, hk⟩ := List.mem_map.mp h
    simp [hk] at hb

/-- Take the value under key `k` out. -/
def erase (s : Store key) (k : κ) : Store key where
  items := s.items.filter (fun b => decide (key b ≠ k))
  nodup := s.nodup.sublist (List.filter_sublist.map key)

/-- Keep the values that a predicate holds of. -/
def retain (s : Store key) (p : α → Bool) : Store key where
  items := s.items.filter p
  nodup := s.nodup.sublist (List.filter_sublist.map key)

@[simp] theorem get?_empty (k : κ) : (empty : Store key).get? k = none := rfl

theorem mem_of_get? {s : Store key} {k : κ} {a : α} (h : s.get? k = some a) : a ∈ s.items :=
  List.mem_of_find?_eq_some h

/-- What a lookup returns carries the key it was asked for. -/
theorem key_of_get? {s : Store key} {k : κ} {a : α} (h : s.get? k = some a) : key a = k := by
  simpa using List.find?_some h

theorem get?_of_mem {s : Store key} {a : α} (h : a ∈ s.items) : s.get? (key a) = some a := by
  cases hf : s.get? (key a) with
  | none =>
    have := List.find?_eq_none.mp hf a h
    simp at this
  | some b =>
    have hb : key b = key a := key_of_get? hf
    rw [List.inj_on_of_nodup_map s.nodup (mem_of_get? hf) h hb]

theorem mem_put {s : Store key} {a b : α} :
    b ∈ (s.put a).items ↔ b = a ∨ b ∈ s.items ∧ key b ≠ key a := by
  simp [put]

@[simp] theorem get?_put_self (s : Store key) (a : α) : (s.put a).get? (key a) = some a :=
  get?_of_mem (mem_put.mpr (Or.inl rfl))

theorem get?_put_of_ne (s : Store key) {a : α} {k : κ} (h : k ≠ key a) :
    (s.put a).get? k = s.get? k := by
  have hne : decide (key a = k) = false := by simpa using Ne.symm h
  rw [get?, put, List.find?_cons_of_neg (by simp [hne]), List.find?_filter, get?]
  congr 1
  funext b
  by_cases hb : key b = k
  · simp [hb, h]
  · simp [hb]

/-- A lookup after an insertion. -/
theorem get?_put (s : Store key) (a : α) (k : κ) :
    (s.put a).get? k = if k = key a then some a else s.get? k := by
  split
  · rename_i h; rw [h, get?_put_self]
  · rename_i h; exact get?_put_of_ne s h

/-- The values other than the one under a key. -/
def others (s : Store key) (k : κ) : List α := s.items.filter fun b => decide (key b ≠ k)

@[simp] theorem items_put (s : Store key) (a : α) : (s.put a).items = a :: s.others (key a) := rfl

theorem perm_of_get? {s : Store key} {k : κ} {a : α} (h : s.get? k = some a) :
    s.items.Perm (a :: s.others k) := by
  have hone : s.items.filter (fun b => decide (key b = k)) = [a] := by
    refine List.perm_singleton.mp ((List.perm_ext_iff_of_nodup ?_ (List.nodup_singleton a)).mpr ?_)
    · exact (List.Nodup.of_map key s.nodup).filter _
    · intro b
      rw [List.mem_filter, List.mem_singleton, decide_eq_true_eq]
      constructor
      · rintro ⟨hb, rfl⟩
        rw [get?_of_mem hb] at h
        exact Option.some.inj h
      · rintro rfl
        exact ⟨mem_of_get? h, key_of_get? h⟩
  have hsplit := (List.filter_append_perm (fun b => decide (key b = k)) s.items).symm
  rw [hone] at hsplit
  simpa [others] using hsplit

theorem others_of_get? {s : Store key} {k : κ} (h : s.get? k = none) : s.others k = s.items :=
  List.filter_eq_self.mpr fun a ha => by simpa using List.find?_eq_none.mp h a ha

theorem mem_erase {s : Store key} {k : κ} {b : α} :
    b ∈ (s.erase k).items ↔ b ∈ s.items ∧ key b ≠ k := by
  simp [erase]

/-- A lookup after a removal. -/
theorem get?_erase (s : Store key) (k k' : κ) :
    (s.erase k).get? k' = if k' = k then none else s.get? k' := by
  rw [get?, erase, List.find?_filter]
  split
  · rename_i h
    simp [h]
  · rename_i h
    rw [get?]
    congr 1
    funext b
    by_cases hb : key b = k'
    · simp [hb, h]
    · simp [hb]

/-- A lookup where some values are kept. -/
theorem get?_retain (s : Store key) (p : α → Bool) (k : κ) :
    (s.retain p).get? k = (s.get? k).filter p := by
  cases hk : s.get? k with
  | none =>
    rw [get?, retain, Option.filter_none, List.find?_eq_none]
    exact fun a ha => List.find?_eq_none.mp hk a (List.mem_filter.mp ha).1
  | some a =>
    rw [Option.filter_some]
    split
    · rename_i hp
      have hmem : a ∈ (s.retain p).items := List.mem_filter.mpr ⟨mem_of_get? hk, hp⟩
      rw [← key_of_get? hk, get?_of_mem hmem]
    · rename_i hp
      rw [get?, retain, List.find?_eq_none]
      intro b hb
      obtain ⟨hb, hpb⟩ := List.mem_filter.mp hb
      simp only [decide_eq_true_eq]
      rintro rfl
      rw [get?_of_mem hb] at hk
      exact hp (Option.some.inj hk ▸ hpb)

/-- Values put in one after another leave what is under other keys. -/
theorem get?_foldl_put_of_not_mem (l : List α) (s : Store key) {k : κ} (h : k ∉ l.map key) :
    (l.foldl put s).get? k = s.get? k := by
  induction l generalizing s with
  | nil => rfl
  | cons a l ih =>
    rw [List.map_cons, List.mem_cons, not_or] at h
    rw [List.foldl_cons, ih (s.put a) h.2, get?_put, if_neg h.1]

/-- A value put in is found when no other one is put in under its key. -/
theorem get?_foldl_put_of_unique {l : List α} (s : Store key) {a : α} (h : a ∈ l)
    (hone : ∀ b ∈ l, key b = key a → b = a) : (l.foldl put s).get? (key a) = some a := by
  induction l generalizing s with
  | nil => cases h
  | cons b l ih =>
    rw [List.foldl_cons]
    have hrest : ∀ c ∈ l, key c = key a → c = a := fun c hc => hone c (List.mem_cons_of_mem b hc)
    by_cases hal : a ∈ l
    · exact ih (s.put b) hal hrest
    · obtain rfl : a = b := (List.mem_cons.mp h).resolve_right hal
      have hnot : key a ∉ l.map key := by
        intro hmem
        obtain ⟨c, hc, hkey⟩ := List.mem_map.mp hmem
        exact hal (hrest c hc hkey ▸ hc)
      rw [get?_foldl_put_of_not_mem l _ hnot, get?_put_self]

/-- Values put in under different keys are all found. -/
theorem get?_foldl_put_of_mem {l : List α} (s : Store key) (hnodup : (l.map key).Nodup) {a : α}
    (h : a ∈ l) : (l.foldl put s).get? (key a) = some a :=
  get?_foldl_put_of_unique s h fun _ hb hkey => List.inj_on_of_nodup_map hnodup hb h hkey

/-- Replacing a value changes what is found under its key. -/
theorem get?_put_map {s : Store key} {a b : α} (h : s.get? (key a) = some b) (k : κ) :
    (s.put a).get? k = (s.get? k).map fun c => if key c = key a then a else c := by
  rw [get?_put]
  cases hk : s.get? k with
  | none =>
    have hne : k ≠ key a := by rintro rfl; rw [h] at hk; cases hk
    simp [hne]
  | some c =>
    rw [Option.map_some, key_of_get? hk]
    split <;> rfl

/-- What a walk over the values picks is what a lookup picks, when a pick keeps the key. -/
theorem mem_filterMap_iff {β : Type*} {s : Store key} {l : List α} (h : l.Perm s.items)
    {pick : α → Option β} (key' : β → κ) (hkey : ∀ a b, pick a = some b → key' b = key a) {b : β} :
    b ∈ l.filterMap pick ↔ (s.get? (key' b)).bind pick = some b := by
  rw [List.mem_filterMap, Option.bind_eq_some_iff]
  constructor
  · rintro ⟨a, ha, hb⟩
    exact ⟨a, by rw [hkey a b hb]; exact get?_of_mem (h.mem_iff.mp ha), hb⟩
  · rintro ⟨a, ha, hb⟩
    exact ⟨a, h.mem_iff.mpr (mem_of_get? ha), hb⟩

/-- A value put in takes the place of the one under its key, in sums too. -/
theorem sum_put {M : Type*} [AddCommGroup M] (s : Store key) (a : α) (f : α → M) :
    ((s.put a).items.map f).sum = (s.items.map f).sum - (s.get? (key a)).elim 0 f + f a := by
  have hsplit (l : List α) (h : (l.map key).Nodup) :
      ((l.filter fun b => decide (key b ≠ key a)).map f).sum =
        (l.map f).sum - (l.find? fun b => decide (key b = key a)).elim 0 f := by
    induction l with
    | nil => simp
    | cons b l ih =>
      rw [List.map_cons, List.nodup_cons] at h
      by_cases hb : key b = key a
      · have hrest : l.filter (fun c => decide (key c ≠ key a)) = l := by
          refine List.filter_eq_self.mpr fun c hc => ?_
          have hne : key c ≠ key a := fun heq => h.1 (hb ▸ heq ▸ List.mem_map_of_mem hc)
          simpa using hne
        rw [List.filter_cons_of_neg (by simp [hb]), hrest, List.find?_cons_of_pos (by simp [hb])]
        simp
      · rw [List.filter_cons_of_pos (by simp [hb]), List.find?_cons_of_neg (by simp [hb]), List.map_cons,
          List.sum_cons, ih h.2, List.map_cons, List.sum_cons, add_sub_assoc]
  rw [put, List.map_cons, List.sum_cons, hsplit s.items s.nodup, get?, add_comm]

/-- Two values found under one key are the same. -/
theorem eq_of_mem_of_key_eq {s : Store key} {a b : α} (ha : a ∈ s.items) (hb : b ∈ s.items)
    (h : key a = key b) : a = b := by
  have h1 := get?_of_mem ha
  rw [h, get?_of_mem hb] at h1
  exact (Option.some.inj h1).symm

end Store

end Midas
