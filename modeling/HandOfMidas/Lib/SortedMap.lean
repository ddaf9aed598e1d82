import Mathlib.Data.List.Nodup
import Mathlib.Data.List.Sort
import Mathlib.Order.Defs.LinearOrder

/-! A map as the list of its entries in the order of their keys. -/

namespace Midas

/-- A finite map with its keys in strict order. -/
structure SortedMap (κ ν : Type*) [LT κ] where
  entries : List (κ × ν)
  sorted : (entries.map Prod.fst).Pairwise (· < ·)

namespace SortedMap

variable {κ ν : Type*}

@[ext] theorem ext [LT κ] {m m' : SortedMap κ ν} (h : m.entries = m'.entries) : m = m' := by
  cases m
  cases m'
  cases h
  rfl

def empty [LT κ] : SortedMap κ ν := ⟨[], .nil⟩

def values [LT κ] (m : SortedMap κ ν) : List ν := m.entries.map Prod.snd

/-- The map with its values, in the order of their keys, put through `f`. -/
def withValues [LT κ] (m : SortedMap κ ν) (f : List ν → List ν)
    (hf : ∀ l, (f l).length = l.length) : SortedMap κ ν where
  entries := (m.entries.map Prod.fst).zip (f m.values)
  sorted := by
    rw [List.map_fst_zip (by simp [hf, values])]
    exact m.sorted

@[simp] theorem values_withValues [LT κ] (m : SortedMap κ ν) {f : List ν → List ν}
    (hf : ∀ l, (f l).length = l.length) : (m.withValues f hf).values = f m.values := by
  simp only [values, withValues]
  rw [List.map_snd_zip]
  simp [hf]

/-- Putting the values through the identity changes nothing. -/
theorem withValues_of_eq [LT κ] (m : SortedMap κ ν) {f : List ν → List ν}
    (hf : ∀ l, (f l).length = l.length) (h : f m.values = m.values) : m.withValues f hf = m := by
  refine SortedMap.ext ?_
  have hzip : (m.withValues f hf).entries = (m.entries.map Prod.fst).zip (f m.values) := rfl
  rw [hzip, h]
  exact (List.zip_of_prod rfl rfl).symm

section
variable [LinearOrder κ]

def get? (m : SortedMap κ ν) (k : κ) : Option ν := (m.entries.find? (·.1 = k)).map Prod.snd

/-- The map with `v` at `k`. -/
def insert (m : SortedMap κ ν) (k : κ) (v : ν) : SortedMap κ ν where
  entries := m.entries.filter (·.1 < k) ++ (k, v) :: m.entries.filter (k < ·.1)
  sorted := by
    have hkeys := List.pairwise_map.mp m.sorted
    rw [List.pairwise_map, List.pairwise_append, List.pairwise_cons]
    refine ⟨hkeys.filter _, ⟨fun b hb => ?_, hkeys.filter _⟩, fun a ha b hb => ?_⟩
    · simpa using (List.mem_filter.mp hb).2
    · have hak : a.1 < k := by simpa using (List.mem_filter.mp ha).2
      rcases List.mem_cons.mp hb with rfl | hb
      · exact hak
      · have hkb : k < b.1 := by simpa using (List.mem_filter.mp hb).2
        exact hak.trans hkb

@[simp] theorem get?_insert (m : SortedMap κ ν) (k : κ) (v : ν) : (m.insert k v).get? k = some v := by
  have hbelow : (m.entries.filter (·.1 < k)).find? (·.1 = k) = none := by
    rw [List.find?_eq_none]
    intro a ha
    have hak : a.1 < k := by simpa using (List.mem_filter.mp ha).2
    simpa using hak.ne
  rw [get?, insert, List.find?_append, hbelow]
  simp

/-- A key has one entry. -/
theorem eq_of_fst_eq {m : SortedMap κ ν} {a b : κ × ν} (ha : a ∈ m.entries) (hb : b ∈ m.entries)
    (h : a.1 = b.1) : a = b := by
  have hnodup : (m.entries.map Prod.fst).Nodup := m.sorted.imp fun hlt => hlt.ne
  exact List.inj_on_of_nodup_map hnodup ha hb h

theorem get?_eq_some_iff {m : SortedMap κ ν} {k : κ} {v : ν} :
    m.get? k = some v ↔ (k, v) ∈ m.entries := by
  rw [get?]
  constructor
  · intro h
    obtain ⟨e, he, rfl⟩ := Option.map_eq_some_iff.mp h
    have hk : e.1 = k := by simpa using List.find?_some he
    subst hk
    exact List.mem_of_find?_eq_some he
  · intro h
    cases hfind : m.entries.find? (·.1 = k) with
    | none => exact absurd (decide_eq_true rfl) (List.find?_eq_none.mp hfind (k, v) h)
    | some e =>
      have hk : e.1 = k := by simpa using List.find?_some hfind
      rw [eq_of_fst_eq (List.mem_of_find?_eq_some hfind) h hk]
      rfl

theorem mem_entries_insert {m : SortedMap κ ν} {k k' : κ} {v v' : ν} :
    (k', v') ∈ (m.insert k v).entries ↔ k' = k ∧ v' = v ∨ k' ≠ k ∧ (k', v') ∈ m.entries := by
  simp only [insert, List.mem_append, List.mem_cons, List.mem_filter, decide_eq_true_eq, Prod.mk.injEq]
  rcases lt_trichotomy k' k with h | rfl | h
  · simp [h, h.ne, h.not_gt]
  · simp
  · simp [h, h.ne', h.not_gt]

theorem get?_insert_of_ne (m : SortedMap κ ν) {k k' : κ} (h : k' ≠ k) (v : ν) :
    (m.insert k v).get? k' = m.get? k' := by
  refine Option.ext fun v' => ?_
  rw [get?_eq_some_iff, get?_eq_some_iff, mem_entries_insert]
  simp [h]

/-- An entry after all others is put at the end. -/
theorem entries_insert_of_lt {m : SortedMap κ ν} {k : κ} (h : ∀ e ∈ m.entries, e.1 < k) (v : ν) :
    (m.insert k v).entries = m.entries ++ [(k, v)] := by
  have hbelow : m.entries.filter (·.1 < k) = m.entries :=
    List.filter_eq_self.mpr fun e he => by simpa using h e he
  have habove : m.entries.filter (k < ·.1) = [] :=
    List.filter_eq_nil_iff.mpr fun e he => by simpa using (h e he).le
  have hentries : (m.insert k v).entries =
      m.entries.filter (·.1 < k) ++ (k, v) :: m.entries.filter (k < ·.1) := rfl
  rw [hentries, hbelow, habove]

/-- What is read off the values of a map at a key is read off the values put through `f`, if `f`
    keeps it. -/
theorem map_get?_withValues {β : Type*} (m : SortedMap κ ν) {f : List ν → List ν}
    (hf : ∀ l, (f l).length = l.length) {g g' : ν → β} (h : (f m.values).map g = m.values.map g')
    (k : κ) : ((m.withValues f hf).get? k).map g = (m.get? k).map g' := by
  have hread {vs : List ν} (g : ν → β) (ks : List κ) :
      (((ks.zip vs).find? (·.1 = k)).map Prod.snd).map g =
        ((ks.zip (vs.map g)).find? (·.1 = k)).map Prod.snd := by
    rw [List.zip_map_right, List.find?_map]
    simp only [Option.map_map]
    rfl
  have hentries : m.entries = (m.entries.map Prod.fst).zip m.values :=
    List.zip_of_prod rfl rfl
  rw [get?, withValues, hread, h, ← hread, ← hentries, get?]

end

end SortedMap

end Midas
