import Mathlib.Data.List.Nodup
import Mathlib.Data.List.Perm.Basic
import Mathlib.Data.List.Perm.Subperm

/-! Rearranging a list by naming the place of each item: every item is written into its place, and
    the places are read off in order. When the places are a permutation, nothing is lost and nothing
    is written twice. -/

namespace Midas

variable {α : Type*}

/-- Is this a permutation of `len` places? -/
def ValidPerm (perm : List ℕ) (len : ℕ) : Prop :=
  perm.length = len ∧ (∀ i ∈ perm, i < len) ∧ perm.Nodup

instance (perm : List ℕ) (len : ℕ) : Decidable (ValidPerm perm len) :=
  inferInstanceAs (Decidable (_ ∧ _ ∧ _))

/-- Write items into places. -/
def writeAt (slots : List (Option α)) (writes : List (α × ℕ)) : List (Option α) :=
  writes.foldl (fun slots w => slots.set w.2 (some w.1)) slots

/-- Put each item at the place the permutation names for it. -/
def placeAt (perm : List ℕ) (items : List α) : List α :=
  (writeAt (List.replicate items.length none) (items.zip perm)).filterMap id

/-- Writing into an empty place adds one item. -/
theorem perm_set {x : α} : ∀ {slots : List (Option α)} {i : ℕ}, slots[i]? = some none →
    ((slots.set i (some x)).filterMap id).Perm (x :: slots.filterMap id)
  | [], _, h => by simp at h
  | slot :: slots, 0, h => by
    obtain rfl : slot = none := by simpa using h
    simp
  | slot :: slots, i + 1, h => by
    have hrec : ((slots.set i (some x)).filterMap id).Perm (x :: slots.filterMap id) :=
      perm_set (by simpa using h)
    cases slot with
    | none => simpa using hrec
    | some y =>
      simp only [List.set_cons_succ, List.filterMap_cons, id]
      exact (hrec.cons y).trans (List.Perm.swap x y _)

/-- Writing into different empty places adds the items written. -/
theorem perm_writeAt : ∀ (writes : List (α × ℕ)) (slots : List (Option α)),
    (writes.map Prod.snd).Nodup → (∀ w ∈ writes, slots[w.2]? = some none) →
      ((writeAt slots writes).filterMap id).Perm (writes.map Prod.fst ++ slots.filterMap id)
  | [], slots, _, _ => by simp [writeAt]
  | w :: writes, slots, hnd, hempty => by
    rw [List.map_cons, List.nodup_cons] at hnd
    have hrest : ∀ w' ∈ writes, (slots.set w.2 (some w.1))[w'.2]? = some none := by
      intro w' hw'
      have hne : w.2 ≠ w'.2 := fun h => hnd.1 (h ▸ List.mem_map_of_mem hw')
      rw [List.getElem?_set_ne hne]
      exact hempty w' (List.mem_cons_of_mem w hw')
    have hrec := perm_writeAt writes (slots.set w.2 (some w.1)) hnd.2 hrest
    have hset := perm_set (x := w.1) (hempty w List.mem_cons_self)
    refine hrec.trans ((hset.append_left _).trans ?_)
    simp

/-- Placing by a permutation keeps every item. -/
theorem perm_placeAt {perm : List ℕ} {items : List α} (h : ValidPerm perm items.length) :
    (placeAt perm items).Perm items := by
  obtain ⟨hlen, hbound, hnd⟩ := h
  have hfst : (items.zip perm).map Prod.fst = items := List.map_fst_zip (by omega)
  have hsnd : (items.zip perm).map Prod.snd = perm := List.map_snd_zip (by omega)
  have hempty : ∀ w ∈ items.zip perm, (List.replicate items.length (none : Option α))[w.2]? =
      some none := by
    intro w hw
    have hw' : w.2 ∈ perm := by rw [← hsnd]; exact List.mem_map_of_mem hw
    rw [List.getElem?_replicate, if_pos (hbound w.2 hw')]
  have := perm_writeAt (items.zip perm) (List.replicate items.length none) (by rwa [hsnd]) hempty
  rw [hfst] at this
  refine this.trans ?_
  simp

/-- A place that nothing is written into keeps what it has. -/
theorem getElem?_writeAt_of_notMem : ∀ (writes : List (α × ℕ)) (slots : List (Option α)) {j : ℕ},
    j ∉ writes.map Prod.snd → (writeAt slots writes)[j]? = slots[j]?
  | [], _, _, _ => rfl
  | w :: writes, slots, j, hj => by
    rw [List.map_cons, List.mem_cons, not_or] at hj
    have hrec := getElem?_writeAt_of_notMem writes (slots.set w.2 (some w.1)) hj.2
    rw [List.getElem?_set_ne (Ne.symm hj.1)] at hrec
    exact hrec

/-- An item is found in the place that it was written into. -/
theorem getElem?_writeAt_of_mem : ∀ (writes : List (α × ℕ)) (slots : List (Option α)) {w : α × ℕ},
    (writes.map Prod.snd).Nodup → w ∈ writes → w.2 < slots.length →
      (writeAt slots writes)[w.2]? = some (some w.1)
  | w' :: writes, slots, w, hnd, hw, hlt => by
    rw [List.map_cons, List.nodup_cons] at hnd
    rcases List.mem_cons.mp hw with rfl | hw
    · have hrec := getElem?_writeAt_of_notMem writes (slots.set w.2 (some w.1)) hnd.1
      rw [List.getElem?_set_self hlt] at hrec
      exact hrec
    · exact getElem?_writeAt_of_mem writes (slots.set w'.2 (some w'.1)) hnd.2 hw (by simpa using hlt)

theorem length_writeAt (writes : List (α × ℕ)) (slots : List (Option α)) :
    (writeAt slots writes).length = slots.length := by
  induction writes generalizing slots with
  | nil => rfl
  | cons w writes ih => exact (ih _).trans (by simp)

/-- Full places are read off one by one. -/
theorem map_some_filterMap : ∀ {slots : List (Option α)}, none ∉ slots →
    (slots.filterMap id).map some = slots
  | [], _ => rfl
  | none :: slots, h => absurd List.mem_cons_self h
  | some x :: slots, h => by
    have hrest : none ∉ slots := fun hmem => h (List.mem_cons_of_mem _ hmem)
    exact congrArg (some x :: ·) (map_some_filterMap hrest)

/-- Each item is at the place that the permutation names for it. -/
theorem getElem?_placeAt {perm : List ℕ} {items : List α} (h : ValidPerm perm items.length) {i p : ℕ}
    (hp : perm[i]? = some p) : (placeAt perm items)[p]? = items[i]? := by
  obtain ⟨hlen, hbound, hnd⟩ := h
  have hsnd : (items.zip perm).map Prod.snd = perm := List.map_snd_zip (by omega)
  have hnd' : ((items.zip perm).map Prod.snd).Nodup := by rwa [hsnd]
  set slots := writeAt (List.replicate items.length none) (items.zip perm) with hslots
  have hwritten : ∀ w ∈ items.zip perm, slots[w.2]? = some (some w.1) := by
    intro w hw
    refine getElem?_writeAt_of_mem _ _ hnd' hw ?_
    rw [List.length_replicate]
    refine hbound w.2 ?_
    rw [← hsnd]
    exact List.mem_map_of_mem hw
  -- as many places as items, so that each place is named
  have hnamed : ∀ j < items.length, j ∈ perm := by
    intro j hj
    have hsub : perm ⊆ List.range items.length := fun k hk => List.mem_range.mpr (hbound k hk)
    have hperm := (List.subperm_of_subset hnd hsub).perm_of_length_le (by simp [hlen])
    exact hperm.symm.subset (List.mem_range.mpr hj)
  have hfull : none ∉ slots := by
    intro hnone
    obtain ⟨j, hj, hget⟩ := List.mem_iff_getElem.mp hnone
    have hjlen : j < items.length := by
      rw [hslots, length_writeAt, List.length_replicate] at hj
      exact hj
    obtain ⟨w, hw, rfl⟩ := List.mem_map.mp (hsnd ▸ hnamed j hjlen)
    have hsome := hwritten w hw
    rw [List.getElem?_eq_getElem hj, hget] at hsome
    cases hsome
  have hi : i < perm.length := (List.getElem?_eq_some_iff.mp hp).1
  have hi' : i < items.length := by omega
  have hw : (items[i], p) ∈ items.zip perm := by
    rw [List.mem_iff_getElem?]
    refine ⟨i, ?_⟩
    rw [List.getElem?_zip_eq_some]
    exact ⟨List.getElem?_eq_getElem _, hp⟩
  have hread := congrArg (·[p]?) (map_some_filterMap hfull)
  simp only [List.getElem?_map, hwritten _ hw] at hread
  obtain ⟨x, hx, hx'⟩ := Option.map_eq_some_iff.mp hread
  obtain rfl := Option.some.inj hx'
  have hitem : items[i]? = some items[i] := List.getElem?_eq_getElem hi'
  rw [hitem]
  exact hx

end Midas
