import Mathlib.Data.List.Nodup
import Mathlib.Logic.Relation

/-! Folds over a list of keys. A pass of a program over its records is a left fold of a step that
    touches few records. When each step rewrites only the record under its own key and no key comes
    twice, the pass rewrites each listed record once and leaves the others alone, in whatever order
    the keys come (`foldl_own_of_mem`, `foldl_own_of_not_mem`). When each step marks some records,
    marking is idempotent, and who marks whom does not change on the way, a record ends marked
    exactly when some step marks it (`foldl_mark`). When all steps but one or two leave a value alone,
    these are the whole fold (`foldl_one`, `foldl_two`). -/

namespace Midas

variable {σ ι κ β : Type*}

/-- Picking from a list with distinct keys yields distinct keys, if a pick keeps the key. -/
theorem nodup_filterMap_key {α : Type*} {key : α → κ} {key' : β → κ} {pick : α → Option β}
    (hkey : ∀ a b, pick a = some b → key' b = key a) :
    ∀ {l : List α}, (l.map key).Nodup → ((l.filterMap pick).map key').Nodup
  | [], _ => List.nodup_nil
  | a :: l, h => by
    rw [List.map_cons, List.nodup_cons] at h
    have hrec := nodup_filterMap_key hkey h.2
    cases hp : pick a with
    | none => rwa [List.filterMap_cons_none hp]
    | some b =>
      rw [List.filterMap_cons_some hp, List.map_cons, List.nodup_cons]
      refine ⟨?_, hrec⟩
      rintro hmem
      obtain ⟨b', hb', hbk⟩ := List.mem_map.mp hmem
      obtain ⟨a', ha', hpa'⟩ := List.mem_filterMap.mp hb'
      refine h.1 (List.mem_map.mpr ⟨a', ha', ?_⟩)
      rw [← hkey a' b' hpa', hbk, hkey a b hp]

section Own

variable {f : σ → ι → σ} (get : σ → κ → β) (key : ι → κ) (ready : ι → β → Prop)
  {g : ι → β → β}

/-- A key that no step of the pass owns keeps its record. The pass needs each key to be `ready` when
    its turn comes, which it is when it was at the start, since only its own step rewrites it. -/
theorem foldl_own_of_not_mem
    (hne : ∀ s i k, ready i (get s (key i)) → k ≠ key i → get (f s i) k = get s k) {k : κ} :
    ∀ (is : List ι) (s : σ), (is.map key).Nodup → (∀ i ∈ is, ready i (get s (key i))) →
      k ∉ is.map key → get (is.foldl f s) k = get s k
  | [], _, _, _, _ => rfl
  | i :: is, s, hnd, hs, hk => by
    rw [List.map_cons, List.nodup_cons] at hnd
    rw [List.map_cons, List.mem_cons, not_or] at hk
    have hi := hs i List.mem_cons_self
    have hrest : ∀ j ∈ is, ready j (get (f s i) (key j)) := fun j hj => by
      have hij : key j ≠ key i := fun h => hnd.1 (h ▸ List.mem_map_of_mem hj)
      rw [hne s i _ hi hij]
      exact hs j (List.mem_cons_of_mem i hj)
    rw [List.foldl_cons, foldl_own_of_not_mem hne is (f s i) hnd.2 hrest hk.2, hne s i k hi hk.1]

/-- The record under a listed key is rewritten by its own step, once. -/
theorem foldl_own_of_mem
    (hself : ∀ s i, ready i (get s (key i)) → get (f s i) (key i) = g i (get s (key i)))
    (hne : ∀ s i k, ready i (get s (key i)) → k ≠ key i → get (f s i) k = get s k) {i : ι} :
    ∀ (is : List ι) (s : σ), (is.map key).Nodup → (∀ i ∈ is, ready i (get s (key i))) → i ∈ is →
      get (is.foldl f s) (key i) = g i (get s (key i))
  | j :: is, s, hnd, hs, hi => by
    rw [List.map_cons, List.nodup_cons] at hnd
    have hj := hs j List.mem_cons_self
    have hrest : ∀ i ∈ is, ready i (get (f s j) (key i)) := fun i hi => by
      have hij : key i ≠ key j := fun h => hnd.1 (h ▸ List.mem_map_of_mem hi)
      rw [hne s j _ hj hij]
      exact hs i (List.mem_cons_of_mem j hi)
    rw [List.foldl_cons]
    rcases List.mem_cons.mp hi with rfl | hi
    · rw [foldl_own_of_not_mem get key ready hne is (f s i) hnd.2 hrest hnd.1, hself s i hj]
    · have hij : key i ≠ key j := fun h => hnd.1 (h ▸ List.mem_map_of_mem hi)
      rw [foldl_own_of_mem hself hne is (f s j) hnd.2 hrest hi, hne s j _ hj hij]

end Own

section Mark

variable {f : σ → ι → σ} (get : σ → κ → β) {h : β → β} (marks : ι → κ → Prop)
  [∀ i k, Decidable (marks i k)] (Inv : σ → Prop)

/-- A record ends marked exactly when some step of the pass marks it. -/
theorem foldl_mark (hInv : ∀ s i, Inv s → Inv (f s i)) (hh : ∀ b, h (h b) = h b)
    (hf : ∀ s i k, Inv s → get (f s i) k = if marks i k then h (get s k) else get s k) {k : κ} :
    ∀ (is : List ι) (s : σ), Inv s →
      get (is.foldl f s) k = if ∃ i ∈ is, marks i k then h (get s k) else get s k
  | [], s, _ => by simp
  | i :: is, s, hs => by
    rw [List.foldl_cons, foldl_mark hInv hh hf is (f s i) (hInv s i hs), hf s i k hs]
    by_cases hi : marks i k <;> simp [hi, hh]

end Mark

/-! ### Folds in which few steps do anything -/

section Few

variable {f : β → ι → β} {a c : ι}

theorem foldl_inert : ∀ {l : List ι}, (∀ i ∈ l, ∀ b, f b i = b) → ∀ b, l.foldl f b = b
  | [], _, _ => rfl
  | i :: l, h, b => by
    rw [List.foldl_cons, h i List.mem_cons_self]
    exact foldl_inert (fun i hi => h i (List.mem_cons_of_mem _ hi)) b

theorem foldl_one [DecidableEq ι] : ∀ {l : List ι}, l.Nodup → (∀ i ∈ l, i ≠ a → ∀ b, f b i = b) →
    ∀ b, l.foldl f b = if a ∈ l then f b a else b
  | [], _, _, _ => rfl
  | i :: l, hnd, h, b => by
    obtain ⟨hi, hnd⟩ := List.nodup_cons.mp hnd
    have hl : ∀ i ∈ l, i ≠ a → ∀ b, f b i = b := fun i hi => h i (List.mem_cons_of_mem _ hi)
    by_cases ha : i = a
    · subst ha
      rw [List.foldl_cons, if_pos List.mem_cons_self]
      exact foldl_inert (fun j hj => hl j hj fun heq => hi (heq ▸ hj)) _
    · rw [List.foldl_cons, h i List.mem_cons_self ha, foldl_one hnd hl]
      simp [Ne.symm ha]

/-- Of two steps that do something, the one that may not come later comes first. -/
theorem foldl_two [DecidableEq ι] {r : ι → ι → Prop} (hr : ¬r c a) (hne : a ≠ c) :
    ∀ {l : List ι}, l.Nodup → l.Pairwise r → (∀ i ∈ l, i ≠ a → i ≠ c → ∀ b, f b i = b) →
      a ∈ l → c ∈ l → ∀ b, l.foldl f b = f (f b a) c
  | i :: l, hnd, hl, h, ha, hc, b => by
    obtain ⟨hnew, hnd'⟩ := List.nodup_cons.mp hnd
    obtain ⟨hfirst, hl'⟩ := List.pairwise_cons.mp hl
    have hrest : ∀ i ∈ l, i ≠ a → i ≠ c → ∀ b, f b i = b := fun i hi => h i (List.mem_cons_of_mem _ hi)
    rw [List.foldl_cons]
    by_cases hia : i = a
    · subst hia
      have hcl : c ∈ l := (List.mem_cons.mp hc).resolve_left (Ne.symm hne)
      have hothers : ∀ j ∈ l, j ≠ c → ∀ b, f b j = b := fun j hj =>
        hrest j hj fun heq => hnew (heq ▸ hj)
      rw [foldl_one hnd' hothers, if_pos hcl]
    · have hal : a ∈ l := (List.mem_cons.mp ha).resolve_left (Ne.symm hia)
      have hic : i ≠ c := fun heq => hr (heq ▸ hfirst a hal)
      have hcl : c ∈ l := (List.mem_cons.mp hc).resolve_left (Ne.symm hic)
      rw [h i List.mem_cons_self hia hic, foldl_two hr hne hnd' hl' hrest hal hcl]

end Few

/-- What single moves keep, paths of moves keep. -/
theorem inv_of_path {R : σ → σ → Prop} {I : σ → Prop}
    (hI : ∀ s s', R s s' → I s → I s') {s s' : σ} (h : Relation.ReflTransGen R s s')
    (hs : I s) : I s' := by
  induction h with
  | refl => exact hs
  | tail _ hmove ih => exact hI _ _ hmove ih

end Midas
