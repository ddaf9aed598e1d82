import Mathlib.Algebra.BigOperators.Group.List.Basic
import Mathlib.Data.List.Induction
import Mathlib.Algebra.Order.Group.Nat
import Mathlib.Algebra.GroupWithZero.Nat

/-! A row of entries whose last one is overwritten by the next entry of the same key. -/

namespace Midas.Overwrite

variable {α κ : Type*}

section Put

variable [DecidableEq κ] (key : α → κ)

def put (l : List α) (a : α) : List α :=
  if l.getLast?.map key = some (key a) then l.dropLast ++ [a] else l ++ [a]

def putAll (l as : List α) : List α := as.foldl (put key) l

theorem put_same (l : List α) {x a : α} (h : key x = key a) : put key (l ++ [x]) a = l ++ [a] := by
  simp [put, h]

theorem put_other (l : List α) {x a : α} (h : key x ≠ key a) :
    put key (l ++ [x]) a = l ++ [x] ++ [a] := by
  simp [put, h]

variable {key}

/-- Of two entries of one key only the second one stays. -/
theorem put_put (l : List α) {a b : α} (h : key a = key b) : put key (put key l a) b = put key l b := by
  rcases List.eq_nil_or_concat' l with rfl | ⟨init, x, rfl⟩
  · simp [put, h]
  · by_cases hx : key x = key a
    · rw [put_same key init hx, put_same key init h, put_same key init (hx.trans h)]
    · rw [put_other key init hx, put_same key _ h, put_other key init (h ▸ hx)]

theorem putAll_concat (l as : List α) (a : α) :
    putAll key l (as ++ [a]) = put key (putAll key l as) a := by
  simp [putAll]

/-- The last entry is there. -/
theorem getLast?_put (l : List α) (a : α) : (put key l a).getLast? = some a := by
  unfold put
  split <;> simp

theorem getLast?_putAll (as : List α) : (putAll key [] as).getLast? = as.getLast? := by
  induction as using List.reverseRecOn with
  | nil => rfl
  | append_singleton as a ih => rw [putAll_concat, getLast?_put, List.getLast?_concat]

/-- Entries of other keys stay. -/
theorem mem_put_of_ne (l : List α) {a r : α} (h : key r ≠ key a) : r ∈ put key l a ↔ r ∈ l := by
  have hra : r ≠ a := fun heq => h (congrArg key heq)
  rcases List.eq_nil_or_concat' l with rfl | ⟨init, x, rfl⟩
  · simp [put, hra]
  · by_cases hx : key x = key a
    · have hrx : r ≠ x := fun heq => h (heq ▸ hx)
      rw [put_same key init hx]
      simp [hra, hrx]
    · rw [put_other key init hx]
      simp [hra]

/-- The next entry overwrites the last one, or it does not. -/
theorem putAll_cases (key : α → κ) (as : List α) (a : α) :
    as = [] ∧ putAll key [] (as ++ [a]) = [a] ∨
      ∃ init x, putAll key [] as = init ++ [x] ∧ x ∈ as ∧
        (key x = key a ∧ putAll key [] (as ++ [a]) = init ++ [a] ∨
          key x ≠ key a ∧ putAll key [] (as ++ [a]) = init ++ [x] ++ [a]) := by
  have hlast : (putAll key [] as).getLast? = as.getLast? := getLast?_putAll as
  rw [putAll_concat]
  rcases List.eq_nil_or_concat' (putAll key [] as) with hl | ⟨init, x, hl⟩
  · rw [hl] at hlast ⊢
    exact Or.inl ⟨List.getLast?_eq_none_iff.mp hlast.symm, rfl⟩
  · rw [hl, List.getLast?_concat] at hlast
    rw [hl]
    refine Or.inr ⟨init, x, rfl, List.mem_of_getLast? hlast.symm, ?_⟩
    by_cases hx : key x = key a
    · exact Or.inl ⟨hx, put_same key init hx⟩
    · exact Or.inr ⟨hx, put_other key init hx⟩

end Put

section Ordered

variable [LinearOrder κ] {key : α → κ}

/-- Entries in order leave keys in strict order. -/
theorem pairwise_putAll {as : List α} (h : as.Pairwise fun a b => key a ≤ key b) :
    (putAll key [] as).Pairwise fun a b => key a < key b := by
  induction as using List.reverseRecOn with
  | nil => exact .nil
  | append_singleton as a ih =>
    obtain ⟨has, -, hle⟩ := List.pairwise_append.mp h
    have ih := ih has
    rcases putAll_cases key as a with ⟨-, hput⟩ | ⟨init, x, hl, hx, ⟨hsame, hput⟩ | ⟨hother, hput⟩⟩
    · rw [hput]
      exact List.pairwise_singleton _ a
    · rw [hl] at ih
      obtain ⟨hinit, -, hlt⟩ := List.pairwise_append.mp ih
      rw [hput, List.pairwise_append]
      refine ⟨hinit, List.pairwise_singleton _ a, fun b hb c hc => ?_⟩
      rw [List.mem_singleton.mp hc, ← hsame]
      exact hlt b hb x (List.mem_singleton.mpr rfl)
    · rw [hl] at ih
      have hxa := lt_of_le_of_ne (hle x hx a (List.mem_singleton.mpr rfl)) hother
      rw [hput, List.pairwise_append]
      refine ⟨ih, List.pairwise_singleton _ a, fun b hb c hc => ?_⟩
      rw [List.mem_singleton.mp hc]
      obtain ⟨-, -, hlt⟩ := List.pairwise_append.mp ih
      rcases List.mem_append.mp hb with hb | hb
      · exact (hlt b hb x (List.mem_singleton.mpr rfl)).trans hxa
      · rw [List.mem_singleton.mp hb]
        exact hxa

/-- What stays is the last entry of each key. -/
theorem mem_putAll_iff {as : List α} (h : as.Pairwise fun a b => key a ≤ key b) (r : α) :
    r ∈ putAll key [] as ↔ (as.filter fun a => key a = key r).getLast? = some r := by
  induction as using List.reverseRecOn with
  | nil => simp [putAll]
  | append_singleton as a ih =>
    have hstrict := pairwise_putAll h
    have hend : (putAll key [] (as ++ [a])).getLast? = some a := by
      rw [getLast?_putAll, List.getLast?_concat]
    obtain ⟨init, hinit⟩ := List.getLast?_eq_some_iff.mp hend
    have ih := ih (List.pairwise_append.mp h).1
    rw [List.filter_append]
    by_cases ha : key a = key r
    · -- no other entry that stays has the key of the last one
      have hlast : [a].filter (fun a => key a = key r) = [a] := by simp [ha]
      rw [hinit] at hstrict ⊢
      rw [hlast, List.getLast?_concat, Option.some.injEq, List.mem_append, List.mem_singleton]
      refine ⟨?_, fun hr => Or.inr hr.symm⟩
      rintro (hr | rfl)
      · exact absurd ha ((List.pairwise_append.mp hstrict).2.2 r hr a (List.mem_singleton.mpr rfl)).ne'
      · rfl
    · have hlast : [a].filter (fun a => key a = key r) = [] := by simp [ha]
      rw [hlast, List.append_nil, ← ih, putAll_concat]
      exact mem_put_of_ne _ fun heq => ha heq.symm

/-- Every key stays. -/
theorem mem_map_putAll {as : List α} (h : as.Pairwise fun a b => key a ≤ key b) (k : κ) :
    k ∈ (putAll key [] as).map key ↔ k ∈ as.map key := by
  constructor
  · intro hk
    obtain ⟨r, hr, rfl⟩ := List.mem_map.mp hk
    have hr := List.mem_of_getLast? ((mem_putAll_iff h r).mp hr)
    exact List.mem_map_of_mem (List.mem_of_mem_filter hr)
  · intro hk
    obtain ⟨a, ha, rfl⟩ := List.mem_map.mp hk
    have hmem : a ∈ as.filter fun b => key b = key a := List.mem_filter.mpr ⟨ha, by simp⟩
    obtain ⟨r, hr⟩ := List.getLast?_isSome.mpr (List.ne_nil_of_mem hmem) |> Option.isSome_iff_exists.mp
    have hkey : key r = key a := by simpa using List.of_mem_filter (List.mem_of_getLast? hr)
    refine hkey ▸ List.mem_map_of_mem ((mem_putAll_iff h r).mpr ?_)
    rw [hkey]
    exact hr

/-- Entries in strict order all stay. -/
theorem putAll_of_pairwise {as : List α} (h : as.Pairwise fun a b => key a < key b) :
    putAll key [] as = as := by
  induction as using List.reverseRecOn with
  | nil => rfl
  | append_singleton as a ih =>
    obtain ⟨has, -, hlt⟩ := List.pairwise_append.mp h
    have ih := ih has
    rcases putAll_cases key as a with ⟨rfl, hput⟩ | ⟨init, x, hl, hx, ⟨hsame, -⟩ | ⟨-, hput⟩⟩
    · exact hput
    · exact absurd hsame (hlt x hx a (List.mem_singleton.mpr rfl)).ne
    · rw [hput, ← hl, ih]

/-- What is overwritten is missing from the sum. -/
theorem sum_putAll_lt {as : List α} {f : α → ℕ} (h : as.Pairwise fun a b => key a ≤ key b)
    (hpos : ∀ a ∈ as, 0 < f a) (hnot : ¬ as.Pairwise fun a b => key a < key b) :
    ((putAll key [] as).map f).sum < (as.map f).sum := by
  induction as using List.reverseRecOn with
  | nil => exact absurd .nil hnot
  | append_singleton as a ih =>
    obtain ⟨has, -, hle⟩ := List.pairwise_append.mp h
    have ih := ih has fun b hb => hpos b (List.mem_append_left _ hb)
    -- nothing is lost as long as all keys were in strict order
    have hsum : ((putAll key [] as).map f).sum ≤ (as.map f).sum := by
      by_cases hlt : as.Pairwise fun a b => key a < key b
      · rw [putAll_of_pairwise hlt]
      · exact (ih hlt).le
    rcases putAll_cases key as a with ⟨rfl, hput⟩ | ⟨init, x, hl, hx, ⟨-, hput⟩ | ⟨hother, hput⟩⟩
    · exact absurd (List.pairwise_singleton _ a) hnot
    · have hfx := hpos x (List.mem_append_left _ hx)
      rw [hl] at hsum
      rw [hput]
      simp only [List.map_append, List.map_cons, List.map_nil, List.sum_append, List.sum_cons,
        List.sum_nil] at hsum ⊢
      omega
    · have hlost : ¬ as.Pairwise fun a b => key a < key b := by
        intro hlt
        have hstrict := pairwise_putAll h
        rw [hput, ← hl, putAll_of_pairwise hlt] at hstrict
        exact hnot hstrict
      have hlt := ih hlost
      rw [hput, ← hl]
      simp only [List.map_append, List.map_cons, List.map_nil, List.sum_append, List.sum_cons,
        List.sum_nil]
      omega

end Ordered

end Midas.Overwrite
