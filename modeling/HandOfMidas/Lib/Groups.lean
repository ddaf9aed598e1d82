import Mathlib.Algebra.BigOperators.Group.List.Basic
import Mathlib.Data.List.Forall2
import Mathlib.Data.List.Pairwise
import Mathlib.Algebra.GroupWithZero.Nat

/-! A list cut into consecutive non-empty groups, and what an aggregate of each group keeps of the whole
    list. -/

namespace Midas.Groups

variable {α β γ : Type}

/-- `groups` are the elements of `l`, in their order, none of the groups empty. -/
structure Cut (l : List α) (groups : List (List α)) : Prop where
  flatten : groups.flatten = l
  nonempty : ∀ g ∈ groups, g ≠ []

theorem cut_nil : Cut ([] : List α) [] := ⟨rfl, by simp⟩

theorem Cut.cons {g l : List α} {groups : List (List α)} (hg : g ≠ []) (h : Cut l groups) :
    Cut (g ++ l) (g :: groups) := by
  refine ⟨by simp [h.flatten], ?_⟩
  intro g' hg'
  rcases List.mem_cons.mp hg' with rfl | hg'
  · exact hg
  · exact h.nonempty g' hg'

/-- Each element for itself. -/
theorem cut_singletons (l : List α) : Cut l (l.map fun x => [x]) := by
  induction l with
  | nil => exact cut_nil
  | cons x l ih => exact Cut.cons (g := [x]) (by simp) ih

theorem cut_whole {l : List α} (h : l ≠ []) : Cut l [l] := by
  simpa using Cut.cons h cut_nil

/-- A column of the aggregates that holds the first value of each group is a part of the column of the
    elements. -/
theorem Cut.sublist {f : α → γ} {f' : β → γ} {l : List α} {groups : List (List α)} {out : List β}
    (hcut : Cut l groups)
    (hout : List.Forall₂ (fun g b => g.head?.map f = some (f' b)) groups out) :
    (out.map f').Sublist (l.map f) := by
  obtain ⟨rfl, -⟩ := hcut
  induction hout with
  | nil => simp
  | @cons g b groups out hgb _ ih =>
    rcases g with _ | ⟨x, g⟩
    · simp at hgb
    simp only [List.head?_cons, Option.map_some, Option.some.injEq] at hgb
    simp only [List.map_cons, List.flatten_cons, List.cons_append, ← hgb, List.map_append]
    exact (List.Sublist.append (List.nil_sublist _) ih).cons_cons _

theorem Cut.head? {f : α → γ} {f' : β → γ} {l : List α} {groups : List (List α)} {out : List β}
    (hcut : Cut l groups)
    (hout : List.Forall₂ (fun g b => g.head?.map f = some (f' b)) groups out) :
    out.head?.map f' = l.head?.map f := by
  obtain ⟨rfl, -⟩ := hcut
  cases hout with
  | nil => rfl
  | @cons g b groups out hgb _ =>
    rcases g with _ | ⟨x, g⟩
    · simp at hgb
    simpa using hgb.symm

theorem Cut.getLast? {f : α → γ} {f' : β → γ} {l : List α} {groups : List (List α)} {out : List β}
    (hcut : Cut l groups)
    (hout : List.Forall₂ (fun g b => g.getLast?.map f = some (f' b)) groups out) :
    out.getLast?.map f' = l.getLast?.map f := by
  obtain ⟨rfl, -⟩ := hcut
  induction hout with
  | nil => rfl
  | @cons g b groups out hgb hrest ih =>
    cases hrest with
    | nil => simpa using hgb.symm
    | @cons g' b' groups out hgb' _ =>
      have hne : g' ≠ [] := by
        rintro rfl
        simp at hgb'
      have hlast : (g' :: groups).flatten ≠ [] := by simp [hne]
      rw [List.getLast?_cons_cons, ih, List.flatten_cons (l := g)]
      rw [List.getLast?_append_of_ne_nil g hlast]

/-- Each element is in a group that has an aggregate. -/
theorem Cut.exists_of_mem {R : List α → β → Prop} {l : List α} {groups : List (List α)} {out : List β}
    (hcut : Cut l groups) (hout : List.Forall₂ R groups out) {x : α} (hx : x ∈ l) :
    ∃ g b, x ∈ g ∧ b ∈ out ∧ R g b := by
  obtain ⟨rfl, -⟩ := hcut
  induction hout with
  | nil => simp at hx
  | @cons g b groups out hgb _ ih =>
    rcases List.mem_append.mp hx with hx | hx
    · exact ⟨g, b, hx, List.mem_cons_self, hgb⟩
    · obtain ⟨g', b', hx', hb', hgb'⟩ := ih hx
      exact ⟨g', b', hx', List.mem_cons_of_mem b hb', hgb'⟩

/-- Each aggregate is that of a group of elements. -/
theorem Cut.exists_of_mem_out {R : List α → β → Prop} {l : List α} {groups : List (List α)}
    {out : List β} (hcut : Cut l groups) (hout : List.Forall₂ R groups out) {b : β} (hb : b ∈ out) :
    ∃ g, g ⊆ l ∧ R g b := by
  obtain ⟨rfl, -⟩ := hcut
  induction hout with
  | nil => simp at hb
  | @cons g b' groups out hgb _ ih =>
    rcases List.mem_cons.mp hb with rfl | hb
    · exact ⟨g, List.subset_append_left g _, hgb⟩
    · obtain ⟨g', hsub, hgb'⟩ := ih hb
      exact ⟨g', List.Subset.trans hsub (List.subset_append_right g _), hgb'⟩

theorem Cut.sum {f : α → ℕ} {f' : β → ℕ} {l : List α} {groups : List (List α)} {out : List β}
    (hcut : Cut l groups)
    (hout : List.Forall₂ (fun g b => (g.map f).sum = f' b) groups out) :
    (out.map f').sum = (l.map f).sum := by
  obtain ⟨rfl, -⟩ := hcut
  induction hout with
  | nil => rfl
  | cons hgb _ ih => simp [← hgb, ih]

end Midas.Groups
