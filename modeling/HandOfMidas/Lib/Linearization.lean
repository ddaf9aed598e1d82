import Mathlib.Data.List.Infix
import Mathlib.Data.List.Nodup

/-! Linearizability. Callers see a shared object through their calls: when one is made and what it
    returns. An order of the operations explains such a history when every result is the one that its
    operation has at its place in the order, and no call that returned before another was made comes
    after it. The rules at the end say what keeps an order an explanation: a call is made, an operation
    that is under way takes effect last, a call returns. -/

namespace Midas

/-- What a caller sees. -/
inductive CallEvent (ω ρ : Type*) where
  | called (i : ℕ) (op : ω)
  | returned (i : ℕ) (result : ρ)

/-- An object that does one operation at a time: the state after an operation, the results it may have,
    and the results that say it was turned away. -/
structure Sequential (σ ω ρ : Type*) where
  next : ω → σ → σ
  answers : ω → σ → ρ → Prop
  refused : ρ → Prop

variable {σ ω ρ α : Type*}

theorem called_of_concat {h : List (CallEvent ω ρ)} {i j : ℕ} {op : ω} {result : ρ}
    (hmem : .called i op ∈ h ++ [.returned j result]) : .called i op ∈ h := by
  rcases List.mem_append.mp hmem with hmem | hmem
  · exact hmem
  · cases List.mem_singleton.mp hmem

theorem returned_of_concat {h : List (CallEvent ω ρ)} {i j : ℕ} {op : ω} {result : ρ}
    (hmem : .returned i result ∈ h ++ [.called j op]) : .returned i result ∈ h := by
  rcases List.mem_append.mp hmem with hmem | hmem
  · exact hmem
  · cases List.mem_singleton.mp hmem

/-- Call `i` returned before call `j` was made. -/
def Precedes (h : List (CallEvent ω ρ)) (i j : ℕ) : Prop :=
  ∃ result op, [.returned i result, .called j op].Sublist h

/-! ### Pairs in order -/

theorem pair_sublist_concat {a b c : α} {l : List α} :
    [a, b].Sublist (l ++ [c]) ↔ [a, b].Sublist l ∨ a ∈ l ∧ b = c := by
  constructor
  · intro h
    obtain ⟨l₁, l₂, heq, h₁, h₂⟩ := List.sublist_append_iff.mp h
    rcases l₁ with _ | ⟨x, _ | ⟨y, l₁⟩⟩
    · rw [List.nil_append] at heq
      have hlength := (heq ▸ h₂).length_le
      simp at hlength
    · obtain ⟨rfl, rfl⟩ := List.cons_eq_cons.mp heq
      exact Or.inr ⟨List.singleton_sublist.mp h₁, List.mem_singleton.mp (List.singleton_sublist.mp h₂)⟩
    · simp only [List.cons_append, List.cons.injEq, List.nil_eq, List.append_eq_nil_iff] at heq
      obtain ⟨rfl, rfl, rfl, rfl⟩ := heq
      exact Or.inl h₁
  · rintro (h | ⟨ha, rfl⟩)
    · exact h.trans (List.sublist_append_left l [c])
    · exact (List.singleton_sublist.mpr ha).append (List.Sublist.refl [b])

/-- What stands before `b` in a list without repetition stands in the part that ends with `b`. -/
theorem mem_of_pair_sublist {a b : α} {l r : List α} (hl : (l ++ b :: r).Nodup)
    (h : [a, b].Sublist (l ++ b :: r)) : a ∈ l := by
  obtain ⟨-, hb, hdisjoint⟩ := List.nodup_append.mp hl
  obtain ⟨l₁, l₂, heq, h₁, h₂⟩ := List.sublist_append_iff.mp h
  rcases l₁ with _ | ⟨x, l₁⟩
  · rw [List.nil_append] at heq
    rw [← heq] at h₂
    have hbr : b ∈ r := by
      rcases List.cons_sublist_cons'.mp h₂ with h₂ | ⟨-, h₂⟩
      · exact h₂.subset (by simp)
      · exact List.singleton_sublist.mp h₂
    exact absurd hbr (List.nodup_cons.mp hb).1
  · obtain ⟨rfl, -⟩ := List.cons_eq_cons.mp heq
    exact h₁.subset List.mem_cons_self

namespace Precedes

variable {h : List (CallEvent ω ρ)} {i j : ℕ}

theorem returned (hp : Precedes h i j) : ∃ result, .returned i result ∈ h := by
  obtain ⟨result, op, hsub⟩ := hp
  exact ⟨result, hsub.subset List.mem_cons_self⟩

theorem concat_called {k : ℕ} {op : ω} (hp : Precedes (h ++ [.called k op]) i j) :
    Precedes h i j ∨ j = k := by
  obtain ⟨result, op', hsub⟩ := hp
  rcases pair_sublist_concat.mp hsub with hsub | ⟨-, heq⟩
  · exact Or.inl ⟨result, op', hsub⟩
  · cases heq
    exact Or.inr rfl

theorem concat_returned {k : ℕ} {result : ρ} (hp : Precedes (h ++ [.returned k result]) i j) :
    Precedes h i j := by
  obtain ⟨result', op, hsub⟩ := hp
  rcases pair_sublist_concat.mp hsub with hsub | ⟨-, heq⟩
  · exact ⟨result', op, hsub⟩
  · cases heq

end Precedes

namespace Sequential

variable (S : Sequential σ ω ρ)

/-- The state after the operations in this order. -/
def after (s : σ) (order : List (ℕ × ω)) : σ := order.foldl (fun s o => S.next o.2 s) s

theorem after_concat (s : σ) (order : List (ℕ × ω)) (o : ℕ × ω) :
    S.after s (order ++ [o]) = S.next o.2 (S.after s order) := by
  simp [after]

/-- The order explains the history of an object that starts in `s`. -/
structure Linearizes (s : σ) (h : List (CallEvent ω ρ)) (order : List (ℕ × ω)) : Prop where
  once : (order.map Prod.fst).Nodup
  called : ∀ o ∈ order, .called o.1 o.2 ∈ h
  inTime : ∀ o ∈ order, ∀ o' ∈ order, Precedes h o.1 o'.1 → [o, o'].Sublist order
  explained : ∀ i result, .returned i result ∈ h →
    (S.refused result ∧ i ∉ order.map Prod.fst) ∨
      ∃ before op, before ++ [(i, op)] <+: order ∧ S.answers op (S.after s before) result

theorem linearizes_nil (s : σ) : S.Linearizes s [] [] where
  once := List.nodup_nil
  called _ ho := absurd ho List.not_mem_nil
  inTime _ ho := absurd ho List.not_mem_nil
  explained _ _ hr := absurd hr List.not_mem_nil

namespace Linearizes

variable {S} {s : σ} {h : List (CallEvent ω ρ)} {order : List (ℕ × ω)} {i : ℕ}

/-- A call is made. -/
theorem call (H : S.Linearizes s h order) (op : ω) (hi : i ∉ order.map Prod.fst) :
    S.Linearizes s (h ++ [.called i op]) order where
  once := H.once
  called o ho := List.mem_append_left _ (H.called o ho)
  inTime o ho o' ho' hp := by
    rcases hp.concat_called with hp | heq
    · exact H.inTime o ho o' ho' hp
    · exact absurd (heq ▸ List.mem_map_of_mem ho') hi
  explained j result hr := H.explained j result (returned_of_concat hr)

/-- The operation of a call that has not returned takes effect. -/
theorem take (H : S.Linearizes s h order) {op : ω} (hcalled : .called i op ∈ h)
    (hreturned : ∀ result, .returned i result ∉ h) (hi : i ∉ order.map Prod.fst) :
    S.Linearizes s h (order ++ [(i, op)]) where
  once := by
    rw [List.map_append, List.map_singleton, ← List.concat_eq_append]
    exact List.Nodup.concat hi H.once
  called o ho := by
    rcases List.mem_append.mp ho with ho | ho
    · exact H.called o ho
    · cases List.mem_singleton.mp ho
      exact hcalled
  inTime o ho o' ho' hp := by
    have hold : o ∈ order := by
      rcases List.mem_append.mp ho with ho | ho
      · exact ho
      · cases List.mem_singleton.mp ho
        obtain ⟨result, hr⟩ := hp.returned
        exact absurd hr (hreturned result)
    rcases List.mem_append.mp ho' with ho' | ho'
    · exact (H.inTime o hold o' ho' hp).trans (List.sublist_append_left _ _)
    · exact pair_sublist_concat.mpr (Or.inr ⟨hold, List.mem_singleton.mp ho'⟩)
  explained j result hr := by
    rcases H.explained j result hr with ⟨hrefused, hj⟩ | ⟨before, op', hbefore, hanswer⟩
    · refine Or.inl ⟨hrefused, fun hmem => ?_⟩
      rw [List.map_append, List.mem_append] at hmem
      rcases hmem with hmem | hmem
      · exact hj hmem
      · obtain rfl : j = i := by simpa using hmem
        exact hreturned result hr
    · exact Or.inr ⟨before, op', hbefore.trans (List.prefix_append _ _), hanswer⟩

/-- A call returns what its operation gives at its place in the order, or that it was turned away. -/
theorem ret (H : S.Linearizes s h order) {result : ρ}
    (hresult : (S.refused result ∧ i ∉ order.map Prod.fst) ∨
      ∃ before op, before ++ [(i, op)] <+: order ∧ S.answers op (S.after s before) result) :
    S.Linearizes s (h ++ [.returned i result]) order where
  once := H.once
  called o ho := List.mem_append_left _ (H.called o ho)
  inTime o ho o' ho' hp := H.inTime o ho o' ho' hp.concat_returned
  explained j result' hr := by
    rcases List.mem_append.mp hr with hr | hr
    · exact H.explained j result' hr
    · cases List.mem_singleton.mp hr
      exact hresult

/-- An object that allows more results is explained by the same order. -/
theorem mono {S' : Sequential σ ω ρ} (H : S.Linearizes s h order) (hnext : S'.next = S.next)
    (hrefused : ∀ r, S.refused r → S'.refused r)
    (hanswers : ∀ op s r, S.answers op s r → S'.answers op s r) : S'.Linearizes s h order where
  once := H.once
  called := H.called
  inTime := H.inTime
  explained j result hr := by
    have hafter : S'.after = S.after := by
      unfold after
      rw [hnext]
    rcases H.explained j result hr with ⟨hr, hj⟩ | ⟨before, op, hbefore, hanswer⟩
    · exact Or.inl ⟨hrefused result hr, hj⟩
    · exact Or.inr ⟨before, op, hbefore, hafter ▸ hanswers op _ result hanswer⟩

/-- An operation is done on a state that has the effect of every operation whose call had returned when
    its own was made. -/
theorem mem_before (H : S.Linearizes s h order) {o : ℕ × ω} {before : List (ℕ × ω)}
    (hi : i ∈ order.map Prod.fst) (hbefore : before ++ [o] <+: order) (hp : Precedes h i o.1) :
    i ∈ before.map Prod.fst := by
  obtain ⟨o', ho', rfl⟩ := List.mem_map.mp hi
  obtain ⟨rest, rfl⟩ := hbefore
  rw [List.append_assoc, List.singleton_append] at H ho'
  exact List.mem_map_of_mem (mem_of_pair_sublist (List.Nodup.of_map Prod.fst H.once)
    (H.inTime o' ho' o (by simp) hp))

/-- A call has one place in the order. -/
theorem place_unique (H : S.Linearizes s h order) {o o' : ℕ × ω} {before before' : List (ℕ × ω)}
    (hbefore : before ++ [o] <+: order) (hbefore' : before' ++ [o'] <+: order) (hid : o.1 = o'.1) :
    before = before' ∧ o = o' := by
  have hnot {l l' : List (ℕ × ω)} {p p' : ℕ × ω} (hp : l ++ [p] <+: order) (hp' : l' ++ [p'] <+: order)
      (heq : p.1 = p'.1) : ¬l ++ [p] <+: l' := by
    intro hpre
    have hnodup := ((hp'.map Prod.fst).sublist.nodup H.once)
    rw [List.map_append, List.map_singleton, ← List.concat_eq_append, List.nodup_concat] at hnodup
    exact hnodup.1 (heq ▸ List.mem_map_of_mem (hpre.subset (by simp)))
  rcases List.prefix_or_prefix_of_prefix hbefore hbefore' with hpre | hpre
  · rcases List.prefix_concat_iff.mp hpre with heq | hpre
    · exact List.append_singleton_inj.mp heq
    · exact absurd hpre (hnot hbefore hbefore' hid)
  · rcases List.prefix_concat_iff.mp hpre with heq | hpre
    · obtain ⟨hl, hr⟩ := List.append_singleton_inj.mp heq
      exact ⟨hl.symm, hr.symm⟩
    · exact absurd hpre (hnot hbefore' hbefore hid.symm)

/-- What comes before an operation was called before that had returned. -/
theorem not_precedes (H : S.Linearizes s h order) {o o' : ℕ × ω} {before : List (ℕ × ω)}
    (hbefore : before ++ [o] <+: order) (ho' : o' ∈ before) : ¬Precedes h o.1 o'.1 := by
  intro hp
  obtain ⟨l, r, rfl⟩ := List.append_of_mem ho'
  have hl : l ++ [o'] <+: order :=
    List.IsPrefix.trans ⟨r ++ [o], by simp⟩ hbefore
  have hmem := H.mem_before (List.mem_map_of_mem (hbefore.subset (by simp))) hl hp
  obtain ⟨p, hpl, hid⟩ := List.mem_map.mp hmem
  obtain ⟨l₁, l₂, rfl⟩ := List.append_of_mem hpl
  have hplace : l₁ ++ [p] <+: order := List.IsPrefix.trans ⟨l₂ ++ [o'], by simp⟩ hl
  have hlength := congrArg List.length (H.place_unique hplace hbefore hid).1
  simp at hlength

/-- What is done between two operations is no call of the first, did not return before the first was
    called, and was not called after the second had returned. -/
theorem between (H : S.Linearizes s h order) {first rest : List (ℕ × ω)} {o p q : ℕ × ω}
    (hplace : first ++ o :: rest ++ [q] <+: order) (hp : p ∈ rest) :
    p.1 ≠ o.1 ∧ ¬Precedes h p.1 o.1 ∧ ¬Precedes h q.1 p.1 := by
  obtain ⟨l₁, l₂, rfl⟩ := List.append_of_mem hp
  have hp' : first ++ o :: l₁ ++ [p] <+: order :=
    List.IsPrefix.trans ⟨l₂ ++ [q], by simp⟩ hplace
  have ho : first ++ [o] <+: order := List.IsPrefix.trans ⟨l₁ ++ [p], by simp⟩ hp'
  refine ⟨fun hid => ?_, H.not_precedes hp' (by simp), H.not_precedes hplace (by simp)⟩
  have hlength := congrArg List.length (H.place_unique hp' ho hid).1
  simp at hlength

end Linearizes

end Sequential

end Midas
