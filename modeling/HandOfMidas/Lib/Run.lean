import Mathlib.Data.List.Induction
import Mathlib.Data.List.Infix
import Mathlib.Data.List.Chain

/-! Runs of a deterministic machine: `step` takes a state and an operation to the next state, and
    a run is a list of operations. A property of runs is either one of every state reached
    (`AllStates`) or one of every step taken (`AllSteps`, which sees the state before the step).
    The two induction rules that every safety theorem uses stand here once: an invariant that each
    step keeps holds throughout, and a property that each step keeps exactly when the step meets a
    condition holds throughout exactly when every step meets it. Histories of a value that
    changes by steps of a relation stand at the end: `Traces R a l b` says that `l` is what was recorded
    on the way from `a` to `b`, each record one step after the one before. -/

namespace Midas

variable {σ ι : Type*} (step : σ → ι → σ)

/-- The state after the operations `ops`. -/
def run (s : σ) (ops : List ι) : σ := ops.foldl step s

/-- `Q` holds of every state the run reaches, the first one included. -/
def AllStates (Q : σ → Prop) (s : σ) (ops : List ι) : Prop :=
  ∀ pre, pre <+: ops → Q (run step s pre)

/-- `P` holds of every operation of the run and the state it is applied to. -/
def AllSteps (P : σ → ι → Prop) (s : σ) (ops : List ι) : Prop :=
  ∀ pre op, pre ++ [op] <+: ops → P (run step s pre) op

@[simp] theorem run_nil (s : σ) : run step s [] = s := rfl

@[simp] theorem run_cons (s : σ) (op : ι) (ops : List ι) :
    run step s (op :: ops) = run step (step s op) ops := rfl

theorem run_concat (s : σ) (ops : List ι) (op : ι) :
    run step s (ops ++ [op]) = step (run step s ops) op := by
  simp [run]

theorem run_append (s : σ) (ops ops' : List ι) :
    run step s (ops ++ ops') = run step (run step s ops) ops' := by
  simp [run]

/-- A run that has been going for longer meets a condition on all its steps only if it did before. -/
theorem AllSteps.initial {P : σ → ι → Prop} {s : σ} {pre ops : List ι} (h : AllSteps step P s ops)
    (hpre : pre <+: ops) : AllSteps step P s pre :=
  fun q op hq => h q op (hq.trans hpre)

@[simp] theorem allSteps_nil {P : σ → ι → Prop} {s : σ} : AllSteps step P s [] :=
  fun pre op h => absurd (List.prefix_nil.mp h) (by simp)

/-- A run meets a condition on all its steps when its first step and the rest of it do. -/
theorem allSteps_cons {P : σ → ι → Prop} {s : σ} {op : ι} {ops : List ι} :
    AllSteps step P s (op :: ops) ↔ P s op ∧ AllSteps step P (step s op) ops := by
  constructor
  · intro h
    refine ⟨h [] op ⟨ops, rfl⟩, fun pre op' hpre => ?_⟩
    exact h (op :: pre) op' (List.cons_prefix_cons.mpr ⟨rfl, hpre⟩)
  · rintro ⟨hop, hrest⟩ pre op' hpre
    cases pre with
    | nil =>
      obtain ⟨rfl, _⟩ := List.cons_prefix_cons.mp hpre
      exact hop
    | cons a pre =>
      obtain ⟨rfl, hpre'⟩ := List.cons_prefix_cons.mp hpre
      exact hrest pre op' hpre'

theorem allSteps_append {P : σ → ι → Prop} {s : σ} {ops ops' : List ι} :
    AllSteps step P s (ops ++ ops') ↔
      AllSteps step P s ops ∧ AllSteps step P (run step s ops) ops' := by
  induction ops generalizing s with
  | nil => simp
  | cons op ops ih => rw [List.cons_append, allSteps_cons, allSteps_cons, run_cons, ih, and_assoc]

theorem AllStates.last {Q : σ → Prop} {s : σ} {ops : List ι} (h : AllStates step Q s ops) :
    Q (run step s ops) :=
  h ops List.prefix_rfl

/-- What every step keeps holds at the end of every run. -/
theorem inv_run {I : σ → Prop} (hstep : ∀ s op, I s → I (step s op)) {s : σ} (h : I s) :
    ∀ ops, I (run step s ops) := by
  intro ops
  induction ops generalizing s with
  | nil => exact h
  | cons op ops ih => exact ih (hstep s op h)

/-- Along a run of good steps: `Q` is kept by each step that meets `P`, given the invariant `I`. -/
theorem allStates_of_allSteps {I Q : σ → Prop} {P : σ → ι → Prop}
    (hI : ∀ s op, I s → I (step s op))
    (hQ : ∀ s op, I s → Q s → P s op → Q (step s op)) {s : σ} (hIs : I s) (hQs : Q s)
    {ops : List ι} (hP : AllSteps step P s ops) : AllStates step Q s ops := by
  intro pre hpre
  induction pre using List.reverseRecOn with
  | nil => exact hQs
  | append_singleton pre op ih =>
    rw [run_concat]
    have hpre' : pre <+: ops := (List.prefix_append pre [op]).trans hpre
    exact hQ _ op (inv_run step hI hIs pre) (ih hpre') (hP pre op hpre)

/-- If a step keeps `Q` exactly when it meets `P`, then `Q` holds of every state of a run exactly
    when every step of the run meets `P`. -/
theorem allStates_iff_allSteps {I Q : σ → Prop} {P : σ → ι → Prop}
    (hI : ∀ s op, I s → I (step s op))
    (hQ : ∀ s op, I s → Q s → (Q (step s op) ↔ P s op)) {s : σ} (hIs : I s) (hQs : Q s)
    (ops : List ι) : AllStates step Q s ops ↔ AllSteps step P s ops := by
  constructor
  · intro h pre op hpre
    have hpre' : pre <+: ops := (List.prefix_append pre [op]).trans hpre
    refine (hQ _ op (inv_run step hI hIs pre) (h pre hpre')).mp ?_
    have := h _ hpre
    rwa [run_concat] at this
  · exact allStates_of_allSteps step hI (fun s op hs hq hp => (hQ s op hs hq).mpr hp) hIs hQs

/-- If a step that leads to `Q` must have met `P` where `J` holds, and steps that meet `P` keep `J`,
    then a run whose states all satisfy `Q` took only steps that meet `P`. -/
theorem allSteps_of_allStates {J Q : σ → Prop} {P : σ → ι → Prop}
    (hJ : ∀ s op, J s → P s op → J (step s op)) (hP : ∀ s op, J s → Q (step s op) → P s op) {s : σ}
    (hs : J s) {ops : List ι} (h : AllStates step Q s ops) : AllSteps step P s ops := by
  suffices hall : ∀ pre, pre <+: ops → AllSteps step P s pre ∧ J (run step s pre) from
    (hall ops List.prefix_rfl).1
  intro pre
  induction pre using List.reverseRecOn with
  | nil => exact fun _ => ⟨fun q op hq => absurd (List.prefix_nil.mp hq) (by simp), hs⟩
  | append_singleton pre op ih =>
    intro hpre
    obtain ⟨hsteps, hj⟩ := ih ((List.prefix_append pre [op]).trans hpre)
    have hop : P (run step s pre) op := by
      have hq := h _ hpre
      rw [run_concat] at hq
      exact hP _ op hj hq
    refine ⟨fun q op' hq => ?_, by rw [run_concat]; exact hJ _ op hj hop⟩
    rcases List.prefix_concat_iff.mp hq with heq | hlt
    · obtain ⟨rfl, rfl⟩ := List.append_singleton_inj.mp heq
      exact hop
    · exact hsteps q op' hlt

/-- Two conditions on steps that agree wherever `J` holds agree along runs, if the first one keeps
    `J`. -/
theorem allSteps_congr {J : σ → Prop} {P P' : σ → ι → Prop}
    (hJ : ∀ s op, J s → P s op → J (step s op)) (hiff : ∀ s op, J s → (P s op ↔ P' s op)) {s : σ}
    (hs : J s) (ops : List ι) : AllSteps step P s ops ↔ AllSteps step P' s ops := by
  have hreach : ∀ pre, AllSteps step P s pre → J (run step s pre) := by
    intro pre
    induction pre using List.reverseRecOn with
    | nil => exact fun _ => hs
    | append_singleton pre op ih =>
      intro h
      rw [run_concat]
      exact hJ _ op (ih (AllSteps.initial step h (List.prefix_append pre [op])))
        (h pre op List.prefix_rfl)
  constructor
  · intro h pre op hpre
    have hpre' : pre <+: ops := (List.prefix_append pre [op]).trans hpre
    exact (hiff _ op (hreach pre (AllSteps.initial step h hpre'))).mp (h pre op hpre)
  · -- The second condition only gives the first where `J` holds, so the two are proved together.
    intro h
    suffices hall : ∀ pre, pre <+: ops → AllSteps step P s pre from hall ops List.prefix_rfl
    intro pre
    induction pre using List.reverseRecOn with
    | nil => exact fun _ q op hq => absurd (List.prefix_nil.mp hq) (by simp)
    | append_singleton pre op ih =>
      intro hpre
      have hih := ih ((List.prefix_append pre [op]).trans hpre)
      intro q op' hq
      rcases List.prefix_concat_iff.mp hq with heq | hlt
      · obtain ⟨rfl, rfl⟩ := List.append_singleton_inj.mp heq
        exact (hiff _ op' (hreach q hih)).mpr (h q op' hpre)
      · exact hih q op' hlt

/-- A fact that every step of the run keeps, those of kind `E` apart, holds at its end unless such a
    step was taken. -/
theorem held_or_released {J : σ → Prop} {P : σ → ι → Prop} {E : ι → Prop}
    (hkeep : ∀ s op, J s → P s op → ¬E op → J (step s op)) {s : σ} (hs : J s) {ops : List ι}
    (hP : AllSteps step P s ops) : (∃ op ∈ ops, E op) ∨ J (run step s ops) := by
  induction ops generalizing s with
  | nil => exact .inr hs
  | cons op ops ih =>
    obtain ⟨hop, hrest⟩ := (allSteps_cons step).mp hP
    by_cases hE : E op
    · exact .inl ⟨op, List.mem_cons_self, hE⟩
    · rcases ih (hkeep s op hs hop hE) hrest with ⟨o, ho, hEo⟩ | hJ
      · exact .inl ⟨o, List.mem_cons_of_mem _ ho, hEo⟩
      · exact .inr hJ

end Midas

/-! ### Histories -/

namespace Midas

variable {α : Type*} {R : α → α → Prop}

/-- The records `l` lead from `a` to `b` by steps of `R`. -/
structure Traces (R : α → α → Prop) (a : α) (l : List α) (b : α) : Prop where
  chain : (a :: l).IsChain R
  last : (a :: l).getLast (List.cons_ne_nil a l) = b

namespace Traces

theorem nil (a : α) : Traces R a [] a := ⟨List.isChain_singleton a, rfl⟩

theorem append {a b c : α} {l l' : List α} (h : Traces R a l b) (h' : Traces R b l' c) :
    Traces R a (l ++ l') c := by
  have hinit : (a :: l).dropLast ++ [b] = a :: l := by
    rw [← h.last]; exact List.dropLast_append_getLast _
  have hl : a :: (l ++ l') = (a :: l).dropLast ++ [b] ++ l' := by
    rw [hinit]; rfl
  refine ⟨?_, ?_⟩
  · rw [hl]
    exact List.IsChain.append_overlap (by rw [hinit]; exact h.chain) h'.chain
      (List.cons_ne_nil b [])
  · cases l' with
    | nil =>
      have hbc : b = c := h'.last
      simpa [hbc] using h.last
    | cons d l' => simpa using h'.last

/-- One more record. -/
theorem snoc {a b c : α} {l : List α} (h : Traces R a l b) (hbc : R b c) :
    Traces R a (l ++ [c]) c :=
  h.append ⟨List.isChain_pair.mpr hbc, rfl⟩

/-- What is recorded of a value repeated `n` times is one trace, if a value may follow itself. -/
theorem replicate {a : α} (h : R a a) : ∀ n, Traces R a (List.replicate n a) a
  | 0 => nil a
  | n + 1 => by rw [List.replicate_succ']; exact (replicate h n).snoc h

end Traces

end Midas
