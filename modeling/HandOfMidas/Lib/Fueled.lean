import Mathlib.Data.List.Basic

/-! Computations that may fail or run out of fuel, and what becomes of one that collects names when it
    is made to stop at the first name that it meets twice. -/

namespace Midas

/-- A computation that is out of fuel (`none`), fails with an error, or returns a value. -/
abbrev Fueled (ε : Type*) := ExceptT ε Option

namespace Fueled

universe u

variable {ε : Type u} {α β γ ν : Type u}

/-- A computation that needs no fuel. -/
def lift {δ : Type*} (err : δ → ε) : Except δ α → Fueled ε α
  | .ok a => pure a
  | .error e => throw (err e)

theorem pure_inj {a b : α} : (pure a : Fueled ε α) = pure b ↔ a = b :=
  ⟨fun h => Except.ok.inj (Option.some.inj h), fun h => h ▸ rfl⟩

theorem throw_ne_pure (e : ε) (a : α) : (throw e : Fueled ε α) ≠ pure a := fun h => by
  cases Option.some.inj h

/-- Nothing but the three outcomes. -/
theorem outcomes (x : Fueled ε α) : x.run = none ∨ (∃ e, x = throw e) ∨ ∃ a, x = pure a := by
  rcases h : x.run with _ | e | a
  · exact Or.inl rfl
  · exact Or.inr (Or.inl ⟨e, h⟩)
  · exact Or.inr (Or.inr ⟨a, h⟩)

theorem bind_of_none {x : Fueled ε α} (h : x.run = none) (f : α → Fueled ε β) :
    (x >>= f).run = none := by
  obtain rfl : x = ExceptT.mk none := h
  rfl

theorem bind_eq_pure_iff {x : Fueled ε α} {f : α → Fueled ε β} {b : β} :
    (x >>= f) = pure b ↔ ∃ a, x = pure a ∧ f a = pure b := by
  constructor
  · intro h
    rcases outcomes x with hx | ⟨e, rfl⟩ | ⟨a, rfl⟩
    · have := bind_of_none hx f
      rw [h] at this
      cases this
    · exact absurd h (throw_ne_pure e b)
    · exact ⟨a, rfl, h⟩
  · rintro ⟨a, rfl, h⟩
    exact h

theorem lift_eq_pure_iff {δ : Type*} {err : δ → ε} {x : Except δ α} {a : α} :
    lift err x = pure a ↔ x = .ok a := by
  cases x with
  | error e => exact ⟨fun h => absurd h (throw_ne_pure _ a), fun h => by cases h⟩
  | ok b => exact pure_inj.trans ⟨fun h => h ▸ rfl, fun h => Except.ok.inj h⟩

/-! ### More fuel -/

/-- The second computation is the first with more fuel. -/
def Below (x y : Fueled ε α) : Prop := x.run = none ∨ x = y

theorem Below.refl (x : Fueled ε α) : Below x x := Or.inr rfl

/-- With any fuel with which it does not run out a computation comes to the same. -/
theorem Below.eq {x y : Fueled ε α} (h : Below x y) (hx : x.run ≠ none) : x = y :=
  h.resolve_left hx

/-! ### Enough fuel -/

/-- The computation does not run out of fuel, and what it returns satisfies `P`. -/
def Ends (P : α → Prop) (x : Fueled ε α) : Prop := x.run ≠ none ∧ ∀ a, x = pure a → P a

theorem ends_pure {P : α → Prop} {a : α} (h : P a) : Ends P (pure a : Fueled ε α) :=
  ⟨nofun, fun _ hb => pure_inj.mp hb ▸ h⟩

theorem ends_throw {P : α → Prop} (e : ε) : Ends P (throw e : Fueled ε α) :=
  ⟨nofun, fun a ha => absurd ha (throw_ne_pure e a)⟩

theorem Ends.bind {P : α → Prop} {Q : β → Prop} {x : Fueled ε α} {f : α → Fueled ε β} (hx : Ends P x)
    (hf : ∀ a, P a → Ends Q (f a)) : Ends Q (x >>= f) := by
  rcases outcomes x with hnone | ⟨e, rfl⟩ | ⟨a, rfl⟩
  · exact absurd hnone hx.1
  · exact ends_throw e
  · exact hf a (hx.2 a rfl)

theorem Ends.imp {P Q : α → Prop} {x : Fueled ε α} (hx : Ends P x) (h : ∀ a, P a → Q a) : Ends Q x :=
  ⟨hx.1, fun a ha => h a (hx.2 a ha)⟩

/-! ### Collected names -/

/-- A relation between computations that collect names, given the names collected before: two
    computations made of related ones in the same way are related. -/
structure Congruence
    (R : ∀ {α : Type u}, List ν → Fueled ε (α × List ν) → Fueled ε (α × List ν) → Prop) :
    Prop where
  pure {α : Type u} (a : α) (names : List ν) : R names (pure (a, names)) (pure (a, names))
  lift {α β δ : Type u} (names : List ν) (err : δ → ε) (x : Except δ β)
    (f g : β → Fueled ε (α × List ν)) (h : ∀ b, x = .ok b → R names (f b) (g b)) :
    R names (lift err x >>= f) (lift err x >>= g)
  bind {α β : Type u} (names : List ν) (p c : Fueled ε (α × List ν))
    (f g : α × List ν → Fueled ε (β × List ν)) (hpc : R names p c) (hfg : ∀ r, R r.2 (f r) (g r)) :
    R names (p >>= f) (c >>= g)

theorem congruence_below : Congruence fun {α} (_ : List ν) (p c : Fueled ε (α × List ν)) =>
      Below p c where
  pure _ _ := Below.refl _
  lift _ err x f g h := by
    cases x with
    | error e => exact Below.refl _
    | ok b => exact h b rfl
  bind _ p c f g hpc hfg := by
    rcases hpc with hp | rfl
    · exact Or.inl (bind_of_none hp f)
    · rcases outcomes p with hp | ⟨e, rfl⟩ | ⟨r, rfl⟩
      · exact Or.inl (bind_of_none hp f)
      · exact Below.refl _
      · exact hfg r

/-- An invariant of the names keeps the computation from running out of fuel. -/
theorem congruence_ends (I : List ν → Prop) :
    Congruence fun {α} names (p _ : Fueled ε (α × List ν)) => I names → Ends (fun r => I r.2) p where
  pure _ _ hnames := ends_pure hnames
  lift _ err x f _ h hnames := by
    cases x with
    | error e => exact ends_throw _
    | ok b => exact h b rfl hnames
  bind _ _ _ _ _ hp hf hnames := (hp hnames).bind fun r hr => hf r hr

/-- `checked` is `plain` made to refuse a name that it meets a second time. -/
structure Checked (refusal : ν → ε) (plain checked : Fueled ε (α × List ν)) : Prop where
  accepts : ∀ r, plain = pure r → r.2.Nodup → checked = pure r
  refuses : ∀ r, plain = pure r → ¬ r.2.Nodup → ∃ name ∈ r.2, checked = throw (refusal name)
  sound : ∀ r, checked = pure r → plain = pure r ∧ r.2.Nodup

/-- The plain computation adds names to those that were collected before, and the other checks them. -/
structure Guarded (refusal : ν → ε) (names : List ν) (plain checked : Fueled ε (α × List ν)) :
    Prop where
  grows : ∀ r, plain = pure r → names <+: r.2
  checked : names.Nodup → Checked refusal plain checked

variable {refusal : ν → ε}

theorem Guarded.of_ne_pure {names : List ν} {x : Fueled ε (α × List ν)} (h : ∀ r, x ≠ pure r) :
    Guarded refusal names x x where
  grows r hr := absurd hr (h r)
  checked _ := ⟨fun r hr => absurd hr (h r), fun r hr => absurd hr (h r), fun r hr => absurd hr (h r)⟩

/-- Once a name is refused nothing follows, and the plain computation keeps the name. -/
theorem Checked.bind {p c : Fueled ε (α × List ν)} {f g : α × List ν → Fueled ε (β × List ν)}
    (hpc : Checked refusal p c) (hfg : ∀ r, Guarded refusal r.2 (f r) (g r)) :
    Checked refusal (p >>= f) (c >>= g) where
  accepts r hr hnodup := by
    obtain ⟨s, hs, hr⟩ := bind_eq_pure_iff.mp hr
    have hs_nodup := hnodup.sublist ((hfg s).grows r hr).sublist
    rw [hpc.accepts s hs hs_nodup]
    exact ((hfg s).checked hs_nodup).accepts r hr hnodup
  refuses r hr hnot := by
    obtain ⟨s, hs, hr⟩ := bind_eq_pure_iff.mp hr
    by_cases hs_nodup : s.2.Nodup
    · rw [hpc.accepts s hs hs_nodup]
      exact ((hfg s).checked hs_nodup).refuses r hr hnot
    · obtain ⟨name, hname, hrefused⟩ := hpc.refuses s hs hs_nodup
      refine ⟨name, ((hfg s).grows r hr).subset hname, ?_⟩
      rw [hrefused]
      rfl
  sound r hr := by
    obtain ⟨s, hs, hr⟩ := bind_eq_pure_iff.mp hr
    obtain ⟨hplain, hs_nodup⟩ := hpc.sound s hs
    obtain ⟨hrest, hnodup⟩ := ((hfg s).checked hs_nodup).sound r hr
    refine ⟨?_, hnodup⟩
    rw [hplain]
    exact hrest

theorem congruence_guarded (refusal : ν → ε) :
    Congruence fun {α} names (p c : Fueled ε (α × List ν)) => Guarded refusal names p c where
  pure a names := by
    refine ⟨fun r hr => pure_inj.mp hr ▸ List.prefix_refl names,
      fun hnames => ⟨fun _ hr _ => hr, ?_, ?_⟩⟩
    · intro r hr hnot
      cases pure_inj.mp hr
      exact absurd hnames hnot
    · intro r hr
      cases pure_inj.mp hr
      exact ⟨rfl, hnames⟩
  lift names err x f g h := by
    cases x with
    | error e => exact Guarded.of_ne_pure (throw_ne_pure _)
    | ok b => exact h b rfl
  bind names p c f g hpc hfg := by
    refine ⟨fun r hr => ?_, fun hnames => (hpc.checked hnames).bind hfg⟩
    obtain ⟨s, hs, hr⟩ := bind_eq_pure_iff.mp hr
    exact (hpc.grows s hs).trans ((hfg s).grows r hr)

/-- A name is met, and the checked computation goes on only if it is new. -/
theorem Guarded.enter [DecidableEq ν] {names : List ν} {name : ν} {p c : Fueled ε (α × List ν)}
    (h : Guarded refusal (names ++ [name]) p c) :
    Guarded refusal names p (if name ∈ names then throw (refusal name) else c) where
  grows r hr := (List.prefix_append names [name]).trans (h.grows r hr)
  checked hnames := by
    by_cases hmem : name ∈ names
    · rw [if_pos hmem]
      have hnot : ¬ (names ++ [name]).Nodup := fun hnodup =>
        (List.nodup_append.mp hnodup).2.2 name hmem name (List.mem_singleton_self name) rfl
      refine ⟨fun r hr hr_nodup => ?_, fun r hr _ => ?_, fun r hr => absurd hr (throw_ne_pure _ r)⟩
      · exact absurd (hr_nodup.sublist (h.grows r hr).sublist) hnot
      · exact ⟨name, (h.grows r hr).subset (List.mem_append_left _ hmem), rfl⟩
    · rw [if_neg hmem]
      refine h.checked (List.nodup_append.mpr ⟨hnames, List.pairwise_singleton _ _, ?_⟩)
      intro a ha b hb hab
      exact hmem (List.mem_singleton.mp hb ▸ hab ▸ ha)

end Midas.Fueled
