import Mathlib.Algebra.Order.Group.Int
import Mathlib.Data.List.Flatten

/-! Walking along the integers, day by day: up or down to the first day that answers, or over a
    stretch of days, collecting what each has. -/

namespace Midas.Walk

variable {β : Type*}

/-- The first answer among `d, d + 1, …`, `n` days long. -/
def up (f : ℤ → Option β) : ℕ → ℤ → Option β
  | 0, _ => none
  | n + 1, d =>
    match f d with
    | some b => some b
    | none => up f n (d + 1)

/-- The first answer among `d, d - 1, …`, `n` days long. -/
def down (f : ℤ → Option β) : ℕ → ℤ → Option β
  | 0, _ => none
  | n + 1, d =>
    match f d with
    | some b => some b
    | none => down f n (d - 1)

/-- What the days `d, d + 1, …`, `n` days long, have. -/
def collect (f : ℤ → List β) : ℕ → ℤ → List β
  | 0, _ => []
  | n + 1, d => f d ++ collect f n (d + 1)

/-- Walking up answers what the nearest day that answers does. -/
theorem up_eq_some {f : ℤ → Option β} {b : β} : ∀ {n : ℕ} {d : ℤ}, up f n d = some b →
    ∃ e, d ≤ e ∧ e < d + n ∧ f e = some b ∧ ∀ e', d ≤ e' → e' < e → f e' = none
  | n + 1, d, h => by
    rw [up] at h
    cases hd : f d with
    | some b' =>
      rw [hd] at h
      exact ⟨d, le_rfl, by omega, hd.trans h, fun e' hle hlt => by omega⟩
    | none =>
      rw [hd] at h
      obtain ⟨e, hle, hlt, he, hnone⟩ := up_eq_some h
      refine ⟨e, by omega, by omega, he, fun e' hle' hlt' => ?_⟩
      rcases hle'.eq_or_lt with rfl | hlt''
      · exact hd
      · exact hnone e' (by omega) hlt'

theorem up_eq_none {f : ℤ → Option β} : ∀ {n : ℕ} {d : ℤ}, up f n d = none →
    ∀ e, d ≤ e → e < d + n → f e = none
  | 0, d, _, e, hle, hlt => by omega
  | n + 1, d, h, e, hle, hlt => by
    rw [up] at h
    cases hd : f d with
    | some b' =>
      rw [hd] at h
      cases h
    | none =>
      rw [hd] at h
      rcases hle.eq_or_lt with rfl | hlt'
      · exact hd
      · exact up_eq_none h e (by omega) (by omega)

/-- Only the days that are walked over count. -/
theorem up_congr {f g : ℤ → Option β} : ∀ {n : ℕ} {d : ℤ}, (∀ e, d ≤ e → e < d + n → f e = g e) →
    up f n d = up g n d
  | 0, _, _ => rfl
  | n + 1, d, h => by
    rw [up, up, h d le_rfl (by omega), up_congr fun e hle hlt => h e (by omega) (by omega)]

/-- Walking down is walking up the days counted backwards. -/
theorem down_eq_up (f : ℤ → Option β) : ∀ (n : ℕ) (d : ℤ), down f n d = up (fun e => f (-e)) n (-d)
  | 0, _ => rfl
  | n + 1, d => by
    rw [down, up, neg_neg, down_eq_up f n (d - 1), neg_sub, sub_eq_add_neg, add_comm 1 (-d)]

/-- Walking down answers what the nearest day that answers does. -/
theorem down_eq_some {f : ℤ → Option β} {b : β} {n : ℕ} {d : ℤ} (h : down f n d = some b) :
    ∃ e, e ≤ d ∧ d - n < e ∧ f e = some b ∧ ∀ e', e' ≤ d → e < e' → f e' = none := by
  rw [down_eq_up] at h
  obtain ⟨e, hle, hlt, he, hnone⟩ := up_eq_some h
  refine ⟨-e, by omega, by omega, he, fun e' hle' hlt' => ?_⟩
  have := hnone (-e') (by omega) (by omega)
  rwa [neg_neg] at this

theorem down_eq_none {f : ℤ → Option β} {n : ℕ} {d : ℤ} (h : down f n d = none) :
    ∀ e, e ≤ d → d - n < e → f e = none := by
  intro e hle hlt
  rw [down_eq_up] at h
  have := up_eq_none h (-e) (by omega) (by omega)
  rwa [neg_neg] at this

theorem down_congr {f g : ℤ → Option β} {n : ℕ} {d : ℤ} (h : ∀ e, e ≤ d → d - n < e → f e = g e) :
    down f n d = down g n d := by
  rw [down_eq_up, down_eq_up]
  exact up_congr fun e hle hlt => h (-e) (by omega) (by omega)

theorem mem_collect {f : ℤ → List β} {b : β} : ∀ {n : ℕ} {d : ℤ},
    b ∈ collect f n d ↔ ∃ e, d ≤ e ∧ e < d + n ∧ b ∈ f e
  | 0, d => by
    constructor
    · intro h
      cases h
    · rintro ⟨e, hle, hlt, _⟩
      omega
  | n + 1, d => by
    rw [collect, List.mem_append, mem_collect]
    constructor
    · rintro (h | ⟨e, hle, hlt, h⟩)
      · exact ⟨d, le_rfl, by omega, h⟩
      · exact ⟨e, by omega, by omega, h⟩
    · rintro ⟨e, hle, hlt, h⟩
      rcases hle.eq_or_lt with rfl | hlt'
      · exact Or.inl h
      · exact Or.inr ⟨e, by omega, by omega, h⟩

theorem collect_congr {f g : ℤ → List β} : ∀ {n : ℕ} {d : ℤ}, (∀ e, d ≤ e → e < d + n → f e = g e) →
    collect f n d = collect g n d
  | 0, _, _ => rfl
  | n + 1, d, h => by
    rw [collect, collect, h d le_rfl (by omega), collect_congr fun e hle hlt => h e (by omega) (by omega)]

/-- What is in order on each day and from day to day is in order over the whole stretch. -/
theorem pairwise_collect {f : ℤ → List β} {R : β → β → Prop} (hday : ∀ d, (f d).Pairwise R)
    (hdays : ∀ d e, d < e → ∀ a ∈ f d, ∀ b ∈ f e, R a b) :
    ∀ (n : ℕ) (d : ℤ), (collect f n d).Pairwise R
  | 0, _ => List.Pairwise.nil
  | n + 1, d => by
    rw [collect, List.pairwise_append]
    refine ⟨hday d, pairwise_collect hday hdays n (d + 1), fun a ha b hb => ?_⟩
    obtain ⟨e, hle, _, hb⟩ := mem_collect.mp hb
    exact hdays d e (by omega) a ha b hb

end Midas.Walk
