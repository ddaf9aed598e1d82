import Mathlib.Order.Monotone.Basic
import Mathlib.Order.SuccPred.Basic
import Mathlib.Data.Set.Card
import Mathlib.Data.Int.Interval
import Mathlib.Algebra.Order.Group.Int
import Mathlib.Data.Int.ConditionallyCompleteOrder

/-! Ladders: marks on the integers, without a first or a last, numbered in their order, with the number of
    the last mark up to a given place. -/

namespace Midas

/-- The marks `rung k`, and for each place the mark that it lies on or behind. -/
structure Ladder (rung index : ℤ → ℤ) : Prop where
  lt_succ : ∀ k, rung k < rung (k + 1)
  le : ∀ t, rung (index t) ≤ t
  lt : ∀ t, t < rung (index t + 1)

namespace Ladder

variable {rung index : ℤ → ℤ} (h : Ladder rung index)

include h

theorem strictMono : StrictMono rung := strictMono_int_of_lt_succ h.lt_succ

theorem rung_le_iff {k t : ℤ} : rung k ≤ t ↔ k ≤ index t := by
  constructor
  · intro hle
    have := h.strictMono.lt_iff_lt.mp (hle.trans_lt (h.lt t))
    omega
  · intro hle
    exact (h.strictMono.monotone hle).trans (h.le t)

theorem index_rung (k : ℤ) : index (rung k) = k := by
  refine le_antisymm ?_ (h.rung_le_iff.mp le_rfl)
  exact h.strictMono.le_iff_le.mp (h.le (rung k))

/-- Every `n`-th mark. -/
theorem every {n : ℤ} (hn : 0 < n) (c : ℤ) :
    Ladder (fun k => rung (n * k + c)) (fun t => (index t - c) / n) := by
  refine ⟨?_, ?_, ?_⟩
  · intro k
    refine h.strictMono ?_
    rw [mul_add]
    omega
  · intro t
    rw [h.rung_le_iff]
    have := Int.mul_ediv_self_le (x := index t - c) hn.ne'
    omega
  · intro t
    rw [← not_le, h.rung_le_iff, not_le]
    have := Int.lt_mul_ediv_self_add (x := index t - c) hn
    rw [mul_add]
    omega

/-- A ladder whose rungs are numbered by the marks of another. -/
theorem comp {inner innerIndex : ℤ → ℤ} (hinner : Ladder inner innerIndex) :
    Ladder (fun k => rung (inner k)) (fun t => innerIndex (index t)) := by
  refine ⟨?_, ?_, ?_⟩
  · intro k
    exact h.strictMono (hinner.lt_succ k)
  · intro t
    rw [h.rung_le_iff]
    exact hinner.le _
  · intro t
    rw [← not_le, h.rung_le_iff, not_le]
    exact hinner.lt _

end Ladder

/-- The multiples of a number. -/
theorem ladder_multiples {m : ℤ} (hm : 0 < m) : Ladder (fun k => k * m) (fun t => t / m) := by
  refine ⟨?_, ?_, ?_⟩
  · intro k
    rw [add_mul]
    omega
  · intro t
    exact Int.ediv_mul_le t hm.ne'
  · intro t
    exact Int.lt_ediv_add_one_mul_self t hm

namespace Ladder

variable {rung index : ℤ → ℤ} (h : Ladder rung index)

/-- The first mark at or behind a place. -/
def up (rung index : ℤ → ℤ) (t : ℤ) : ℤ := if t ≤ rung (index t) then index t else index t + 1

include h

theorem up_le_iff {t k : ℤ} : up rung index t ≤ k ↔ t ≤ rung k := by
  unfold up
  split
  · rename_i hle
    constructor
    · intro hk
      exact hle.trans (h.strictMono.monotone hk)
    · intro hk
      rw [← h.strictMono.le_iff_le]
      exact (h.le t).trans hk
  · rename_i hlt
    constructor
    · intro hk
      exact (h.lt t).le.trans (h.strictMono.monotone hk)
    · intro hk
      have := h.strictMono.lt_iff_lt.mp ((not_le.mp hlt).trans_le hk)
      omega

/-- The marks between two places are numbered without a gap. -/
theorem between (a b : ℤ) : {t | a ≤ t ∧ t ≤ b ∧ ∃ k, t = rung k} =
    rung '' Set.Icc (up rung index a) (index b) := by
  ext t
  simp only [Set.mem_ofPred_eq, Set.mem_image, Set.mem_Icc]
  constructor
  · rintro ⟨hle, hge, k, rfl⟩
    exact ⟨k, ⟨h.up_le_iff.mpr hle, h.rung_le_iff.mp hge⟩, rfl⟩
  · rintro ⟨k, ⟨hle, hge⟩, rfl⟩
    exact ⟨h.up_le_iff.mp hle, h.rung_le_iff.mpr hge, k, rfl⟩

theorem ncard_between (a b : ℤ) : {t | a ≤ t ∧ t ≤ b ∧ ∃ k, t = rung k}.ncard =
    (index b + 1 - up rung index a).toNat := by
  rw [h.between, Set.ncard_image_of_injective _ h.strictMono.injective, ← Finset.coe_Icc,
    Set.ncard_coe_finset, Int.card_Icc]

end Ladder

end Midas
