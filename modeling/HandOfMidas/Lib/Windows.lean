import Mathlib.Order.Lattice
import Mathlib.Order.Basic

/-! Half-open windows of a line. A point may have a window, in which it need not lie; the points of a
    window have that window themselves. -/

namespace Midas

variable {α : Type*} [LinearOrder α]

/-- Windows `[w.1, w.2)` that are not empty, agree at all their points, and go on with the points. -/
structure Tiling (window : α → Option (α × α)) : Prop where
  lt : ∀ {t w}, window t = some w → w.1 < w.2
  inside : ∀ {t w t'}, window t = some w → w.1 ≤ t' → t' < w.2 → window t' = some w
  mono : ∀ {t t' w w'}, t ≤ t' → window t = some w → window t' = some w' → w.1 ≤ w'.1

namespace Tiling

variable {window : α → Option (α × α)}

/-- Windows that their own points lie in are a tiling as soon as their points agree. -/
theorem of_contains (hmem : ∀ {t w}, window t = some w → w.1 ≤ t ∧ t < w.2)
    (hinside : ∀ {t w t'}, window t = some w → w.1 ≤ t' → t' < w.2 → window t' = some w) :
    Tiling window where
  lt h := (hmem h).1.trans_lt (hmem h).2
  inside := hinside
  mono {t t' w w'} hle h h' := by
    by_contra hlt
    have hmem' := hmem h'
    have hsame := hinside h' ((not_le.mp hlt).le.trans (hmem h).1) (hle.trans_lt hmem'.2)
    rw [h] at hsame
    exact hlt (Option.some.inj hsame ▸ le_rfl)

/-- Two windows are the same or have no point in common. -/
theorem same_or_disjoint (h : Tiling window) {t t' : α} {w w' : α × α} (ht : window t = some w)
    (ht' : window t' = some w') : w = w' ∨ w.2 ≤ w'.1 ∨ w'.2 ≤ w.1 := by
  by_contra hne
  push Not at hne
  obtain ⟨hne, h1, h2⟩ := hne
  have hleft := h.inside ht (le_max_left w.1 w'.1) (max_lt (h.lt ht) h1)
  have hright := h.inside ht' (le_max_right w.1 w'.1) (max_lt h2 (h.lt ht'))
  exact hne (Option.some.inj (hleft.symm.trans hright))

end Tiling

end Midas
