import Mathlib.Data.List.Basic

/-! Values cut from sources that count their changes. A value keeps the count of its source from when it
    was cut; while the two counts agree, it is what would be cut from that source now. Nothing is said
    about the counts of two sources. -/

namespace Midas.Stamped

variable {σ β : Type*} (version : σ → ℕ) (cut : σ → β)

/-- A change is counted, or there is none. -/
def Counts (src src' : σ) : Prop := src' = src ∨ version src < version src'

/-- The value was cut from the source at the count, and the source has at most changed since. -/
structure CutFrom (stamp : ℕ) (value : β) (src : σ) : Prop where
  le : stamp ≤ version src
  eq : stamp = version src → value = cut src

variable {version cut}

theorem cutFrom_self (src : σ) : CutFrom version cut (version src) (cut src) src :=
  ⟨Nat.le_refl _, fun _ => rfl⟩

theorem CutFrom.counts {stamp : ℕ} {value : β} {src src' : σ}
    (h : CutFrom version cut stamp value src) (hsrc : Counts version src src') :
    CutFrom version cut stamp value src' := by
  rcases hsrc with rfl | hlt
  · exact h
  · have hle := h.le
    exact ⟨by omega, fun heq => by omega⟩

/-- The sources of a list, one of which may change. -/
theorem CutFrom.set {stamp : ℕ} {value : β} {srcs : List σ} {i j : ℕ} {src src' : σ}
    (hsrc : srcs[j]? = some src) (hcounts : Counts version src src')
    (h : ∃ old, srcs[i]? = some old ∧ CutFrom version cut stamp value old) :
    ∃ now, (srcs.set j src')[i]? = some now ∧ CutFrom version cut stamp value now := by
  obtain ⟨old, hold, hcut⟩ := h
  by_cases heq : j = i
  · subst heq
    obtain rfl := Option.some.inj (hold.symm.trans hsrc)
    have hlt := (List.getElem?_eq_some_iff.mp hold).1
    exact ⟨src', by rw [List.getElem?_set_self hlt], hcut.counts hcounts⟩
  · exact ⟨old, by rw [List.getElem?_set_ne heq, hold], hcut⟩

end Midas.Stamped
