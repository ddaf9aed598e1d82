import HandOfMidas.Lib.Trades
import HandOfMidas.Broker.SimOrderClient
import Mathlib.Tactic.FieldSimp
import Mathlib.Tactic.LinearCombination
import Mathlib.Tactic.Linarith
import Mathlib.Tactic.Ring

/-! What one fill does to the money: a position at its average cost takes in what the cash gives
    out, but for the profit that is realized and the commission of the shares that are opened. -/

namespace Midas.Broker

open Trade

/-! ### Signs -/

theorem signum_eq_or (x : ℚ) : signum x = 1 ∨ signum x = -1 := by
  unfold signum
  split
  · exact .inr rfl
  · exact .inl rfl

theorem signum_mul_abs (x : ℚ) : signum x * |x| = x := by
  unfold signum
  split
  · rename_i h
    rw [abs_of_neg h]
    ring
  · rename_i h
    rw [abs_of_nonneg (not_lt.mp h), one_mul]

theorem signum_mul_self (x : ℚ) : signum x * signum x = 1 := by
  rcases signum_eq_or x with h | h <;> rw [h] <;> norm_num

theorem abs_signum_mul (x y : ℚ) : |signum x * y| = |y| := by
  rcases signum_eq_or x with h | h <;> rw [h] <;> simp

theorem signum_signum_mul {x y : ℚ} (hy : 0 < y) : signum (signum x * y) = signum x := by
  rcases signum_eq_or x with h | h <;> rw [h]
  · simp [signum, hy.le]
  · simp [signum, hy]

theorem signum_signum_mul_neg {x y : ℚ} (hy : y < 0) : signum (signum x * y) ≠ signum x := by
  rcases signum_eq_or x with h | h <;> rw [h]
  · norm_num [signum, hy]
  · norm_num [signum, hy.le]

/-- What is left of a quantity after one of the other sign. -/
theorem add_of_signum_ne {x y : ℚ} (h : signum x ≠ signum y) : x + y = signum x * (|x| - |y|) := by
  have hopposite : signum y = -signum x := by
    rcases signum_eq_or x with hx | hx <;> rcases signum_eq_or y with hy | hy <;> simp_all
  have hx := signum_mul_abs x
  have hy := signum_mul_abs y
  rw [hopposite] at hy
  linear_combination -hx - hy

/-! ### One fill -/

@[simp] theorem PositionState.afterFill_quantity (pos : PositionState)
    (signed shares price commission : ℚ) :
    (pos.afterFill signed shares price commission).1.quantity = pos.quantity + signed := by
  unfold afterFill
  split <;> rfl

@[simp] theorem PositionState.afterFill_symbol (pos : PositionState)
    (signed shares price commission : ℚ) :
    (pos.afterFill signed shares price commission).1.symbol = pos.symbol := by
  unfold afterFill
  split <;> rfl

/-- Shares added to a position on its side. -/
theorem cost_of_adding {pos : PositionState} {signed shares : ℚ} (price : ℚ) (hshares : 0 < shares)
    (habs : |signed| = shares) (hside : signum pos.quantity = signum signed ∨ pos.quantity = 0) :
    (pos.quantity + signed) *
      ((pos.avgCost * |pos.quantity| + price * shares) / |pos.quantity + signed|) =
      pos.quantity * pos.avgCost + signed * price ∧ 0 < |pos.quantity + signed| := by
  have hsigned : signum signed * shares = signed := habs ▸ signum_mul_abs signed
  have hquantity : signum signed * |pos.quantity| = pos.quantity := by
    rcases hside with h | h
    · exact h ▸ signum_mul_abs pos.quantity
    · simp [h]
  have hpos : 0 < |pos.quantity| + shares := add_pos_of_nonneg_of_pos (abs_nonneg _) hshares
  have hsum : pos.quantity + signed = signum signed * (|pos.quantity| + shares) := by
    rw [mul_add, hquantity, hsigned]
  have hsumabs : |pos.quantity + signed| = |pos.quantity| + shares := by
    rw [hsum, abs_signum_mul, abs_of_pos hpos]
  refine ⟨?_, hsumabs ▸ hpos⟩
  calc (pos.quantity + signed) *
    ((pos.avgCost * |pos.quantity| + price * shares) / |pos.quantity + signed|)
      = signum signed * (pos.avgCost * |pos.quantity| + price * shares) := by
        rw [hsumabs, hsum]
        field_simp
    _ = pos.quantity * pos.avgCost + signed * price := by
        linear_combination pos.avgCost * hquantity + price * hsigned

/-- The average cost that closing shares leave. -/
def closedCost (pos : PositionState) (signed price : ℚ) : ℚ :=
  if pos.quantity + signed = 0 then 0
  else if signum (pos.quantity + signed) ≠ signum pos.quantity then price
  else pos.avgCost

/-- Shares that close a position, and open one on the other side if they are more. -/
theorem cost_of_closing {pos : PositionState} {signed shares : ℚ} (price : ℚ) (habs : |signed| = shares)
    (hside : signum pos.quantity ≠ signum signed) :
    (pos.quantity + signed) * closedCost pos signed price =
      pos.quantity * pos.avgCost + signed * price +
        (price - pos.avgCost) * min shares |pos.quantity| * signum pos.quantity := by
  have hquantity := signum_mul_abs pos.quantity
  have hsum : pos.quantity + signed = signum pos.quantity * (|pos.quantity| - shares) :=
    habs ▸ add_of_signum_ne hside
  have hsigned : signed = -(signum pos.quantity * shares) := by linear_combination hsum + hquantity
  unfold closedCost
  rcases lt_trichotomy shares |pos.quantity| with hless | hall | hmore
  · -- A part is closed.
    have hsame : signum (pos.quantity + signed) = signum pos.quantity := by
      rw [hsum]
      exact signum_signum_mul (sub_pos.mpr hless)
    have hne : pos.quantity + signed ≠ 0 := by
      rw [hsum]
      refine mul_ne_zero ?_ (sub_pos.mpr hless).ne'
      rcases signum_eq_or pos.quantity with h | h <;> rw [h] <;> norm_num
    rw [if_neg hne, if_neg (not_not.mpr hsame), min_eq_left hless.le]
    linear_combination (pos.avgCost - price) * hsigned
  · -- All of it is closed.
    have hzero : pos.quantity + signed = 0 := by rw [hsum, hall, sub_self, mul_zero]
    rw [if_pos hzero, hall, min_self]
    linear_combination (pos.avgCost - price) * hquantity - price * hzero
  · -- All of it is closed, and the rest is opened.
    have hflip : signum (pos.quantity + signed) ≠ signum pos.quantity := by
      rw [hsum]
      exact signum_signum_mul_neg (sub_neg.mpr hmore)
    have hne : pos.quantity + signed ≠ 0 := by
      rw [hsum]
      refine mul_ne_zero ?_ (sub_neg.mpr hmore).ne
      rcases signum_eq_or pos.quantity with h | h <;> rw [h] <;> norm_num
    rw [if_neg hne, if_pos hflip, min_eq_right hmore.le]
    linear_combination (pos.avgCost - price) * hquantity

/-- What becomes of the cost of a position in a fill: the notional comes in, the realized profit is
    taken, and with it the commission on the shares that are closed. -/
theorem PositionState.afterFill_cost (pos : PositionState) {signed shares : ℚ} (hshares : 0 < shares)
    (habs : |signed| = shares) (price commission : ℚ) :
    (pos.afterFill signed shares price commission).1.quantity *
        (pos.afterFill signed shares price commission).1.avgCost =
      pos.quantity * pos.avgCost + signed * price +
        (pos.afterFill signed shares price commission).2.getD 0 +
          commission * (1 - opening pos.quantity signed / |signed|) := by
  rw [habs]
  unfold afterFill opening
  by_cases hside : signum pos.quantity = signum signed ∨ pos.quantity = 0
  · obtain ⟨hcost, hpos⟩ := cost_of_adding price hshares habs hside
    have hopen : ¬pos.quantity * signed < 0 := by
      rcases hside with h | h
      · rw [← signum_mul_abs pos.quantity, ← signum_mul_abs signed, h, not_lt]
        nlinarith [signum_mul_self signed, mul_nonneg (abs_nonneg pos.quantity) (abs_nonneg signed)]
      · simp [h]
    rw [if_pos hside, if_neg hopen, habs]
    simp only [if_pos hpos, Option.getD_none]
    rw [hcost, div_self hshares.ne']
    ring
  · obtain ⟨hdiffer, hne⟩ := not_or.mp hside
    have hopen : pos.quantity * signed < 0 := by
      have hquantity := abs_pos.mpr hne
      rcases signum_eq_or pos.quantity with h | h <;> rcases signum_eq_or signed with h' | h' <;>
        first
        | exact absurd (h.trans h'.symm) hdiffer
        | (rw [← signum_mul_abs pos.quantity, ← signum_mul_abs signed, h, h', habs]; nlinarith)
    have hcost := cost_of_closing price habs hdiffer
    rw [if_neg hside, if_pos hopen, habs]
    simp only [Option.getD_some]
    rw [← closedCost, hcost]
    field_simp
    ring

end Midas.Broker
