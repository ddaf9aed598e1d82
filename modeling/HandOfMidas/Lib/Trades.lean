import Mathlib.Algebra.BigOperators.Group.List.Basic
import Mathlib.Algebra.Order.Field.Basic

/-! Trades in several symbols, and the positions they add up to. A trade against the position closes as
    many shares as both have, and opens the rest. -/

namespace Midas

/-- A trade. Its shares are counted with a sign: sold ones are negative. -/
structure Trade (κ α : Type*) where
  symbol : κ
  signed : α
  price : α
  commission : α

namespace Trade

variable {κ α : Type*} [DecidableEq κ] [Field α] [LinearOrder α]

/-- The position in a symbol after these trades. -/
def quantityOf (trades : List (Trade κ α)) (symbol : κ) : α :=
  ((trades.filter (·.symbol = symbol)).map (·.signed)).sum

/-- The shares of a trade that open a position, or add to one, when the position is `quantity`. -/
def opening (quantity signed : α) : α :=
  if quantity * signed < 0 then |signed| - min |signed| |quantity| else |signed|

/-- The part of the commission that falls to these shares. -/
def openingFee (quantity : α) (t : Trade κ α) : α :=
  t.commission * (opening quantity t.signed / |t.signed|)

/-- The commissions of opened shares in `trades`, which come after `before`. -/
def openingFeesAfter (before : List (Trade κ α)) : List (Trade κ α) → α
  | [] => 0
  | t :: trades =>
    openingFee (quantityOf before t.symbol) t + openingFeesAfter (before ++ [t]) trades

/-- The commissions, or parts of them, of the shares that opened a position or added to one. -/
def openingFees (trades : List (Trade κ α)) : α := openingFeesAfter [] trades

omit [LinearOrder α] in
theorem quantityOf_concat (trades : List (Trade κ α)) (t : Trade κ α) (symbol : κ) :
    quantityOf (trades ++ [t]) symbol =
      quantityOf trades symbol + if t.symbol = symbol then t.signed else 0 := by
  unfold quantityOf
  by_cases h : t.symbol = symbol <;> simp [h]

theorem openingFeesAfter_concat (before trades : List (Trade κ α)) (t : Trade κ α) :
    openingFeesAfter before (trades ++ [t]) =
      openingFeesAfter before trades + openingFee (quantityOf (before ++ trades) t.symbol) t := by
  induction trades generalizing before with
  | nil => simp [openingFeesAfter]
  | cons u trades ih =>
    rw [List.cons_append, openingFeesAfter, openingFeesAfter, ih, List.append_assoc,
      List.singleton_append, add_assoc]

theorem openingFees_concat (trades : List (Trade κ α)) (t : Trade κ α) :
    openingFees (trades ++ [t]) = openingFees trades + openingFee (quantityOf trades t.symbol) t := by
  simpa [openingFees] using openingFeesAfter_concat [] trades t

end Trade

end Midas
