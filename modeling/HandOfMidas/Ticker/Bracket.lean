import Mathlib.Algebra.Order.Round
import Mathlib.Data.Rat.Floor
import Mathlib.Tactic.Linarith

/-! Order brackets of the desktop app (crate `midas-annotation-types`), the helpers that its order
    panel applies to them and the prices of a fresh draft. Prices are `f64`s, of which only the
    operations are known here. -/

namespace Midas.Ticker

/-- `f64`: its literals, operations, comparisons and texts. The one law, which NaN and the infinities
    meet too: no number is farther than a positive one from itself. -/
class F64 (F : Type) extends Add F, Sub F, Mul F, Div F where
  lit : ℚ → F
  abs : F → F
  max : F → F → F
  ltb : F → F → Bool
  leb : F → F → Bool
  isFinite : F → Bool
  parse : String → Option F
  display : F → String
  fixed2 : F → String
  gap_self : ∀ x g : F, ltb (lit (1 / 1000000000)) g = true → ltb g (abs (x - x)) = false

/-- Exact arithmetic, reading whole numbers only. -/
instance : F64 ℚ where
  lit q := q
  abs q := |q|
  max := max
  ltb a b := decide (a < b)
  leb a b := decide (a ≤ b)
  isFinite _ := true
  parse text := text.toInt?.map Int.cast
  display q := toString q
  fixed2 q :=
    let cents := (round (q * 100)).natAbs
    (if q < 0 then "-" else "") ++ toString (cents / 100) ++ "." ++
      (if cents % 100 < 10 then "0" else "") ++ toString (cents % 100)
  gap_self x g h := by
    simp only [decide_eq_true_eq] at h
    simp only [sub_self, abs_zero, decide_eq_false_iff_not, not_lt]
    linarith

/-- `EntryType`. -/
inductive EntryType where | market | limit | stop | stopLimit
  deriving DecidableEq

/-- `OrderSide` of the order panel. -/
inductive OrderSide where | buy | sell
  deriving DecidableEq

/-- `BracketSide` of the chart. -/
inductive BracketSide where | long | short
  deriving DecidableEq

/-- `BracketStatus`. -/
inductive BracketStatus where | draft | pending | partialFill | active | closed | cancelled
  deriving DecidableEq

/-- `LegRole`. -/
inductive LegRole where | entry | takeProfit | stopLoss | stopTrigger
  deriving DecidableEq

/-- `BracketLeg`: the price of its line, without the extent and the stroke it is drawn with. -/
structure BracketLeg (F : Type) where
  price : F
  role : LegRole
  projectedPnl : Option F
  projectedPnlPct : Option F
  deriving DecidableEq

/-- `OrderBracket`. -/
structure OrderBracket (F : Type) where
  entry : BracketLeg F
  takeProfit : Option (BracketLeg F)
  stopLoss : Option (BracketLeg F)
  side : BracketSide
  status : BracketStatus
  quantity : Option F
  saved : Bool
  filledQty : Option F
  entryType : EntryType
  entryStopPrice : Option F
  wrongSideWarning : Bool
  deriving DecidableEq

variable {F : Type}

/-- `make_leg`. -/
def makeLeg (price : F) (role : LegRole) : BracketLeg F := ⟨price, role, none, none⟩

/-- `to_bracket_side`. -/
def toBracketSide : OrderSide → BracketSide
  | .buy => .long
  | .sell => .short

/-- Setting the price of a leg. -/
def BracketLeg.at (leg : BracketLeg F) (price : F) : BracketLeg F := { leg with price }

section
variable [F64 F]

/-- `f64::EPSILON`. -/
def epsilon : F := F64.lit (1 / 2 ^ 52)

/-- `normalize_bracket`. -/
def normalizeBracket (b : OrderBracket F) : OrderBracket F :=
  { b with
    entryStopPrice :=
      match b.entryType with
      | .market | .limit | .stop => none
      | .stopLimit => if b.entryStopPrice.isNone then some b.entry.price else b.entryStopPrice
    takeProfit := b.takeProfit.filter fun tp => !F64.leb tp.price (F64.lit 0)
    stopLoss := b.stopLoss.filter fun sl => !F64.leb sl.price (F64.lit 0)
    status := if F64.leb b.entry.price (F64.lit 0) then .cancelled else b.status }

/-- `should_reposition`. -/
def shouldReposition (entryPrice currentPrice : F) (gatrAbs : Option F) : Bool :=
  let threshold :=
    gatrAbs.getD (F64.max (F64.abs currentPrice * F64.lit (5 / 100)) (F64.lit (1 / 100)))
  F64.ltb threshold (F64.abs (entryPrice - currentPrice))

/-- Every price of a bracket moved by `delta`. -/
def shiftBracket (b : OrderBracket F) (delta : F) : OrderBracket F :=
  { b with
    entry := b.entry.at (b.entry.price + delta)
    entryStopPrice := b.entryStopPrice.map (· + delta)
    takeProfit := b.takeProfit.map fun tp => tp.at (tp.price + delta)
    stopLoss := b.stopLoss.map fun sl => sl.at (sl.price + delta) }

/-- `reposition_bracket`. -/
def repositionBracket (b : OrderBracket F) (currentPrice : F) : OrderBracket F :=
  shiftBracket b (currentPrice - b.entry.price)

/-- `InitialPrices`. -/
structure InitialPrices (F : Type) where
  entry : F
  stopTrigger : Option F
  takeProfit : F
  stopLoss : F

/-- `resolve_step`. -/
def resolveStep (currentPrice : F) (gatrAbs : Option F) : F :=
  let fallback := F64.abs currentPrice * F64.lit (5 / 1000)
  let step :=
    match gatrAbs with
    | some g => if F64.isFinite g && F64.ltb (F64.lit 0) g then g else fallback
    | none => fallback
  F64.max step (F64.lit (1 / 100))

/-- `default_initial_prices`. -/
def defaultInitialPrices (side : OrderSide) (entryType : EntryType) (currentPrice : F)
    (gatrAbs : Option F) : InitialPrices F :=
  let step := resolveStep currentPrice gatrAbs
  let (entry, stopTrigger) :=
    match side, entryType with
    | .buy, .market => (currentPrice, none)
    | .sell, .market => (currentPrice, none)
    | .buy, .limit => (currentPrice - step, none)
    | .sell, .limit => (currentPrice + step, none)
    | .buy, .stop => (currentPrice + step, none)
    | .sell, .stop => (currentPrice - step, none)
    | .buy, .stopLimit => (currentPrice + F64.lit (3 / 2) * step, some (currentPrice + step))
    | .sell, .stopLimit => (currentPrice - F64.lit (3 / 2) * step, some (currentPrice - step))
  let (takeProfit, stopLoss) :=
    match side with
    | .buy => (entry + F64.lit 2 * step, entry - step)
    | .sell => (entry - F64.lit 2 * step, entry + step)
  { entry, stopTrigger, takeProfit, stopLoss }

end

/-- The statuses of a bracket that the broker holds an order for. -/
def BracketStatus.isSubmitted : BracketStatus → Bool
  | .pending | .partialFill | .active => true
  | .draft | .closed | .cancelled => false

end Midas.Ticker
