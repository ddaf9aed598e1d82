import Mathlib.Data.Rat.Floor

/-! Identifiers shared by the broker and the IB simulator (crate `midas-broker-core`). Prices,
    quantities and money are `f64` in the source and exact rationals here. -/

namespace Midas

/-- `SymbolKey`: a symbol and the contract id it trades under. -/
structure SymbolKey where
  contractId : Int32
  symbol : String
  deriving DecidableEq, Inhabited

inductive OptionRight where | call | put
  deriving DecidableEq

/-- `ContractSpec`. The strike is an `OrderedFloat<f64>`; only its bit pattern is ever looked at,
    so it is kept as that. -/
inductive ContractSpec where
  | stock (symbol exchange currency : String)
  | option (symbol expiry : String) (strikeBits : UInt64) (right : OptionRight) (exchange : String)
  | future (symbol expiry exchange : String)
  | forex (pair : String)
  deriving DecidableEq

/-- The primary symbol of any contract type. -/
def ContractSpec.symbol : ContractSpec → String
  | .stock symbol _ _ => symbol
  | .option symbol _ _ _ _ => symbol
  | .future symbol _ _ => symbol
  | .forex pair => pair

/-- `f64::signum` at exact arithmetic: zero counts as positive. -/
def signum (x : ℚ) : ℚ := if x < 0 then -1 else 1

/-- `f64::round`: to the nearest integer, halves away from zero. -/
def roundHalfAway (x : ℚ) : ℤ := if x < 0 then -⌊-x + 1 / 2⌋ else ⌊x + 1 / 2⌋

/-- The `as u64` cast of an already integral value, which saturates at both ends. -/
def asU64 (x : ℤ) : ℕ := min x.toNat (2 ^ 64 - 1)

end Midas
