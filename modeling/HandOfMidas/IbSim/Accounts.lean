import HandOfMidas.Lib.Store
import HandOfMidas.IbSim.Types
import Mathlib.Algebra.Order.Field.Rat
import Mathlib.Algebra.Order.Group.Unbundled.Abs

/-! Account, positions and P&L of the IB simulator (`orders/accounts.rs`). -/

namespace Midas.IbSim

structure Position where
  contract : Option ContractSpec := none
  shares : ℚ := 0
  avgCost : ℚ := 0
  realizedPnl : ℚ := 0
  lastMid : ℚ := 0
  deriving DecidableEq

namespace Position

def marketValue (p : Position) : ℚ := p.shares * p.lastMid

def unrealizedPnl (p : Position) : ℚ := p.shares * (p.lastMid - p.avgCost)

/-- Is a fill of `signedShares` on the side the position is already on? -/
def SameSide (p : Position) (signedShares : ℚ) : Prop :=
  signum p.shares = signum signedShares ∨ p.shares = 0

instance (p : Position) (signedShares : ℚ) : Decidable (p.SameSide signedShares) :=
  inferInstanceAs (Decidable (_ ∨ _))

/-- The profit that a fill realizes by closing (part of) the position. -/
def closingPnl (p : Position) (signedShares shares price : ℚ) : ℚ :=
  if p.SameSide signedShares then 0
  else if signum p.shares = 1 then (price - p.avgCost) * min shares |p.shares|
  else (p.avgCost - price) * min shares |p.shares|

/-- The average cost after a fill, before a flat position is reset. -/
def costAfter (p : Position) (signedShares shares price : ℚ) : ℚ :=
  if p.SameSide signedShares then
    if 0 < |p.shares| + shares then (|p.shares| * p.avgCost + shares * price) / (|p.shares| + shares)
    else 0
  else if |p.shares| < shares then price
  else p.avgCost

/-- The position after a fill. A remainder below `f64::EPSILON` is one of rounding; in exact
    arithmetic the test is the one for zero. -/
def afterFill (p : Position) (contract : ContractSpec) (signedShares shares price : ℚ) : Position :=
  let newShares := p.shares + signedShares
  { contract := some contract
    shares := newShares
    avgCost := if newShares = 0 then 0 else p.costAfter signedShares shares price
    realizedPnl := p.realizedPnl + p.closingPnl signedShares shares price
    lastMid := price }

@[simp] theorem afterFill_shares (p : Position) (contract : ContractSpec)
    (signedShares shares price : ℚ) :
    (p.afterFill contract signedShares shares price).shares = p.shares + signedShares := rfl

end Position

structure AccountState where
  account : String
  cash : ℚ
  realizedPnl : ℚ
  positions : Store (Prod.fst : SymbolKey × Position → SymbolKey)

namespace AccountState

def new (account : String) (startingCash : ℚ) : AccountState := ⟨account, startingCash, 0, Store.empty⟩

/-- The position in a symbol, flat when there is none yet. -/
def position (a : AccountState) (k : SymbolKey) : Position :=
  ((a.positions.get? k).map Prod.snd).getD {}

def applyFill (symbolKey : SymbolKey) (contract : ContractSpec) (side : Side) (shares price : ℚ)
    (a : AccountState) : (PositionUpdate × PortfolioValueUpdate) × AccountState :=
  let before := a.position symbolKey
  let signedShares := side.signed shares
  let pos := before.afterFill contract signedShares shares price
  let notional := price * shares
  ((⟨a.account, contract, pos.shares, pos.avgCost⟩,
    { contract := contract
      position := pos.shares
      marketPrice := pos.lastMid
      marketValue := pos.marketValue
      averageCost := pos.avgCost
      unrealizedPnl := pos.unrealizedPnl
      realizedPnl := pos.realizedPnl
      account := a.account }),
   { a with
     cash := match side with
       | .buy => a.cash - notional
       | .sell => a.cash + notional
     realizedPnl := a.realizedPnl + before.closingPnl signedShares shares price
     positions := a.positions.put (symbolKey, pos) })

variable (a : AccountState) (symbolKey : SymbolKey) (contract : ContractSpec) (side : Side)
  (shares price : ℚ)

theorem position_applyFill :
    (a.applyFill symbolKey contract side shares price).2.position symbolKey =
      (a.position symbolKey).afterFill contract (side.signed shares) shares price := by
  show ((Option.map Prod.snd ((a.positions.put (symbolKey, _)).get? symbolKey)).getD {}) = _
  rw [show symbolKey = Prod.fst (symbolKey, (a.position symbolKey).afterFill contract
    (side.signed shares) shares price) from rfl, Store.get?_put_self]
  rfl

theorem position_applyFill_of_ne {k : SymbolKey} (h : k ≠ symbolKey) :
    (a.applyFill symbolKey contract side shares price).2.position k = a.position k := by
  show ((Option.map Prod.snd ((a.positions.put (symbolKey, _)).get? k)).getD {}) = _
  rw [Store.get?_put_of_ne _ h]
  rfl

/-- A fill moves its own position by the signed shares. -/
theorem shares_applyFill :
    ((a.applyFill symbolKey contract side shares price).2.position symbolKey).shares =
      (a.position symbolKey).shares + side.signed shares := by
  rw [position_applyFill, Position.afterFill_shares]

end AccountState

section SymbolKeys

/-- Fold bytes into a running `u64`, closed by their number. -/
def mixBytes (acc : UInt64) (bytes : List UInt8) : UInt64 :=
  splitmix64 (bytes.foldl (fun acc b => splitmix64 (acc ^^^ b.toUInt64)) acc
    ^^^ UInt64.ofNat bytes.length)

def mixStr (acc : UInt64) (s : String) : UInt64 := mixBytes acc s.toUTF8.toList

/-- `symbol_key_for`: the symbol key of a contract, with a contract id hashed from its fields. -/
def symbolKeyFor (contract : ContractSpec) : SymbolKey :=
  let acc : UInt64 := splitmix64 0xA55AA55A5AA55AA5
  let acc : UInt64 :=
    match contract with
    | .stock symbol exchange currency =>
      mixStr (mixStr (mixStr (splitmix64 (acc ^^^ 1)) symbol) exchange) currency
    | .option symbol expiry strikeBits right exchange =>
      let acc := mixStr (mixStr (splitmix64 (acc ^^^ 2)) symbol) expiry
      let acc := splitmix64 (acc ^^^ strikeBits)
      let acc := splitmix64 (acc ^^^ match right with
        | .call => 0xC
        | .put => 0xD)
      mixStr acc exchange
    | .future symbol expiry exchange =>
      mixStr (mixStr (mixStr (splitmix64 (acc ^^^ 3)) symbol) expiry) exchange
    | .forex pair => mixStr (splitmix64 (acc ^^^ 4)) pair
  ⟨(acc &&& 0x7FFFFFFF).toUInt32.toInt32, contract.symbol⟩

example : symbolKeyFor (.stock "AAPL" "SMART" "USD") = ⟨0x6DCB34D9, "AAPL"⟩ := by decide +kernel

end SymbolKeys

end Midas.IbSim
