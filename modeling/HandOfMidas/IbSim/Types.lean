import HandOfMidas.Core.Symbol

/-! The messages of the IB simulator's order side (`engine/types.rs`): what a client asks for and
    what the order simulator emits. Instants and durations are counted in nanoseconds. Every random draw
    comes from a generator of its own (`orders/determinism.rs`), seeded from the base seed, the order,
    what is drawn and a step index; the generator itself (`ChaCha8Rng`) is third-party code and stays a
    parameter. -/

namespace Midas.IbSim

/-- `OrderId`: 32 bits, to match the wire protocol. -/
abbrev OrderId := Int32

/-- `VirtualInstant`: time since session start. -/
abbrev VirtualInstant := ℕ

abbrev Duration := ℕ

/-- `Duration::from_millis`. -/
def fromMillis (ms : ℕ) : Duration := ms * 1000000

inductive Side where | buy | sell
  deriving DecidableEq, Repr

/-- Shares counted with the sign of the side. -/
def Side.signed (shares : ℚ) : Side → ℚ
  | .buy => shares
  | .sell => -shares

inductive OrderKind where | market | limit | stop | stopLimit
  deriving DecidableEq, Repr

inductive OrderStatusCode where
  | apiPending | pendingSubmit | preSubmitted | submitted | filled | partiallyFilled | cancelled
  | apiCancelled | inactive
  deriving DecidableEq, Repr

structure PlaceOrderReq where
  orderId : OrderId
  contract : ContractSpec
  side : Side
  totalQuantity : ℚ
  kind : OrderKind
  limitPrice : Option ℚ
  auxPrice : Option ℚ
  tif : String
  account : String
  parentId : Option OrderId
  ocaGroup : Option String
  transmit : Bool

/-- The `openOrder` callback. -/
structure OpenOrder where
  orderId : OrderId
  contract : ContractSpec
  side : Side
  totalQuantity : ℚ
  kind : OrderKind
  limitPrice : Option ℚ
  auxPrice : Option ℚ
  status : OrderStatusCode
  tif : String
  account : String
  parentId : Option OrderId
  ocaGroup : Option String
  deriving DecidableEq

/-- The `orderStatus` callback. -/
structure OrderStatus where
  orderId : OrderId
  status : OrderStatusCode
  filled : ℚ
  remaining : ℚ
  avgFillPrice : ℚ
  permId : Int32
  parentId : Int32
  lastFillPrice : ℚ
  clientId : Int32 := 0
  whyHeld : String := ""
  mktCapPrice : Option ℚ := none
  deriving DecidableEq

/-- The `execDetails` callback. -/
structure Execution where
  reqId : Option Int32 := none
  orderId : OrderId
  execId : String
  time : VirtualInstant
  acctNumber : String
  exchange : String := "SMART"
  side : Side
  shares : ℚ
  price : ℚ
  permId : Int32
  clientId : Int32 := 0
  liquidation : Int32 := 0
  cumulativeQuantity : ℚ
  avgPrice : ℚ
  orderRef : Option String := none
  contract : ContractSpec
  deriving DecidableEq

/-- The `commissionReport` callback. -/
structure CommissionReport where
  execId : String
  commission : ℚ
  currency : String := "USD"
  realizedPnl : Option ℚ := none
  yield : Option ℚ := none
  yieldRedemptionDate : Option Int32 := none
  deriving DecidableEq

structure PositionUpdate where
  account : String
  contract : ContractSpec
  position : ℚ
  avgCost : ℚ
  deriving DecidableEq

structure PortfolioValueUpdate where
  contract : ContractSpec
  position : ℚ
  marketPrice : ℚ
  marketValue : ℚ
  averageCost : ℚ
  unrealizedPnl : ℚ
  realizedPnl : ℚ
  account : String
  deriving DecidableEq

/-- `OrderEmission`, as far as the order simulator emits it. -/
inductive OrderEmission where
  | openOrder (o : OpenOrder)
  | orderStatus (m : OrderStatus)
  | execution (x : Execution)
  | commission (c : CommissionReport)
  | reject (orderId : OrderId) (code : Int32) (message : String)
  | position (p : PositionUpdate)
  | portfolioValue (v : PortfolioValueUpdate)
  deriving DecidableEq

/-- What the order simulator reads of the market on each update. -/
structure MarketSnapshot where
  symbol : SymbolKey
  mid : ℚ
  bid : ℚ
  ask : ℚ
  ts : VirtualInstant

end Midas.IbSim

/-! ### Seeding -/

namespace Midas.IbSim

inductive DrawKind where
  | patternSelection | patternJitter | slippage | commission | partialChunking | bracketActivation
  | ocaCancel
  deriving DecidableEq

/-- `draw_kind as u64`. -/
def DrawKind.toUInt64 : DrawKind → UInt64
  | .patternSelection => 0
  | .patternJitter => 1
  | .slippage => 2
  | .commission => 3
  | .partialChunking => 4
  | .bracketActivation => 5
  | .ocaCancel => 6

def splitmix64 (x : UInt64) : UInt64 :=
  let x := x + 0x9E3779B97F4A7C15
  let z := x
  let z := (z ^^^ (z >>> 30)) * 0xBF58476D1CE4E5B9
  let z := (z ^^^ (z >>> 27)) * 0x94D049BB133111EB
  z ^^^ (z >>> 31)

/-- Fold the four inputs into one seed. The order id is sign-extended, the step index is not. -/
def seed64 (baseSeed : UInt64) (orderId : OrderId) (drawKind : DrawKind) (stepIdx : UInt32) :
    UInt64 :=
  let acc := splitmix64 baseSeed
  let acc := splitmix64 (acc ^^^ orderId.toInt64.toUInt64)
  let acc := splitmix64 (acc ^^^ drawKind.toUInt64)
  splitmix64 (acc ^^^ stepIdx.toUInt64)

example : seed64 42 7 .patternJitter 2 = 0x259fc1d000a9b1a0 := by decide +kernel

/-- What is used of the random-number crates: the words that a generator seeded with a `u64` gives
    one after the other, and the sample of `Exp::new(rate)` from a fresh one. Nothing is assumed of
    either, so a result about every `Rng` is one about every outcome of the draws. -/
structure Rng where
  word : UInt64 → ℕ → UInt32
  exp : ℚ → UInt64 → ℚ

namespace Rng

variable (rng : Rng) (seed : UInt64) (i : ℕ)

/-- `gen::<u32>()` as the draw that starts at word `i`. -/
def genU32 : UInt32 := rng.word seed i

/-- `gen::<u64>()`: two words, the low half first. -/
def genU64 : UInt64 := (rng.word seed i).toUInt64 ||| ((rng.word seed (i + 1)).toUInt64 <<< 32)

/-- `gen::<f64>()`: the upper 53 bits of a `u64`, as a fraction of `2 ^ 53`. -/
def genF64 : ℚ := (rng.genU64 seed i >>> 11).toNat / 2 ^ 53

end Rng

/-- The seed of the generator that `rng_for` makes. -/
abbrev rngFor := seed64

end Midas.IbSim
