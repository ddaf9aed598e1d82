import Mathlib.Data.String.Basic
import Mathlib.Data.Nat.Bitwise
import HandOfMidas.Broker.OrderClient

/-! A local order (`orders/types/mod.rs`), the row of the `orders` table that mirrors it
    (`persist/order_repo/mod.rs`) and the conversion from the one to the other. The texts that
    other crates make of their own values (UUIDs, RFC 3339 timestamps, JSON) are a parameter; those
    of the repository's own enumerations stand here. -/

namespace Midas.Broker

/-! ### Texts of the enumerations -/

def OrderStatus.toText : OrderStatus → String
  | .draft => "Draft"
  | .inactive => "Inactive"
  | .pendingSubmit => "PendingSubmit"
  | .preSubmitted => "PreSubmitted"
  | .submitted => "Submitted"
  | .partiallyFilled => "PartiallyFilled"
  | .filled => "Filled"
  | .pendingCancel => "PendingCancel"
  | .cancelled => "Cancelled"
  | .rejected => "Rejected"
  | .error => "Error"

def OrderAction.toText : OrderAction → String
  | .buy => "BUY"
  | .sell => "SELL"

def OrderKind.toText : OrderKind → String
  | .market => "MKT"
  | .limit => "LMT"
  | .stop => "STP"
  | .stopLimit => "STP LMT"
  | .trailingStop => "TRAIL"

def TimeInForce.toText : TimeInForce → String
  | .day => "DAY"
  | .gtc => "GTC"
  | .ioc => "IOC"
  | .gtd => "GTD"
  | .opg => "OPG"

/-- Two statuses never share a text. -/
theorem OrderStatus.toText_injective : Function.Injective OrderStatus.toText := by
  intro a b h
  cases a <;> cases b <;> first | rfl | exact absurd h (by decide)

end Midas.Broker

namespace Midas.Persist

open Midas.Broker

inductive SecurityType where | stock | option | future | forex
  deriving DecidableEq, Repr

def SecurityType.toText : SecurityType → String
  | .stock => "STK"
  | .option => "OPT"
  | .future => "FUT"
  | .forex => "CASH"

/-- Role of an order within a bracket group. -/
inductive BracketRole where | parent | takeProfit | stopLoss
  deriving DecidableEq, Repr

def BracketRole.toText : BracketRole → String
  | .parent => "PARENT"
  | .takeProfit => "TAKE_PROFIT"
  | .stopLoss => "STOP_LOSS"

abbrev Uuid := BitVec 128

/-- `DateTime<Utc>`, in nanoseconds since the epoch. -/
abbrev UtcTime := ℤ

/-- What other crates write of their values: UUIDs (two UUIDs never share a text), RFC 3339
    timestamps, and JSON, which may fail. `γ` is `serde_json::Value`. -/
structure TextFormats (γ : Type) where
  uuid : Uuid → String
  uuid_injective : Function.Injective uuid
  rfc3339 : UtcTime → String
  jsonTags : List String → Option String
  jsonValue : γ → Option String

/-- `LocalOrder`. -/
structure LocalOrder (γ : Type) where
  id : Uuid
  ibOrderId : Option Int32 := none
  ibPermId : Option Int64 := none
  symbol : String
  conId : Option Int32 := none
  secType : SecurityType := .stock
  exchange : String := "SMART"
  currency : String := "USD"
  action : OrderAction
  orderType : OrderKind
  quantity : ℚ
  limitPrice : Option ℚ := none
  stopPrice : Option ℚ := none
  trailAmount : Option ℚ := none
  trailPercent : Option ℚ := none
  tif : TimeInForce := .day
  status : OrderStatus := .draft
  parentId : Option Uuid := none
  ocaGroup : Option String := none
  bracketRole : Option BracketRole := none
  strategy : Option String := none
  tags : List String := []
  algoStrategy : Option String := none
  algoParams : Option γ := none
  outsideRth : Bool := false
  filledQty : ℚ := 0
  remainingQty : ℚ := quantity
  avgFillPrice : Option ℚ := none
  lastFillPrice : Option ℚ := none
  commission : Option ℚ := none
  activationCount : Int32 := 0
  lastActivatedAt : Option UtcTime := none
  lastDeactivatedAt : Option UtcTime := none
  createdAt : UtcTime
  updatedAt : UtcTime

/-- `OrderRow`, a row of the `orders` table. -/
structure OrderRow where
  localId : String
  ibOrderId : Option Int32
  ibPermId : Option Int64
  status : String
  symbol : String
  secType : String
  exchange : String
  currency : String
  conId : Option Int32
  action : String
  orderType : String
  quantity : ℚ
  filledQty : ℚ
  remainingQty : ℚ
  limitPrice : Option ℚ
  stopPrice : Option ℚ
  trailAmount : Option ℚ
  trailPercent : Option ℚ
  tif : String
  parentId : Option String
  ocaGroup : Option String
  bracketRole : Option String
  strategy : Option String
  tags : Option String
  algoStrategy : Option String
  algoParams : Option String
  outsideRth : Bool
  avgFillPrice : Option ℚ
  lastFillPrice : Option ℚ
  commission : Option ℚ
  activationCount : Int32
  lastActivatedAt : Option String
  lastDeactivatedAt : Option String
  createdAt : String
  updatedAt : String
  deriving DecidableEq

/-! ### The text of a UUID -/

def hexDigit (n : ℕ) : Char := "0123456789abcdef".toList.getD n '0'

/-- The `i`-th hexadecimal digit, counted from the lowest. -/
def nibble (u : Uuid) (i : ℕ) : ℕ := u.toNat / 2 ^ (4 * i) % 16

/-- The `len` digits below digit `hi`, highest first. -/
def hexDigits (u : Uuid) (hi len : ℕ) : List Char :=
  (List.range len).map fun i => hexDigit (nibble u (hi - 1 - i))

/-- Five groups of lower-case hexadecimal digits. -/
def hyphenated (u : Uuid) : String :=
  String.ofList (hexDigits u 32 8 ++ '-' :: (hexDigits u 24 4 ++ '-' :: (hexDigits u 20 4 ++
    '-' :: (hexDigits u 16 4 ++ '-' :: hexDigits u 12 12))))

example : hyphenated 0x0123456789abcdef0123456789abcdef = "01234567-89ab-cdef-0123-456789abcdef" := by
  decide +kernel

theorem hexDigit_inj {a b : ℕ} (ha : a < 16) (hb : b < 16) (h : hexDigit a = hexDigit b) : a = b := by
  have hall : ∀ a b : Fin 16, hexDigit a = hexDigit b → a = b := by decide
  exact congrArg Fin.val (hall ⟨a, ha⟩ ⟨b, hb⟩ h)

theorem eq_of_nibble {u v : Uuid} (h : ∀ i < 32, nibble u i = nibble v i) : u = v := by
  apply BitVec.eq_of_getLsbD_eq
  intro i hi
  have hn := congrArg (fun n => n.testBit (i % 4)) (h (i / 4) (by omega))
  have hlt : i % 4 < 4 := Nat.mod_lt _ (by omega)
  simp only [nibble, show (16 : ℕ) = 2 ^ 4 from rfl, Nat.testBit_mod_two_pow,
    Nat.testBit_div_two_pow, hlt, decide_true, Bool.true_and,
    show i % 4 + 4 * (i / 4) = i by omega] at hn
  exact hn

theorem nibble_eq_of_hexDigits {u v : Uuid} {hi len : ℕ} (h : hexDigits u hi len = hexDigits v hi len)
    {i : ℕ} (hlo : hi ≤ i + len) (hhi : i < hi) : nibble u i = nibble v i := by
  have hmem : hi - 1 - i ∈ List.range len := List.mem_range.mpr (by omega)
  have hdigit := hexDigit_inj (Nat.mod_lt _ (by omega)) (Nat.mod_lt _ (by omega))
    (List.map_inj_left.mp h _ hmem)
  rwa [show hi - 1 - (hi - 1 - i) = i by omega] at hdigit

/-- Two UUIDs never share a text. -/
theorem hyphenated_injective : Function.Injective hyphenated := by
  intro u v h
  have hlen : ∀ (w : Uuid) hi len, (hexDigits w hi len).length = len := by simp [hexDigits]
  obtain ⟨h1, t1⟩ := List.append_inj (String.ofList_injective h) (by rw [hlen, hlen])
  obtain ⟨h2, t2⟩ := List.append_inj (List.cons.inj t1).2 (by rw [hlen, hlen])
  obtain ⟨h3, t3⟩ := List.append_inj (List.cons.inj t2).2 (by rw [hlen, hlen])
  obtain ⟨h4, t4⟩ := List.append_inj (List.cons.inj t3).2 (by rw [hlen, hlen])
  refine eq_of_nibble fun i hi => ?_
  by_cases c1 : 24 ≤ i
  · exact nibble_eq_of_hexDigits h1 (by omega) hi
  by_cases c2 : 20 ≤ i
  · exact nibble_eq_of_hexDigits h2 (by omega) (by omega)
  by_cases c3 : 16 ≤ i
  · exact nibble_eq_of_hexDigits h3 (by omega) (by omega)
  by_cases c4 : 12 ≤ i
  · exact nibble_eq_of_hexDigits h4 (by omega) (by omega)
  · exact nibble_eq_of_hexDigits (List.cons.inj t4).2 (by omega) (by omega)

variable {γ : Type}

/-! ### Orders and rows -/

/-- `local_to_order_row`. -/
def localToOrderRow (fmt : TextFormats γ) (order : LocalOrder γ) : OrderRow where
  localId := fmt.uuid order.id
  ibOrderId := order.ibOrderId
  ibPermId := order.ibPermId
  status := order.status.toText
  symbol := order.symbol
  secType := order.secType.toText
  exchange := order.exchange
  currency := order.currency
  conId := order.conId
  action := order.action.toText
  orderType := order.orderType.toText
  quantity := order.quantity
  filledQty := order.filledQty
  remainingQty := order.remainingQty
  limitPrice := order.limitPrice
  stopPrice := order.stopPrice
  trailAmount := order.trailAmount
  trailPercent := order.trailPercent
  tif := order.tif.toText
  parentId := order.parentId.map fmt.uuid
  ocaGroup := order.ocaGroup
  bracketRole := order.bracketRole.map BracketRole.toText
  strategy := order.strategy
  tags := if order.tags.isEmpty then none else some ((fmt.jsonTags order.tags).getD "[]")
  algoStrategy := order.algoStrategy
  algoParams := order.algoParams.bind fmt.jsonValue
  outsideRth := order.outsideRth
  avgFillPrice := order.avgFillPrice
  lastFillPrice := order.lastFillPrice
  commission := order.commission
  activationCount := order.activationCount
  lastActivatedAt := order.lastActivatedAt.map fmt.rfc3339
  lastDeactivatedAt := order.lastDeactivatedAt.map fmt.rfc3339
  createdAt := fmt.rfc3339 order.createdAt
  updatedAt := fmt.rfc3339 order.updatedAt

/-- `BracketGroup`: the entry and its optional children. -/
structure BracketGroup (γ : Type) where
  parent : LocalOrder γ
  takeProfit : Option (LocalOrder γ)
  stopLoss : Option (LocalOrder γ)

/-- All orders in activation order: the parent first, the stop-loss last. -/
def BracketGroup.legs (group : BracketGroup γ) : List (LocalOrder γ) :=
  group.parent :: (group.takeProfit.toList ++ group.stopLoss.toList)

end Midas.Persist
