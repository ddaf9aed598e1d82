import Mathlib.Data.List.Chain
import HandOfMidas.Core.Symbol

/-! The vocabulary of the `OrderClient` trait (`order_client.rs`, `orders/types/mod.rs`): the statuses of
    an order and the adjacency list that `validate_transition` enforces (`orders/state/mod.rs`), what an
    order asks for, what a client answers and what it broadcasts. Of `OrderSpec` only the fields that
    some modelled function reads or sets are kept; the others are constants of `OrderSpec::default`
    everywhere here. -/

namespace Midas.Broker

/-- Canonical lifecycle status of an order. -/
inductive OrderStatus where
  | draft | inactive | pendingSubmit | preSubmitted | submitted | partiallyFilled | filled
  | pendingCancel | cancelled | rejected | error
  deriving DecidableEq, Repr

namespace OrderStatus

/-- A terminal order never changes status again. -/
def isTerminal : OrderStatus → Bool
  | filled | cancelled | rejected => true
  | _ => false

/-- The targets `validate_transition` accepts from each status. -/
def targets : OrderStatus → List OrderStatus
  | draft => [inactive]
  | inactive => [pendingSubmit]
  | error => [inactive, pendingSubmit]
  | pendingSubmit => [preSubmitted, submitted, rejected, error, pendingCancel]
  | preSubmitted => [submitted, pendingCancel, cancelled, filled, rejected]
  | submitted => [partiallyFilled, filled, pendingCancel, cancelled, rejected]
  | partiallyFilled => [filled, pendingCancel, cancelled]
  | pendingCancel => [cancelled, inactive, filled]
  | filled => []
  | cancelled => []
  | rejected => []

/-- `BrokerError::InvalidTransition`. -/
structure InvalidTransition where
  fromStatus : OrderStatus
  toStatus : OrderStatus
  deriving DecidableEq

/-- `Ok` when the transition is legal, the offending pair otherwise. -/
def validateTransition (a b : OrderStatus) : Except InvalidTransition Unit :=
  if b ∈ a.targets then .ok () else .error ⟨a, b⟩

/-- The relation `validate_transition` accepts. -/
def Legal (a b : OrderStatus) : Prop := validateTransition a b = .ok ()

theorem legal_iff {a b : OrderStatus} : Legal a b ↔ b ∈ a.targets := by
  unfold Legal validateTransition
  by_cases h : b ∈ a.targets <;> simp [h]

instance (a b : OrderStatus) : Decidable (Legal a b) := decidable_of_iff _ legal_iff.symm

/-- One entry of a status history may follow another: nothing follows a terminal status, and a
    change of status is a legal one. A repetition of a live status is not a change. -/
def Follows (a b : OrderStatus) : Prop := a.isTerminal = false ∧ (a = b ∨ Legal a b)

instance (a b : OrderStatus) : Decidable (Follows a b) :=
  inferInstanceAs (Decidable (_ ∧ _))

end OrderStatus

end Midas.Broker

/-! ### Orders -/

namespace Midas.Broker

inductive OrderAction where | buy | sell
  deriving DecidableEq, Repr

/-- `OrderType` (M-18), the router-era superset of `OrderKind`. -/
inductive OrderType where
  | market | limit | stop | stopLimit | trailingStop | marketOnClose | limitOnClose
  | marketIfTouched | limitIfTouched | pegToMarket | pegToMidpoint | relative | volatility
  deriving DecidableEq, Repr

inductive OrderKind where | market | limit | stop | stopLimit | trailingStop
  deriving DecidableEq, Repr

inductive TimeInForce where | day | gtc | ioc | gtd | opg
  deriving DecidableEq, Repr

inductive Tif where | day | gtc | opg | ioc | fok | dtc | gtd
  deriving DecidableEq, Repr

/-- `OrderSpec` with the defaults of `OrderSpec::default`. -/
structure OrderSpec where
  ibOrderId : Int32 := 0
  symbol : SymbolKey := ⟨0, ""⟩
  conId : Int32 := 0
  action : OrderAction := .buy
  orderType : OrderType := .market
  quantity : ℚ := 0
  limitPrice : Option ℚ := none
  stopPrice : Option ℚ := none
  parentId : Option Int32 := none
  transmit : Bool := true
  tif : Tif := .day
  outsideRth : Bool := false
  deriving DecidableEq

/-- `OrderModify`: the fields a modification may change. -/
structure OrderModify where
  quantity : Option ℚ := none
  limitPrice : Option ℚ := none
  stopPrice : Option ℚ := none
  tif : Option Tif := none
  outsideRth : Option Bool := none
  deriving DecidableEq

/-- `OrderEvent`, as broadcast on `order_events`. -/
inductive OrderEvent where
  | submitted (ibOrderId : Int32)
  | statusChanged (ibOrderId : Int32) (status : OrderStatus) (filled remaining avgFillPrice : ℚ)
  | executionDetails (ibOrderId : Int32) (execId : String) (shares price : ℚ)
  | commission (execId : String) (commission : ℚ) (realizedPnl : Option ℚ) (currency : String)
  | rejected (ibOrderId : Int32) (reason : String)
  | cancelled (ibOrderId : Int32)
  deriving DecidableEq

/-- `PositionUpdate`, as broadcast on `position_events`. -/
structure PositionUpdate where
  account : String
  symbol : String
  conId : Int32
  quantity : ℚ
  avgCost : ℚ
  deriving DecidableEq

/-- `ErrorCode`, of which the simulator uses one. -/
inductive ErrorCode where | orderCancelNotFound
  deriving DecidableEq

/-- `CancelOrderEvent`, the answers on the stream that `cancel_order` returns. -/
inductive CancelOrderEvent where
  | submitted (ibOrderId : Int32)
  | cancelled (ibOrderId : Int32)
  | error (ibOrderId : Int32) (code : ErrorCode) (message : String)
  deriving DecidableEq

inductive OrderError where
  | disconnected
  | invalidSpec (reason : String)
  | rejected (reason : String)
  | notFound (ibOrderId : Int32)
  | other (reason : String)
  deriving DecidableEq

/-- The statuses carried by the `StatusChanged` events of one order, oldest first. -/
def statusesOf (id : Int32) (events : List OrderEvent) : List OrderStatus :=
  events.filterMap fun
    | .statusChanged id' status _ _ _ => if id' = id then some status else none
    | _ => none

@[simp] theorem statusesOf_nil (id : Int32) : statusesOf id [] = [] := rfl

@[simp] theorem statusesOf_append (id : Int32) (es es' : List OrderEvent) :
    statusesOf id (es ++ es') = statusesOf id es ++ statusesOf id es' :=
  List.filterMap_append

end Midas.Broker
