import HandOfMidas.Lib.Sql
import HandOfMidas.Lib.Store
import HandOfMidas.Persist.LocalOrder

/-! The repository functions of `persist/order_repo/mod.rs` over the tables `orders`, `order_audit`
    and `fills`. Each statement is a program over the connection, and the three bracket functions run
    a pass over the legs between `BEGIN` and `COMMIT`. The readings of the clock are inputs. -/

namespace Midas.Persist

open Midas.Broker Sql

structure FillRow where
  orderLocalId : String
  ibExecId : String
  timestamp : String
  shares : ℚ
  price : ℚ
  commission : Option ℚ
  exchange : Option String
  side : String
  deriving DecidableEq

structure AuditRow where
  orderLocalId : String
  timestamp : String
  fromStatus : String
  toStatus : String
  details : Option String
  source : String
  deriving DecidableEq

/-- The tables. `local_id` is the primary key of `orders` and `ib_exec_id` is unique in `fills`;
    the audit trail is in the order of its own ids. -/
structure Tables where
  orders : Store OrderRow.localId
  audit : List AuditRow
  fills : Store FillRow.ibExecId

namespace Tables

def empty : Tables := ⟨.empty, [], .empty⟩

/-- The stored status of an order. -/
def statusOf (t : Tables) (localId : String) : Option String :=
  (t.orders.get? localId).map (·.status)

/-- The audit rows of an order, oldest first. -/
def auditOf (t : Tables) (localId : String) : List AuditRow :=
  t.audit.filter fun r => r.orderLocalId = localId

def insert (order : OrderRow) (t : Tables) : Tables := { t with orders := t.orders.put order }

/-- Rewrite the row under `localId`, if there is one. -/
def update (localId : String) (f : OrderRow → OrderRow) (t : Tables) : Tables :=
  match t.orders.get? localId with
  | some o => { t with orders := t.orders.put (f o) }
  | none => t

def log (row : AuditRow) (t : Tables) : Tables := { t with audit := t.audit ++ [row] }

end Tables

/-! ### Statements -/

variable (fails : ℕ → Bool)

/-- Fails if `local_id` already exists. -/
def insertOrder (order : OrderRow) : Sql Tables Unit :=
  statement fails fun t =>
    match t.orders.get? order.localId with
    | some _ => .error .constraint
    | none => .ok ((), t.insert order)

/-- `true` if exactly one row was modified. -/
def updateOrderStatus (localId newStatus updatedAt : String) : Sql Tables Bool :=
  statement fails fun t =>
    .ok ((t.orders.get? localId).isSome,
      t.update localId fun o => { o with status := newStatus, updatedAt := updatedAt })

def updateOrderFill (localId : String) (filledQty remainingQty avgFillPrice lastFillPrice : ℚ)
    (commission : Option ℚ) (updatedAt : String) : Sql Tables Bool :=
  statement fails fun t =>
    .ok ((t.orders.get? localId).isSome,
      t.update localId fun o =>
        { o with
          filledQty := filledQty
          remainingQty := remainingQty
          avgFillPrice := some avgFillPrice
          lastFillPrice := some lastFillPrice
          commission := commission
          updatedAt := updatedAt })

/-- `now` is what the database reads as `datetime('now')`. -/
def writeAudit (now orderLocalId fromStatus toStatus : String) (details : Option String)
    (source : String) : Sql Tables Unit :=
  statement fails fun t => .ok ((), t.log ⟨orderLocalId, now, fromStatus, toStatus, details, source⟩)

def updateStatusAndAudit (now localId oldStatus newStatus updatedAt : String)
    (details : Option String) (source : String) : Sql Tables Unit := do
  let _ ← updateOrderStatus fails localId newStatus updatedAt
  writeAudit fails now localId oldStatus newStatus details source

/-- A fill with a known `ib_exec_id` is skipped. -/
def insertFill (fill : FillRow) : Sql Tables Unit :=
  statement fails fun t =>
    match t.fills.get? fill.ibExecId with
    | some _ => .ok ((), t)
    | none => .ok ((), { t with fills := t.fills.put fill })

/-! ### The bracket functions -/

/-- Readings of the clock while a leg is handled: `Utc::now()` and `datetime('now')`. -/
structure Times where
  utcNow : Uuid → UtcTime
  sqlNow : Uuid → String

variable {γ : Type} (fmt : TextFormats γ) (times : Times)

/-- The closure `persist_leg`. -/
def persistLeg (order : LocalOrder γ) : Sql Tables Unit := do
  -- Insert the row with its current status first.
  insertOrder fails (localToOrderRow fmt order)
  let _ ← updateOrderStatus fails (fmt.uuid order.id) OrderStatus.pendingSubmit.toText
    (fmt.rfc3339 (times.utcNow order.id))
  writeAudit fails (times.sqlNow order.id) (fmt.uuid order.id) OrderStatus.inactive.toText
    OrderStatus.pendingSubmit.toText none "persist_and_transition_to_pending_submit"

/-- The turn of one leg in `transition_bracket_to_error` and `transition_bracket_to_rejected`:
    terminal legs are skipped. -/
def transitionLeg (target : OrderStatus) (source reason : String) (leg : LocalOrder γ) :
    Sql Tables Unit :=
  if leg.status.isTerminal then pure ()
  else do
    let _ ← updateOrderStatus fails (fmt.uuid leg.id) target.toText
      (fmt.rfc3339 (times.utcNow leg.id))
    writeAudit fails (times.sqlNow leg.id) (fmt.uuid leg.id) leg.status.toText target.toText
      (some reason) source

/-- The statuses in memory once every leg has been submitted. -/
def BracketGroup.pendingSubmit (group : BracketGroup γ) : BracketGroup γ where
  parent := { group.parent with status := .pendingSubmit }
  takeProfit := group.takeProfit.map fun tp => { tp with status := .pendingSubmit }
  stopLoss := group.stopLoss.map fun sl => { sl with status := .pendingSubmit }

/-- The answer of a call, the connection after it and the group in memory after it. -/
structure Outcome (γ : Type) where
  result : Except SqlError Unit
  conn : Conn Tables
  group : BracketGroup γ

/-- The legs in activation order within one transaction; the group in memory becomes `memory`, but
    only after the `COMMIT`. -/
def inTransaction (leg : LocalOrder γ → Sql Tables Unit) (group memory : BracketGroup γ)
    (c : Conn Tables) : Outcome γ :=
  match transaction fails (forEach leg group.legs) c with
  | (.ok (), c') => ⟨.ok (), c', memory⟩
  | (.error e, c') => ⟨.error e, c', group⟩

def persistAndTransitionToPendingSubmit (group : BracketGroup γ) : Conn Tables → Outcome γ :=
  inTransaction fails (persistLeg fails fmt times) group group.pendingSubmit

/-- The group is only read: what it holds in memory stays. -/
def transitionBracketToError (group : BracketGroup γ) (reason : String) :
    Conn Tables → Outcome γ :=
  inTransaction fails
    (transitionLeg fails fmt times .error "transition_bracket_to_error" reason) group group

def transitionBracketToRejected (group : BracketGroup γ) (reason : String) :
    Conn Tables → Outcome γ :=
  inTransaction fails
    (transitionLeg fails fmt times .rejected "transition_bracket_to_rejected" reason) group group

/-- A call of one of the three bracket functions. -/
inductive Call where
  | persistAndTransitionToPendingSubmit
  | transitionBracketToError (reason : String)
  | transitionBracketToRejected (reason : String)

def Call.exec (group : BracketGroup γ) : Call → Conn Tables → Outcome γ
  | .persistAndTransitionToPendingSubmit =>
    Persist.persistAndTransitionToPendingSubmit fails fmt times group
  | .transitionBracketToError reason => Persist.transitionBracketToError fails fmt times group reason
  | .transitionBracketToRejected reason =>
    Persist.transitionBracketToRejected fails fmt times group reason

/-! ### What the calls have in common -/

/-- What a call does to a leg. -/
def Call.leg : Call → LocalOrder γ → Sql Tables Unit
  | .persistAndTransitionToPendingSubmit => persistLeg fails fmt times
  | .transitionBracketToError reason =>
    transitionLeg fails fmt times .error "transition_bracket_to_error" reason
  | .transitionBracketToRejected reason =>
    transitionLeg fails fmt times .rejected "transition_bracket_to_rejected" reason

/-- What a call that succeeds leaves in memory. -/
def Call.memory (group : BracketGroup γ) : Call → BracketGroup γ
  | .persistAndTransitionToPendingSubmit => group.pendingSubmit
  | _ => group

/-- The status a call moves legs to. -/
def Call.target : Call → OrderStatus
  | .persistAndTransitionToPendingSubmit => .pendingSubmit
  | .transitionBracketToError _ => .error
  | .transitionBracketToRejected _ => .rejected

/-- Whether a call handles a leg: the transitions skip terminal ones. -/
def Call.handles : Call → LocalOrder γ → Bool
  | .persistAndTransitionToPendingSubmit, _ => true
  | _, leg => !leg.status.isTerminal

theorem Call.exec_eq (call : Call) (group : BracketGroup γ) (c : Conn Tables) :
    call.exec fails fmt times group c =
      inTransaction fails (call.leg fails fmt times) group (call.memory group) c := by
  cases call <;> rfl

end Midas.Persist
