import HandOfMidas.Scenario.Duration
import Mathlib.Data.Rat.Lemmas

/-! The interpreter of the expressions of scenarios (`expr/interpreter.rs`): a walk over the tree, with a
    view of the engine (`expr/query.rs`) for the names in it. Numbers are exact. -/

namespace Midas.Dsl.Interpreter

open Expression (Alphabet BinOp Expr Index Segment U64 parseDuration parseU64 secondsOf)

/-! ### What a query tells -/

inductive OrderStatusName
  | apiPending | pendingSubmit | preSubmitted | submitted | filled | partiallyFilled | cancelled
  | apiCancelled | inactive
deriving DecidableEq

namespace OrderStatusName

def asStr : OrderStatusName → String
  | apiPending => "ApiPending"
  | pendingSubmit => "PendingSubmit"
  | preSubmitted => "PreSubmitted"
  | submitted => "Submitted"
  | filled => "Filled"
  | partiallyFilled => "PartiallyFilled"
  | cancelled => "Cancelled"
  | apiCancelled => "ApiCancelled"
  | inactive => "Inactive"

def isTerminal (st : OrderStatusName) : Bool := st = filled || st = cancelled || st = apiCancelled

end OrderStatusName

structure OrderSnapshot where
  orderRef : List Char
  symbol : List Char
  side : List Char
  quantity : ℚ
  filledQty : ℚ
  remainingQty : ℚ
  status : OrderStatusName
  limitPrice : Option ℚ
  stopPrice : Option ℚ
  avgFillPrice : Option ℚ
  parentRef : Option (List Char)

structure PositionSnapshot where
  symbol : List Char
  quantity : ℚ
  avgCost : ℚ
  realizedPnl : ℚ
  unrealizedPnl : ℚ

structure SessionMetrics where
  msgCount : U64
  msgCountLast5s : U64
  tickCount : U64
  connected : Bool

/-- What the engine tells when it is asked; the orders have their places. -/
structure ScenarioQuery where
  orders : List OrderSnapshot
  positionFor : List Char → Option PositionSnapshot
  positions : List PositionSnapshot
  sessionMetrics : UInt64 → Option SessionMetrics
  sessionDuration : Duration

namespace ScenarioQuery

variable (q : ScenarioQuery)

def orderByRef (orderRef : List Char) : Option OrderSnapshot :=
  q.orders.find? fun o => o.orderRef = orderRef

def orderByIndex (idx : UInt64) : Option OrderSnapshot := q.orders[idx.toNat]?

end ScenarioQuery

/-! ### Values -/

inductive Value
  | num (n : ℚ)
  | int (i : Int64)
  | str (s : List Char)
  | bool (b : Bool)
  | list (items : List Value)
  | null

namespace Value

def ofLiteral : Expression.Value ℚ → Value
  | .num n => num n
  | .int i => int i
  | .str s => str s
  | .bool b => bool b

def ofText (s : String) : Value := str s.toList

def ofOption {α : Type} (value : α → Value) : Option α → Value
  | some a => value a
  | none => null

mutual

/-- `==`: integers count as numbers. -/
def eq : Value → Value → Bool
  | num a, num b => a = b
  | int a, int b => a = b
  | num a, int b => a = b.toInt
  | int b, num a => a = b.toInt
  | str a, str b => a = b
  | bool a, bool b => a = b
  | list a, list b => eqAll a b
  | null, null => true
  | _, _ => false

def eqAll : List Value → List Value → Bool
  | [], [] => true
  | a :: as, b :: bs => eq a b && eqAll as bs
  | _, _ => false

end

def asF64 : Value → Option ℚ
  | num n => some n
  | int i => some i.toInt
  | bool true => some 1
  | bool false => some 0
  | _ => none

def asBool : Value → Option Bool
  | bool b => some b
  | _ => none

/-- Whatever is a number compares as one; texts compare as texts. -/
def cmpTotal (v w : Value) : Option Ordering :=
  match v.asF64, w.asF64 with
  | some a, some b => some (compare a b)
  | _, _ =>
    match v, w with
    | str a, str b => some (compare a b)
    | _, _ => none

def typeName : Value → String
  | num _ => "number"
  | int _ => "int"
  | str _ => "string"
  | bool _ => "bool"
  | list _ => "list"
  | null => "null"

end Value

/-! ### Outcomes -/

inductive EvalError
  | unknownIdent (name : List Char)
  | unknownFunction (name : List Char)
  | argCount (name : List Char) (expected : String) (got : ℕ)
  | typeMismatch (expected got : String)
  | pathResolve (segment : List Char) (reason : String)
  | incomparableCompare (lhs rhs : String)
deriving DecidableEq

/-- `none` when the evaluation panics: a bare name may be a duration that is too long for `Duration`. -/
abbrev Outcome (α : Type) := ExceptT EvalError Option α

def panics {α : Type} : Outcome α := ExceptT.mk none

def ok? {α : Type} (r : Except EvalError α) : Outcome α := ExceptT.mk (some r)

/-! ### Names -/

def statusFromIdent (name : List Char) : Option OrderStatusName :=
  match String.ofList name with
  | "ApiPending" => some .apiPending
  | "PendingSubmit" => some .pendingSubmit
  | "PreSubmitted" => some .preSubmitted
  | "Submitted" => some .submitted
  | "Filled" => some .filled
  | "PartiallyFilled" => some .partiallyFilled
  | "Cancelled" => some .cancelled
  | "ApiCancelled" => some .apiCancelled
  | "Inactive" => some .inactive
  | _ => none

def builtinValue (name : List Char) (q : ScenarioQuery) : Option Value :=
  match String.ofList name with
  | "all_orders_have_terminal_status" => some (.bool (q.orders.all fun o => o.status.isTerminal))
  | "no_orphan_bracket_children" =>
    let orphans := q.orders.any fun o =>
      match o.parentRef with
      | some parent => !q.orders.any fun p => p.orderRef = parent
      | none => false
    some (.bool !orphans)
  | "session_duration" => some (.num (secondsOf q.sessionDuration))
  | _ => none

/-- A name alone: a status, a built-in, or a duration. -/
def resolveName (alphabet : Alphabet) (q : ScenarioQuery) (root : List Char) : Outcome Value :=
  match statusFromIdent root with
  | some st => pure (.ofText st.asStr)
  | none =>
    match builtinValue root q with
    | some v => pure v
    | none =>
      match parseDuration alphabet root with
      | some (.ok d) => pure (.num (secondsOf d))
      | some (.error _) => throw (.unknownIdent root)
      | none => panics

/-! ### Paths -/

/-- `orders[idx]`. -/
def indexed (root : String) (idx : List Char) : List Char :=
  root.toList ++ '[' :: idx ++ [']']

def orderValue (snap : OrderSnapshot) : String → Option Value
  | "order_ref" => some (.str snap.orderRef)
  | "symbol" => some (.str snap.symbol)
  | "side" => some (.str snap.side)
  | "quantity" | "qty" => some (.num snap.quantity)
  | "filled_qty" | "filled" => some (.num snap.filledQty)
  | "remaining_qty" | "remaining" => some (.num snap.remainingQty)
  | "status" => some (.ofText snap.status.asStr)
  | "limit_price" => some (.ofOption .num snap.limitPrice)
  | "stop_price" => some (.ofOption .num snap.stopPrice)
  | "avg_fill_price" => some (.ofOption .num snap.avgFillPrice)
  | "parent_ref" => some (.ofOption .str snap.parentRef)
  | _ => none

def positionValue (pos : PositionSnapshot) : String → Option Value
  | "symbol" => some (.str pos.symbol)
  | "quantity" | "qty" => some (.num pos.quantity)
  | "avg_cost" => some (.num pos.avgCost)
  | "realized_pnl" => some (.num pos.realizedPnl)
  | "unrealized_pnl" => some (.num pos.unrealizedPnl)
  | _ => none

def sessionValue (metrics : SessionMetrics) : String → Option Value
  | "msg_count" => some (.num metrics.msgCount.1)
  | "msg_count_last_5s" | "msg_count_since" => some (.num metrics.msgCountLast5s.1)
  | "tick_count" => some (.num metrics.tickCount.1)
  | "connected" => some (.bool metrics.connected)
  | _ => none

def fieldOf (value : String → Option Value) (unknown : String) (name : List Char) :
    Except EvalError Value :=
  match value (String.ofList name) with
  | some v => .ok v
  | none => .error (.pathResolve name unknown)

/-- An order has no nested fields. -/
def orderField (snap : OrderSnapshot) : List Segment → Except EvalError Value
  | [] => .ok (.str snap.orderRef)
  | .index _ :: _ =>
    .error (.pathResolve "<order>".toList "expected `.field` after an order index")
  | .field name :: _ :: _ =>
    .error (.pathResolve name "order fields are scalars — no nested access")
  | [.field name] => fieldOf (orderValue snap) "unknown order field" name

/-- What follows the field of a position is not looked at. -/
def positionField (pos : PositionSnapshot) : List Segment → Except EvalError Value
  | [] => .ok (.num pos.quantity)
  | .index _ :: _ => .error (.pathResolve "<position>".toList "expected `.field`")
  | .field name :: _ => fieldOf (positionValue pos) "unknown position field" name

/-- What follows the field of a session is not looked at. -/
def sessionField (metrics : SessionMetrics) : List Segment → Except EvalError Value
  | [] => .ok (.bool metrics.connected)
  | .index _ :: _ => .error (.pathResolve "<session>".toList "expected `.field`")
  | .field name :: _ => fieldOf (sessionValue metrics) "unknown session field" name

def orderAt (q : ScenarioQuery) (i : Int64) : Except EvalError OrderSnapshot :=
  match q.orderByIndex i.toUInt64 with
  | some snap => .ok snap
  | none => .error (.pathResolve (indexed "orders" i.toInt.repr.toList) "index out of range")

def orderNamed (q : ScenarioQuery) (s : List Char) : Except EvalError OrderSnapshot :=
  match q.orderByRef s with
  | some snap => .ok snap
  | none => .error (.pathResolve (indexed "orders" s) "no order with that order_ref")

def resolveOrders (q : ScenarioQuery) : List Segment → Except EvalError Value
  | [] => .ok (.list (q.orders.map fun o => .str o.orderRef))
  | .field _ :: _ => .error (.pathResolve "orders".toList "expected `[...]` after `orders`")
  | .index (.int i) :: rest => do orderField (← orderAt q i) rest
  | .index (.str s) :: rest | .index (.ident s) :: rest => do orderField (← orderNamed q s) rest
  | .index .wildcard :: rest => return .list (← q.orders.mapM fun snap => orderField snap rest)

def positionNamed (q : ScenarioQuery) (key : List Char) : Except EvalError PositionSnapshot :=
  match q.positionFor key with
  | some pos => .ok pos
  | none => .error (.pathResolve (indexed "positions" key) "no position for that symbol")

def resolvePositions (q : ScenarioQuery) : List Segment → Except EvalError Value
  | [] => .ok (.list (q.positions.map fun p => .str p.symbol))
  | .field _ :: _ => .error (.pathResolve "positions".toList "expected `[SYMBOL]` after `positions`")
  | .index (.str s) :: rest | .index (.ident s) :: rest => do
    positionField (← positionNamed q s) rest
  | .index (.int i) :: rest => do positionField (← positionNamed q i.toInt.repr.toList) rest
  | .index .wildcard :: rest => return .list (← q.positions.mapM fun pos => positionField pos rest)

def sessionAt (q : ScenarioQuery) (id : UInt64) : Except EvalError SessionMetrics :=
  match q.sessionMetrics id with
  | some metrics => .ok metrics
  | none => .error (.pathResolve (indexed "session" id.toNat.repr.toList) "no such session")

/-- The number of a session; a negative one wraps around. -/
def sessionId : Index → Except EvalError UInt64
  | .int i => .ok i.toUInt64
  | .str s | .ident s =>
    match parseU64 s with
    | some id => .ok (.ofNat id.1)
    | none => .error (.pathResolve (indexed "session" s) "session id must be integer")
  | .wildcard => .error (.pathResolve "session[*]".toList "wildcard not supported on sessions")

def resolveSession (q : ScenarioQuery) : List Segment → Except EvalError Value
  | [] | .field _ :: _ => .error (.pathResolve "session".toList "expected `[id]` after `session`")
  | .index idx :: rest => do sessionField (← sessionAt q (← sessionId idx)) rest

def resolvePath (alphabet : Alphabet) (q : ScenarioQuery) (root : List Char)
    (segments : List Segment) : Outcome Value :=
  if segments = [] then resolveName alphabet q root
  else
    match String.ofList root with
    | "orders" => ok? (resolveOrders q segments)
    | "positions" => ok? (resolvePositions q segments)
    | "session" => ok? (resolveSession q segments)
    | _ => throw (.unknownIdent root)

/-! ### Functions -/

/-- A list that is the only argument stands for its items. -/
def flatten : List Value → List Value
  | [.list items] => items
  | values => values

/-- The number that a value adds to a sum: none if it is absent. -/
def addend : Value → Except EvalError ℚ
  | .null => .ok 0
  | v =>
    match v.asF64 with
    | some n => .ok n
    | none => .error (.typeMismatch "number" v.typeName)

def fnSum (name : List Char) (values : List Value) : Except EvalError Value :=
  if values = [] then .error (.argCount name "≥1" 0)
  else do
    let total ← (flatten values).foldlM (fun acc v => return acc + (← addend v)) (0 : ℚ)
    return .num total

def fnCount (name : List Char) (values : List Value) : Except EvalError Value :=
  if values = [] then .error (.argCount name "1" 0)
  else .ok (.int (.ofNat (flatten values).length))

def better (wantMax : Bool) (best : Option ℚ) (v : Value) : Except EvalError (Option ℚ) :=
  match v with
  | .null => .ok best
  | v =>
    match v.asF64 with
    | none => .error (.typeMismatch "number" v.typeName)
    | some n =>
      match best with
      | none => .ok (some n)
      | some b => .ok (some (if wantMax then max b n else min b n))

def fnExtreme (wantMax : Bool) (name : List Char) (values : List Value) : Except EvalError Value :=
  if values = [] then .error (.argCount name "≥1" 0)
  else do
    let best ← (flatten values).foldlM (better wantMax) none
    return .num (best.getD 0)

/-- The width of the window in seconds. -/
def fnLast5s (name : List Char) (values : List Value) : Except EvalError Value :=
  if values = [] then .ok (.num 5) else .error (.argCount name "0" values.length)

def callFunction (name : List Char) (values : List Value) : Except EvalError Value :=
  match String.ofList name with
  | "sum" => fnSum name values
  | "count" => fnCount name values
  | "max" => fnExtreme true name values
  | "min" => fnExtreme false name values
  | "last_5s" => fnLast5s name values
  | _ => .error (.unknownFunction name)

/-! ### Operators -/

def BinOp.holds (op : BinOp) (ord : Ordering) : Bool :=
  match op with
  | .lt => ord = .lt
  | .le => ord ≠ .gt
  | .gt => ord = .gt
  | .ge => ord ≠ .lt
  | .eq => ord = .eq
  | .neq => ord ≠ .eq

def evalBinop (op : BinOp) (l r : Value) : Except EvalError Value :=
  match op with
  | .eq => .ok (.bool (l.eq r))
  | .neq => .ok (.bool !(l.eq r))
  | _ =>
    match l.cmpTotal r with
    | some ord => .ok (.bool (BinOp.holds op ord))
    | none => .error (.incomparableCompare l.typeName r.typeName)

def coerceBool (v : Value) : Except EvalError Bool :=
  match v.asBool with
  | some b => .ok b
  | none => .error (.typeMismatch "bool" v.typeName)

/-! ### Evaluation -/

mutual

def eval (alphabet : Alphabet) (q : ScenarioQuery) : Expr ℚ → Outcome Value
  | .literal v => pure (.ofLiteral v)
  | .path root segments => resolvePath alphabet q root segments
  | .call name args => do
    let values ← evalAll alphabet q args
    ok? (callFunction name values)
  | .binOp op lhs rhs => do
    let l ← eval alphabet q lhs
    let r ← eval alphabet q rhs
    ok? (evalBinop op l r)
  | .and lhs rhs => do
    let a ← ok? (coerceBool (← eval alphabet q lhs))
    if a = false then return .bool false
    return .bool (← ok? (coerceBool (← eval alphabet q rhs)))
  | .or lhs rhs => do
    let a ← ok? (coerceBool (← eval alphabet q lhs))
    if a = true then return .bool true
    return .bool (← ok? (coerceBool (← eval alphabet q rhs)))

/-- The arguments, from left to right. -/
def evalAll (alphabet : Alphabet) (q : ScenarioQuery) : List (Expr ℚ) → Outcome (List Value)
  | [] => pure []
  | arg :: args => do
    let v ← eval alphabet q arg
    let values ← evalAll alphabet q args
    return v :: values

end

end Midas.Dsl.Interpreter
