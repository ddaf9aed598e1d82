import HandOfMidas.Scenario.Interpreter

/-! Which expressions of scenarios go right. The interpreter looks at the kind of a value when it needs
    it; the types here are found before anything is evaluated, from the expression alone. An
    expression that has a type yields a value of it, unless it names an order, a position or a session
    that is not there. -/

namespace Midas.Dsl.Interpreter

open Expression (Alphabet BinOp Expr Index Segment asciiAlphabet parseDuration)

/-! ### Types -/

inductive Ty
  | number | str | bool
  | opt (t : Ty)
  | list (t : Ty)
deriving DecidableEq

def HasType : Ty → Value → Prop
  | .number, .num _ => True
  | .number, .int _ => True
  | .str, .str _ => True
  | .bool, .bool _ => True
  | .opt t, v => v = .null ∨ HasType t v
  | .list t, .list items => ∀ v ∈ items, HasType t v
  | _, _ => False

namespace Ty

/-- Values that `as_f64` makes a number of. -/
def numeric : Ty → Bool
  | number | bool => true
  | _ => false

/-- Values that may be added up: numbers, and those that are absent. -/
def summable : Ty → Bool
  | number | bool => true
  | opt t => t.summable
  | _ => false

end Ty

def typeOfLiteral : Expression.Value ℚ → Ty
  | .num _ | .int _ => .number
  | .str _ => .str
  | .bool _ => .bool

def typeOfName (alphabet : Alphabet) (root : List Char) : Option Ty :=
  match statusFromIdent root with
  | some _ => some .str
  | none =>
    match String.ofList root with
    | "all_orders_have_terminal_status" | "no_orphan_bracket_children" => some .bool
    | "session_duration" => some .number
    | _ =>
      match parseDuration alphabet root with
      | some (.ok _) => some .number
      | _ => none

def orderFieldTy : String → Option Ty
  | "order_ref" | "symbol" | "side" | "status" => some .str
  | "quantity" | "qty" | "filled_qty" | "filled" | "remaining_qty" | "remaining" => some .number
  | "limit_price" | "stop_price" | "avg_fill_price" => some (.opt .number)
  | "parent_ref" => some (.opt .str)
  | _ => none

def positionFieldTy : String → Option Ty
  | "symbol" => some .str
  | "quantity" | "qty" | "avg_cost" | "realized_pnl" | "unrealized_pnl" => some .number
  | _ => none

def sessionFieldTy : String → Option Ty
  | "msg_count" | "msg_count_last_5s" | "msg_count_since" | "tick_count" => some .number
  | "connected" => some .bool
  | _ => none

def typeOfOrder : List Segment → Option Ty
  | [] => some .str
  | [.field name] => orderFieldTy (String.ofList name)
  | _ => none

def typeOfPosition : List Segment → Option Ty
  | [] => some .number
  | .field name :: _ => positionFieldTy (String.ofList name)
  | _ => none

def typeOfSession : List Segment → Option Ty
  | [] => some .bool
  | .field name :: _ => sessionFieldTy (String.ofList name)
  | _ => none

/-- A wildcard makes a list of what the rest of the path is for each. -/
def typeOfIndexed (rest : List Segment → Option Ty) : List Segment → Option Ty
  | .index .wildcard :: segments => (rest segments).map .list
  | .index _ :: segments => rest segments
  | _ => none

def typeOfSessions : List Segment → Option Ty
  | .index idx :: segments => if (sessionId idx).toBool then typeOfSession segments else none
  | _ => none

def typeOfPath (alphabet : Alphabet) (root : List Char) (segments : List Segment) : Option Ty :=
  if segments = [] then typeOfName alphabet root
  else
    match String.ofList root with
    | "orders" => typeOfIndexed typeOfOrder segments
    | "positions" => typeOfIndexed typeOfPosition segments
    | "session" => typeOfSessions segments
    | _ => none

/-- One list of what may be added up, or such values one by one. -/
def addsUp : List Ty → Bool
  | [] => false
  | [.list t] => t.summable
  | ts => ts.all Ty.summable

def typeOfCall (name : List Char) (ts : List Ty) : Option Ty :=
  match String.ofList name with
  | "sum" | "max" | "min" => if addsUp ts then some .number else none
  | "count" => if ts = [] then none else some .number
  | "last_5s" => if ts = [] then some .number else none
  | _ => none

def typeOfBinop (op : BinOp) (l r : Ty) : Option Ty :=
  match op with
  | .eq | .neq => some .bool
  | _ => if l.numeric ∧ r.numeric ∨ l = .str ∧ r = .str then some .bool else none

mutual

/-- The type of an expression, if it has one. -/
def typeOf (alphabet : Alphabet) : Expr ℚ → Option Ty
  | .literal v => some (typeOfLiteral v)
  | .path root segments => typeOfPath alphabet root segments
  | .call name args => (typeOfAll alphabet args).bind (typeOfCall name)
  | .binOp op lhs rhs =>
    (typeOf alphabet lhs).bind fun l => (typeOf alphabet rhs).bind fun r => typeOfBinop op l r
  | .and lhs rhs =>
    if typeOf alphabet lhs = some .bool ∧ typeOf alphabet rhs = some .bool then some .bool else none
  | .or lhs rhs =>
    if typeOf alphabet lhs = some .bool ∧ typeOf alphabet rhs = some .bool then some .bool else none

def typeOfAll (alphabet : Alphabet) : List (Expr ℚ) → Option (List Ty)
  | [] => some []
  | arg :: args =>
    (typeOf alphabet arg).bind fun t => (typeOfAll alphabet args).map fun ts => t :: ts

end

/-! ### Lookups -/

/-- What an expression names that need not be there. -/
inductive Lookup
  | orderAt (i : Int64)
  | orderNamed (s : List Char)
  | position (key : List Char)
  | session (id : UInt64)

def Lookup.missing : Lookup → EvalError
  | orderAt i => .pathResolve (indexed "orders" i.toInt.repr.toList) "index out of range"
  | orderNamed s => .pathResolve (indexed "orders" s) "no order with that order_ref"
  | position key => .pathResolve (indexed "positions" key) "no position for that symbol"
  | session id => .pathResolve (indexed "session" id.toNat.repr.toList) "no such session"

def ScenarioQuery.knows (q : ScenarioQuery) : Lookup → Bool
  | .orderAt i => (q.orderByIndex i.toUInt64).isSome
  | .orderNamed s => (q.orderByRef s).isSome
  | .position key => (q.positionFor key).isSome
  | .session id => (q.sessionMetrics id).isSome

def lookupsOfPath (root : List Char) : List Segment → List Lookup
  | .index idx :: _ =>
    match String.ofList root, idx with
    | "orders", .int i => [.orderAt i]
    | "orders", .str s | "orders", .ident s => [.orderNamed s]
    | "positions", .str s | "positions", .ident s => [.position s]
    | "positions", .int i => [.position i.toInt.repr.toList]
    | "session", idx => (sessionId idx).toOption.toList.map .session
    | _, _ => []
  | _ => []

mutual

def lookups : Expr ℚ → List Lookup
  | .literal _ => []
  | .path root segments => lookupsOfPath root segments
  | .call _ args => lookupsAll args
  | .binOp _ lhs rhs => lookups lhs ++ lookups rhs
  | .and lhs rhs => lookups lhs ++ lookups rhs
  | .or lhs rhs => lookups lhs ++ lookups rhs

def lookupsAll : List (Expr ℚ) → List Lookup
  | [] => []
  | arg :: args => lookups arg ++ lookupsAll args

end

/-! ### Going right -/

section Fine

variable {α β : Type} {q : ScenarioQuery} {asked asked' : List Lookup} {P : α → Prop} {Q : β → Prop}

/-- A value as it should be, or the error of a lookup that the query does not know. -/
def Fine (q : ScenarioQuery) (asked : List Lookup) (P : α → Prop) : Except EvalError α → Prop
  | .ok v => P v
  | .error e => ∃ l ∈ asked, q.knows l = false ∧ e = l.missing

/-- No panic, and a fine outcome. -/
def Goes (q : ScenarioQuery) (asked : List Lookup) (P : α → Prop) (r : Outcome α) : Prop :=
  ∃ o, r = ok? o ∧ Fine q asked P o

theorem Fine.mono {o : Except EvalError α} (h : Fine q asked P o) (hasked : asked ⊆ asked') :
    Fine q asked' P o := by
  cases o with
  | ok v => exact h
  | error e =>
    obtain ⟨l, hl, hunknown, rfl⟩ := h
    exact ⟨l, hasked hl, hunknown, rfl⟩

theorem Fine.bind {o : Except EvalError α} {f : α → Except EvalError β} (h : Fine q asked P o)
    (hf : ∀ v, P v → Fine q asked Q (f v)) : Fine q asked Q (o >>= f) := by
  cases o with
  | ok v => exact hf v h
  | error e => exact h

theorem Fine.goes {o : Except EvalError α} (h : Fine q asked P o) : Goes q asked P (ok? o) :=
  ⟨o, rfl, h⟩

theorem Goes.pure {v : α} (h : P v) : Goes q asked P (pure v : Outcome α) := ⟨.ok v, rfl, h⟩

theorem Goes.mono {r : Outcome α} (h : Goes q asked P r) (hasked : asked ⊆ asked') :
    Goes q asked' P r := by
  obtain ⟨o, hr, ho⟩ := h
  exact ⟨o, hr, ho.mono hasked⟩

theorem Goes.left {r : Outcome α} (h : Goes q asked P r) : Goes q (asked ++ asked') P r :=
  h.mono (List.subset_append_left asked asked')

theorem Goes.right {r : Outcome α} (h : Goes q asked' P r) : Goes q (asked ++ asked') P r :=
  h.mono (List.subset_append_right asked asked')

theorem Goes.bind {r : Outcome α} {f : α → Outcome β} (h : Goes q asked P r)
    (hf : ∀ v, P v → Goes q asked Q (f v)) : Goes q asked Q (r >>= f) := by
  obtain ⟨o, rfl, ho⟩ := h
  cases o with
  | ok v => exact hf v ho
  | error e => exact ⟨.error e, rfl, ho⟩

end Fine

section

variable {α β : Type}

theorem mapM_ok {f : α → Except EvalError β} {P : β → Prop} : ∀ {l : List α},
    (∀ a ∈ l, ∃ b, f a = .ok b ∧ P b) → ∃ bs, l.mapM f = .ok bs ∧ ∀ b ∈ bs, P b
  | [], _ => ⟨[], rfl, by simp⟩
  | a :: l, h => by
    obtain ⟨b, hb, hP⟩ := h a List.mem_cons_self
    obtain ⟨bs, hbs, hall⟩ := mapM_ok fun a ha => h a (List.mem_cons_of_mem _ ha)
    refine ⟨b :: bs, ?_, List.forall_mem_cons.mpr ⟨hP, hall⟩⟩
    rw [List.mapM_cons, hb, hbs]
    rfl

theorem foldlM_ok {f : β → α → Except EvalError β} : ∀ {l : List α} (acc : β),
    (∀ a ∈ l, ∀ acc, ∃ acc', f acc a = .ok acc') → ∃ acc', l.foldlM f acc = .ok acc'
  | [], acc, _ => ⟨acc, rfl⟩
  | a :: l, acc, h => by
    obtain ⟨acc₁, hacc₁⟩ := h a List.mem_cons_self acc
    obtain ⟨acc', hacc'⟩ := foldlM_ok acc₁ fun a ha => h a (List.mem_cons_of_mem _ ha)
    refine ⟨acc', ?_⟩
    rw [List.foldlM_cons, hacc₁]
    exact hacc'

end

/-! ### Values -/

theorem HasType.of_bool {v : Value} (h : HasType .bool v) : ∃ b, v = .bool b := by
  cases v with
  | bool b => exact ⟨b, rfl⟩
  | _ => cases h

theorem HasType.of_str {v : Value} (h : HasType .str v) : ∃ s, v = .str s := by
  cases v with
  | str s => exact ⟨s, rfl⟩
  | _ => cases h

theorem HasType.asF64 {t : Ty} {v : Value} (h : HasType t v) (ht : t.numeric = true) :
    ∃ n, v.asF64 = some n := by
  cases t with
  | number =>
    cases v with
    | num n => exact ⟨n, rfl⟩
    | int i => exact ⟨i.toInt, rfl⟩
    | _ => cases h
  | bool =>
    obtain ⟨b, rfl⟩ := h.of_bool
    cases b with
    | false => exact ⟨0, rfl⟩
    | true => exact ⟨1, rfl⟩
  | _ => cases ht

/-- What may be added up is absent or a number. -/
theorem HasType.summand : ∀ {t : Ty} {v : Value}, HasType t v → t.summable = true →
    v = .null ∨ ∃ n, v.asF64 = some n
  | .number, _, h, _ => Or.inr (h.asF64 rfl)
  | .bool, _, h, _ => Or.inr (h.asF64 rfl)
  | .opt _, _, h, ht => by
    rcases h with rfl | h
    · exact Or.inl rfl
    · exact h.summand ht

theorem hasType_ofLiteral (v : Expression.Value ℚ) : HasType (typeOfLiteral v) (.ofLiteral v) := by
  cases v <;> trivial

theorem hasType_ofOption {α : Type} {value : α → Value} {t : Ty} (h : ∀ a, HasType t (value a)) :
    ∀ a : Option α, HasType (.opt t) (.ofOption value a)
  | none => Or.inl rfl
  | some a => Or.inr (h a)

/-! ### Names and paths -/

/-- The built-in names, their types, and what else a typed name can be. -/
theorem typeOfName_eq_some {alphabet : Alphabet} {root : List Char} {t : Ty}
    (hstatus : statusFromIdent root = none) (h : typeOfName alphabet root = some t) :
    (String.ofList root = "all_orders_have_terminal_status" ∧ t = .bool)
      ∨ (String.ofList root = "no_orphan_bracket_children" ∧ t = .bool)
      ∨ (String.ofList root = "session_duration" ∧ t = .number)
      ∨ (String.ofList root ≠ "all_orders_have_terminal_status"
          ∧ String.ofList root ≠ "no_orphan_bracket_children"
          ∧ String.ofList root ≠ "session_duration"
          ∧ (∃ d, parseDuration alphabet root = some (.ok d)) ∧ t = .number) := by
  unfold typeOfName at h
  rw [hstatus] at h
  dsimp only at h
  split at h
  · next hroot => exact .inl ⟨hroot, (Option.some.inj h).symm⟩
  · next hroot => exact .inr (.inl ⟨hroot, (Option.some.inj h).symm⟩)
  · next hroot => exact .inr (.inr (.inl ⟨hroot, (Option.some.inj h).symm⟩))
  · next h₁ h₂ h₃ =>
    split at h
    · next d hd => exact .inr (.inr (.inr ⟨h₁, h₂, h₃, ⟨d, hd⟩, (Option.some.inj h).symm⟩))
    · cases h

theorem builtinValue_eq_none {root : List Char} (q : ScenarioQuery)
    (h₁ : String.ofList root ≠ "all_orders_have_terminal_status")
    (h₂ : String.ofList root ≠ "no_orphan_bracket_children")
    (h₃ : String.ofList root ≠ "session_duration") : builtinValue root q = none := by
  unfold builtinValue
  split
  · next heq => exact absurd heq h₁
  · next heq => exact absurd heq h₂
  · next heq => exact absurd heq h₃
  · rfl

theorem resolveName_typed {alphabet : Alphabet} (q : ScenarioQuery) {root : List Char} {t : Ty}
    (h : typeOfName alphabet root = some t) : Goes q [] (HasType t) (resolveName alphabet q root) := by
  unfold resolveName
  cases hstatus : statusFromIdent root with
  | some st =>
    unfold typeOfName at h
    rw [hstatus] at h
    obtain rfl := Option.some.inj h
    exact Goes.pure trivial
  | none =>
    rcases typeOfName_eq_some hstatus h with ⟨hroot, rfl⟩ | ⟨hroot, rfl⟩ | ⟨hroot, rfl⟩
      | ⟨h₁, h₂, h₃, ⟨d, hd⟩, rfl⟩
    · unfold builtinValue
      rw [hroot]
      exact Goes.pure trivial
    · unfold builtinValue
      rw [hroot]
      exact Goes.pure trivial
    · unfold builtinValue
      rw [hroot]
      exact Goes.pure trivial
    · rw [builtinValue_eq_none q h₁ h₂ h₃, hd]
      exact Goes.pure trivial

theorem orderValue_typed (snap : OrderSnapshot) {name : String} {t : Ty}
    (h : orderFieldTy name = some t) : ∃ v, orderValue snap name = some v ∧ HasType t v := by
  unfold orderFieldTy at h
  split at h <;> cases h
  all_goals first
    | exact ⟨_, rfl, trivial⟩
    | refine ⟨_, rfl, hasType_ofOption (fun a => ?_) _⟩
      trivial

theorem positionValue_typed (pos : PositionSnapshot) {name : String} {t : Ty}
    (h : positionFieldTy name = some t) : ∃ v, positionValue pos name = some v ∧ HasType t v := by
  unfold positionFieldTy at h
  split at h <;> cases h
  all_goals exact ⟨_, rfl, trivial⟩

theorem sessionValue_typed (metrics : SessionMetrics) {name : String} {t : Ty}
    (h : sessionFieldTy name = some t) : ∃ v, sessionValue metrics name = some v ∧ HasType t v := by
  unfold sessionFieldTy at h
  split at h <;> cases h
  all_goals exact ⟨_, rfl, trivial⟩

theorem fieldOf_typed {value : String → Option Value} {unknown : String} {name : List Char} {t : Ty}
    (h : ∃ v, value (String.ofList name) = some v ∧ HasType t v) :
    ∃ v, fieldOf value unknown name = .ok v ∧ HasType t v := by
  obtain ⟨v, hv, ht⟩ := h
  exact ⟨v, by rw [fieldOf, hv], ht⟩

theorem orderField_typed (snap : OrderSnapshot) {segments : List Segment} {t : Ty}
    (h : typeOfOrder segments = some t) : ∃ v, orderField snap segments = .ok v ∧ HasType t v := by
  rcases segments with _ | ⟨_ | _, _ | _⟩
  · obtain rfl := Option.some.inj h
    exact ⟨_, rfl, trivial⟩
  · exact fieldOf_typed (orderValue_typed snap h)
  all_goals cases h

theorem positionField_typed (pos : PositionSnapshot) {segments : List Segment} {t : Ty}
    (h : typeOfPosition segments = some t) :
    ∃ v, positionField pos segments = .ok v ∧ HasType t v := by
  rcases segments with _ | ⟨_ | _, _⟩
  · obtain rfl := Option.some.inj h
    exact ⟨_, rfl, trivial⟩
  · exact fieldOf_typed (positionValue_typed pos h)
  · cases h

theorem sessionField_typed (metrics : SessionMetrics) {segments : List Segment} {t : Ty}
    (h : typeOfSession segments = some t) :
    ∃ v, sessionField metrics segments = .ok v ∧ HasType t v := by
  rcases segments with _ | ⟨_ | _, _⟩
  · obtain rfl := Option.some.inj h
    exact ⟨_, rfl, trivial⟩
  · exact fieldOf_typed (sessionValue_typed metrics h)
  · cases h

/-! ### The engine's answers -/

section

variable {q : ScenarioQuery}

theorem orderAt_fine (i : Int64) : Fine q [.orderAt i] (fun _ => True) (orderAt q i) := by
  unfold orderAt
  split
  · trivial
  · next hnone => exact ⟨_, List.mem_singleton_self _, by simp [ScenarioQuery.knows, hnone], rfl⟩

theorem orderNamed_fine (s : List Char) :
    Fine q [.orderNamed s] (fun _ => True) (orderNamed q s) := by
  unfold orderNamed
  split
  · trivial
  · next hnone => exact ⟨_, List.mem_singleton_self _, by simp [ScenarioQuery.knows, hnone], rfl⟩

theorem positionNamed_fine (key : List Char) :
    Fine q [.position key] (fun _ => True) (positionNamed q key) := by
  unfold positionNamed
  split
  · trivial
  · next hnone => exact ⟨_, List.mem_singleton_self _, by simp [ScenarioQuery.knows, hnone], rfl⟩

theorem sessionAt_fine (id : UInt64) : Fine q [.session id] (fun _ => True) (sessionAt q id) := by
  unfold sessionAt
  split
  · trivial
  · next hnone => exact ⟨_, List.mem_singleton_self _, by simp [ScenarioQuery.knows, hnone], rfl⟩

/-- What is there has its field. -/
theorem Fine.then {α : Type} {asked : List Lookup} {o : Except EvalError α}
    {f : α → Except EvalError Value} {t : Ty} (h : Fine q asked (fun _ => True) o)
    (hf : ∀ a, ∃ v, f a = .ok v ∧ HasType t v) : Fine q asked (HasType t) (o >>= f) := by
  refine h.bind fun a _ => ?_
  obtain ⟨v, hv, ht⟩ := hf a
  rw [hv]
  exact ht

theorem wildcard_fine {α : Type} {l : List α} {f : α → Except EvalError Value} {t : Ty}
    (hf : ∀ a, ∃ v, f a = .ok v ∧ HasType t v) :
    Fine q [] (HasType (.list t)) (do return .list (← l.mapM f)) := by
  obtain ⟨vs, hvs, hall⟩ := mapM_ok (f := f) (P := HasType t) (l := l) fun a _ => hf a
  rw [hvs]
  exact hall

end

theorem resolveOrders_typed (q : ScenarioQuery) {segments : List Segment} {t : Ty}
    (h : typeOfIndexed typeOfOrder segments = some t) :
    Fine q (lookupsOfPath "orders".toList segments) (HasType t) (resolveOrders q segments) := by
  rcases segments with _ | ⟨_ | idx, rest⟩
  · cases h
  · cases h
  · cases idx with
    | int i => exact (orderAt_fine i).then fun snap => orderField_typed snap h
    | str s => exact (orderNamed_fine s).then fun snap => orderField_typed snap h
    | ident s => exact (orderNamed_fine s).then fun snap => orderField_typed snap h
    | wildcard =>
      obtain ⟨t, ht, rfl⟩ := Option.map_eq_some_iff.mp h
      exact wildcard_fine fun snap => orderField_typed snap ht

theorem resolvePositions_typed (q : ScenarioQuery) {segments : List Segment} {t : Ty}
    (h : typeOfIndexed typeOfPosition segments = some t) :
    Fine q (lookupsOfPath "positions".toList segments) (HasType t) (resolvePositions q segments) := by
  rcases segments with _ | ⟨_ | idx, rest⟩
  · cases h
  · cases h
  · cases idx with
    | int i => exact (positionNamed_fine _).then fun pos => positionField_typed pos h
    | str s => exact (positionNamed_fine s).then fun pos => positionField_typed pos h
    | ident s => exact (positionNamed_fine s).then fun pos => positionField_typed pos h
    | wildcard =>
      obtain ⟨t, ht, rfl⟩ := Option.map_eq_some_iff.mp h
      exact wildcard_fine fun pos => positionField_typed pos ht

theorem resolveSession_typed (q : ScenarioQuery) {segments : List Segment} {t : Ty}
    (h : typeOfSessions segments = some t) :
    Fine q (lookupsOfPath "session".toList segments) (HasType t) (resolveSession q segments) := by
  rcases segments with _ | ⟨_ | idx, rest⟩
  · cases h
  · cases h
  · cases hid : sessionId idx with
    | error e =>
      rw [typeOfSessions, hid] at h
      cases h
    | ok id =>
      rw [typeOfSessions, hid] at h
      have hlookups : lookupsOfPath "session".toList (.index idx :: rest) = [.session id] := by
        change (sessionId idx).toOption.toList.map Lookup.session = [.session id]
        rw [hid]
        rfl
      rw [hlookups, resolveSession, hid]
      exact (sessionAt_fine id).then fun metrics => sessionField_typed metrics h

theorem resolvePath_typed {alphabet : Alphabet} (q : ScenarioQuery) {root : List Char}
    {segments : List Segment} {t : Ty} (h : typeOfPath alphabet root segments = some t) :
    Goes q (lookupsOfPath root segments) (HasType t) (resolvePath alphabet q root segments) := by
  unfold typeOfPath at h
  unfold resolvePath
  split_ifs at h ⊢ with hnil
  · exact (resolveName_typed q h).mono (List.nil_subset _)
  · split at h
    · next hroot =>
      obtain rfl : root = "orders".toList := by rw [← hroot, String.toList_ofList]
      exact (resolveOrders_typed q h).goes
    · next hroot =>
      obtain rfl : root = "positions".toList := by rw [← hroot, String.toList_ofList]
      exact (resolvePositions_typed q h).goes
    · next hroot =>
      obtain rfl : root = "session".toList := by rw [← hroot, String.toList_ofList]
      exact (resolveSession_typed q h).goes
    · cases h

/-! ### Functions and operators -/

theorem flatten_cases (values : List Value) :
    flatten values = values ∨ ∃ items, values = [.list items] ∧ flatten values = items := by
  unfold flatten
  split
  · exact Or.inr ⟨_, rfl, rfl⟩
  · exact Or.inl rfl

/-- The values that a sum runs over may all be added up. -/
theorem summands_of_addsUp {ts : List Ty} {values : List Value} (hts : addsUp ts = true)
    (h : List.Forall₂ HasType ts values) :
    values ≠ [] ∧ ∀ v ∈ flatten values, v = .null ∨ ∃ n, v.asF64 = some n := by
  unfold addsUp at hts
  split at hts
  · cases hts
  · next t =>
    cases h with
    | @cons _ v _ _ hv hrest =>
      cases hrest
      cases v with
      | list items => exact ⟨by simp, fun w hw => (hv w hw).summand hts⟩
      | _ => cases hv
  · next hnil _ =>
    have hall : ∀ v ∈ values, v = .null ∨ ∃ n, v.asF64 = some n := by
      intro v hv
      obtain ⟨i, hi, rfl⟩ := List.getElem_of_mem hv
      have hi' : i < ts.length := by rw [h.length_eq]; exact hi
      exact (h.get hi' hi).summand (List.all_eq_true.mp hts _ (List.getElem_mem hi'))
    refine ⟨fun hvalues => hnil (by rw [hvalues] at h; cases h; rfl), ?_⟩
    rcases flatten_cases values with heq | ⟨items, rfl, -⟩
    · rw [heq]
      exact hall
    · -- A list cannot be added up, so it is not one of several arguments.
      rcases hall (.list items) (List.mem_singleton_self _) with hnull | ⟨n, hn⟩
      · cases hnull
      · cases hn

theorem addend_ok {v : Value} (h : v = .null ∨ ∃ n, v.asF64 = some n) : ∃ n, addend v = .ok n := by
  rcases h with rfl | ⟨n, hn⟩
  · exact ⟨0, rfl⟩
  · cases v with
    | null => cases hn
    | _ => exact ⟨n, by rw [addend, hn]; simp⟩

theorem better_ok (wantMax : Bool) (best : Option ℚ) {v : Value}
    (h : v = .null ∨ ∃ n, v.asF64 = some n) : ∃ best', better wantMax best v = .ok best' := by
  rcases h with rfl | ⟨n, hn⟩
  · exact ⟨best, rfl⟩
  · cases v with
    | null => cases hn
    | _ =>
      cases best with
      | none => exact ⟨some n, by simp [better, hn]⟩
      | some b => exact ⟨some (if wantMax then max b n else min b n), by simp [better, hn]⟩

theorem fnSum_typed (name : List Char) {values : List Value} (hnil : values ≠ [])
    (h : ∀ v ∈ flatten values, v = .null ∨ ∃ n, v.asF64 = some n) :
    ∃ v, fnSum name values = .ok v ∧ HasType .number v := by
  obtain ⟨total, htotal⟩ := foldlM_ok (f := fun acc v => do return acc + (← addend v)) (0 : ℚ)
    fun v hv acc => by
      obtain ⟨n, hn⟩ := addend_ok (h v hv)
      exact ⟨acc + n, by rw [hn]; rfl⟩
  refine ⟨.num total, ?_, trivial⟩
  rw [fnSum, if_neg hnil, htotal]
  rfl

theorem fnExtreme_typed (wantMax : Bool) (name : List Char) {values : List Value}
    (hnil : values ≠ []) (h : ∀ v ∈ flatten values, v = .null ∨ ∃ n, v.asF64 = some n) :
    ∃ v, fnExtreme wantMax name values = .ok v ∧ HasType .number v := by
  obtain ⟨best, hbest⟩ := foldlM_ok (f := better wantMax) none
    fun v hv acc => better_ok wantMax acc (h v hv)
  refine ⟨.num (best.getD 0), ?_, trivial⟩
  rw [fnExtreme, if_neg hnil, hbest]
  rfl

theorem callFunction_typed {name : List Char} {ts : List Ty} {values : List Value} {t : Ty}
    (h : typeOfCall name ts = some t) (hvalues : List.Forall₂ HasType ts values) :
    ∃ v, callFunction name values = .ok v ∧ HasType t v := by
  have hsums : (if addsUp ts then some Ty.number else none) = some t → t = .number ∧ values ≠ [] ∧
      ∀ v ∈ flatten values, v = .null ∨ ∃ n, v.asF64 = some n := by
    intro h
    split_ifs at h with hts
    exact ⟨(Option.some.inj h).symm, summands_of_addsUp hts hvalues⟩
  unfold typeOfCall at h
  unfold callFunction
  split at h
  · next hname =>
    obtain ⟨rfl, hnil, hall⟩ := hsums h
    rw [hname]
    exact fnSum_typed name hnil hall
  · next hname =>
    obtain ⟨rfl, hnil, hall⟩ := hsums h
    rw [hname]
    exact fnExtreme_typed true name hnil hall
  · next hname =>
    obtain ⟨rfl, hnil, hall⟩ := hsums h
    rw [hname]
    exact fnExtreme_typed false name hnil hall
  · next hname =>
    rw [hname]
    split_ifs at h with hts
    obtain rfl := Option.some.inj h
    have hnil : values ≠ [] := fun hv => hts (by rw [hv] at hvalues; cases hvalues; rfl)
    exact ⟨.int (.ofNat (flatten values).length), by simp [fnCount, hnil], trivial⟩
  · next hname =>
    rw [hname]
    split_ifs at h with hts
    obtain rfl := Option.some.inj h
    subst hts
    cases hvalues
    exact ⟨.num 5, rfl, trivial⟩
  · cases h

theorem cmpTotal_typed {t u : Ty} {l r : Value} (hl : HasType t l) (hr : HasType u r)
    (h : t.numeric ∧ u.numeric ∨ t = .str ∧ u = .str) : ∃ ord, l.cmpTotal r = some ord := by
  rcases h with ⟨ht, hu⟩ | ⟨rfl, rfl⟩
  · obtain ⟨a, ha⟩ := hl.asF64 ht
    obtain ⟨b, hb⟩ := hr.asF64 hu
    exact ⟨compare a b, by simp only [Value.cmpTotal, ha, hb]⟩
  · obtain ⟨a, rfl⟩ := hl.of_str
    obtain ⟨b, rfl⟩ := hr.of_str
    exact ⟨compare a b, rfl⟩

theorem evalBinop_typed {op : BinOp} {t u result : Ty} {l r : Value}
    (h : typeOfBinop op t u = some result) (hl : HasType t l) (hr : HasType u r) :
    ∃ v, evalBinop op l r = .ok v ∧ HasType result v := by
  have hordered : (if t.numeric ∧ u.numeric ∨ t = .str ∧ u = .str then some Ty.bool else none) =
      some result → result = .bool ∧ ∃ ord, l.cmpTotal r = some ord := by
    intro h
    split_ifs at h with hcmp
    exact ⟨(Option.some.inj h).symm, cmpTotal_typed hl hr hcmp⟩
  cases op with
  | eq =>
    obtain rfl := Option.some.inj h
    exact ⟨.bool (l.eq r), rfl, trivial⟩
  | neq =>
    obtain rfl := Option.some.inj h
    exact ⟨.bool !(l.eq r), rfl, trivial⟩
  | _ =>
    obtain ⟨rfl, ord, hord⟩ := hordered h
    exact ⟨.bool (BinOp.holds _ ord), by rw [evalBinop, hord] <;> simp, trivial⟩

/-! ### Expressions -/

section

variable {q : ScenarioQuery} {asked asked' : List Lookup}

theorem coerceBool_goes {v : Value} (h : HasType .bool v) :
    Goes q asked (fun _ => True) (ok? (coerceBool v)) := by
  obtain ⟨b, rfl⟩ := h.of_bool
  exact Goes.pure trivial

/-- The second operand of a junction decides, unless the first one does. -/
theorem junction_goes {l r : Outcome Value} (stop : Bool) (hl : Goes q asked (HasType .bool) l)
    (hr : Goes q asked' (HasType .bool) r) :
    Goes q (asked ++ asked') (HasType .bool) (do
      let a ← ok? (coerceBool (← l))
      if a = stop then return .bool stop
      return .bool (← ok? (coerceBool (← r)))) := by
  refine hl.left.bind fun v hv => (coerceBool_goes hv).bind fun a _ => ?_
  split
  · exact Goes.pure trivial
  · exact hr.right.bind fun w hw => (coerceBool_goes hw).bind fun b _ => Goes.pure trivial

end

mutual

theorem eval_goes {alphabet : Alphabet} (q : ScenarioQuery) : ∀ {e : Expr ℚ} {t : Ty},
    typeOf alphabet e = some t → Goes q (lookups e) (HasType t) (eval alphabet q e)
  | .literal v, _, h => by
    obtain rfl := Option.some.inj h
    exact Goes.pure (hasType_ofLiteral v)
  | .path _ _, _, h => resolvePath_typed q h
  | .call name args, _, h => by
    obtain ⟨ts, hts, ht⟩ := Option.bind_eq_some_iff.mp h
    refine (evalAll_goes q hts).bind fun values hvalues => ?_
    obtain ⟨v, hv, htyped⟩ := callFunction_typed ht hvalues
    rw [hv]
    exact Goes.pure htyped
  | .binOp op lhs rhs, _, h => by
    obtain ⟨l, hl, h⟩ := Option.bind_eq_some_iff.mp h
    obtain ⟨r, hr, ht⟩ := Option.bind_eq_some_iff.mp h
    refine (eval_goes q hl).left.bind fun v hv => (eval_goes q hr).right.bind fun w hw => ?_
    obtain ⟨result, hresult, htyped⟩ := evalBinop_typed ht hv hw
    rw [hresult]
    exact Goes.pure htyped
  | .and lhs rhs, t, h => by
    rw [typeOf] at h
    split_ifs at h with hboth
    obtain rfl := Option.some.inj h
    exact junction_goes false (eval_goes q hboth.1) (eval_goes q hboth.2)
  | .or lhs rhs, t, h => by
    rw [typeOf] at h
    split_ifs at h with hboth
    obtain rfl := Option.some.inj h
    exact junction_goes true (eval_goes q hboth.1) (eval_goes q hboth.2)

theorem evalAll_goes {alphabet : Alphabet} (q : ScenarioQuery) : ∀ {es : List (Expr ℚ)} {ts : List Ty},
    typeOfAll alphabet es = some ts →
      Goes q (lookupsAll es) (List.Forall₂ HasType ts) (evalAll alphabet q es)
  | [], _, h => by
    obtain rfl := Option.some.inj h
    exact Goes.pure List.Forall₂.nil
  | arg :: args, _, h => by
    obtain ⟨t, ht, h⟩ := Option.bind_eq_some_iff.mp h
    obtain ⟨ts, hts, rfl⟩ := Option.map_eq_some_iff.mp h
    exact (eval_goes q ht).left.bind fun v hv => (evalAll_goes q hts).right.bind fun values hvalues =>
      Goes.pure (List.Forall₂.cons hv hvalues)

end

section

/-- `sum(orders[*].filled) >= 100 && positions["AAPL"].qty > 0`. -/
def filledAndHeld : Expr ℚ :=
  .and
    (.binOp .ge (.call "sum".toList [.path "orders".toList [.index .wildcard, .field "filled".toList]])
      (.literal (.int 100)))
    (.binOp .gt (.path "positions".toList [.index (.str "AAPL".toList), .field "qty".toList])
      (.literal (.int 0)))

def emptyQuery : ScenarioQuery := ⟨[], fun _ => none, [], fun _ => none, ⟨0, Nat.zero_le _⟩⟩

end

end Midas.Dsl.Interpreter
