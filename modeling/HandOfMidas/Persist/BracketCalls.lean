import HandOfMidas.Persist.OrderRepo

/-! What the three bracket calls do to the tables when their statements succeed, in one form: each
    leg the call handles has its stored status moved and one audit row appended, and nothing else
    changes. -/

namespace Midas.Persist

open Midas.Broker Sql

/-! ### Reading the tables -/

namespace Tables

variable (t : Tables) (k : String)

theorem statusOf_insert (order : OrderRow) :
    (t.insert order).statusOf k = if k = order.localId then some order.status else t.statusOf k := by
  unfold statusOf insert
  rw [Store.get?_put]
  split <;> rfl

/-- An update that keeps the key rewrites the row under that key. -/
theorem statusOf_update (localId : String) (f : OrderRow → OrderRow) (st : String)
    (hkey : ∀ o, (f o).localId = o.localId) (hst : ∀ o, (f o).status = st) :
    (t.update localId f).statusOf k =
      if k = localId then (t.statusOf k).map fun _ => st else t.statusOf k := by
  unfold update
  cases h : t.orders.get? localId with
  | none =>
    by_cases hk : k = localId
    · subst hk
      simp [statusOf, h]
    · simp [hk]
  | some o =>
    have hlocal : (f o).localId = localId := by rw [hkey, Store.key_of_get? h]
    show ((t.orders.put (f o)).get? k).map (·.status) = _
    rw [Store.get?_put, hlocal]
    by_cases hk : k = localId
    · subst hk
      simp [statusOf, h, hst]
    · simp [hk, statusOf]

@[simp] theorem statusOf_log (row : AuditRow) : (t.log row).statusOf k = t.statusOf k := rfl

@[simp] theorem auditOf_insert (order : OrderRow) : (t.insert order).auditOf k = t.auditOf k := rfl

@[simp] theorem auditOf_update (localId : String) (f : OrderRow → OrderRow) :
    (t.update localId f).auditOf k = t.auditOf k := by
  unfold update
  split <;> rfl

theorem auditOf_log (row : AuditRow) :
    (t.log row).auditOf k = t.auditOf k ++ if row.orderLocalId = k then [row] else [] := by
  unfold auditOf log
  rw [List.filter_append]
  by_cases h : row.orderLocalId = k <;> simp [h]

end Tables

/-! ### One leg -/

variable {γ : Type} (fmt : TextFormats γ) (times : Times) (call : Call) (leg : LocalOrder γ)

/-- The status a call writes down as the one the leg comes from. -/
def Call.origin : Call → LocalOrder γ → OrderStatus
  | .persistAndTransitionToPendingSubmit, _ => .inactive
  | _, leg => leg.status

/-- The audit row a call writes for a leg. -/
def Call.auditRow : AuditRow where
  orderLocalId := fmt.uuid leg.id
  timestamp := times.sqlNow leg.id
  fromStatus := (call.origin leg).toText
  toStatus := call.target.toText
  details :=
    match call with
    | .persistAndTransitionToPendingSubmit => none
    | .transitionBracketToError reason => some reason
    | .transitionBracketToRejected reason => some reason
  source :=
    match call with
    | .persistAndTransitionToPendingSubmit => "persist_and_transition_to_pending_submit"
    | .transitionBracketToError _ => "transition_bracket_to_error"
    | .transitionBracketToRejected _ => "transition_bracket_to_rejected"

/-- The number of statements a call issues for a leg. -/
def Call.length : ℕ :=
  match call with
  | .persistAndTransitionToPendingSubmit => 3
  | _ => if leg.status.isTerminal then 0 else 2

/-- What a call needs of the tables for a leg: an insertion needs a new id. -/
def Call.needs (t : Tables) : Prop :=
  match call with
  | .persistAndTransitionToPendingSubmit => t.statusOf (fmt.uuid leg.id) = none
  | _ => True

/-- The row of a leg with its status moved. -/
def Call.restated (o : OrderRow) : OrderRow :=
  { o with
    status := call.target.toText
    updatedAt := fmt.rfc3339 (times.utcNow leg.id) }

/-- What a call does to the tables for a leg. -/
def Call.writes (t : Tables) : Tables :=
  match call with
  | .persistAndTransitionToPendingSubmit =>
    ((t.insert (localToOrderRow fmt leg)).update (fmt.uuid leg.id)
      (call.restated fmt times leg)).log (call.auditRow fmt times leg)
  | _ =>
    if leg.status.isTerminal then t
    else (t.update (fmt.uuid leg.id) (call.restated fmt times leg)).log
      (call.auditRow fmt times leg)

variable {fails : ℕ → Bool}

theorem inPlace_transitionLeg (target : OrderStatus) (source reason : String) :
    InPlace (transitionLeg fails fmt times target source reason leg) := by
  unfold transitionLeg
  split
  · exact InPlace.pure ()
  · exact InPlace.bind (InPlace.statement fails _) fun _ => InPlace.statement fails _

theorem inPlace_leg : InPlace (call.leg fails fmt times leg) := by
  cases call with
  | persistAndTransitionToPendingSubmit =>
    exact InPlace.bind (InPlace.statement fails _) fun _ =>
      InPlace.bind (InPlace.statement fails _) fun _ => InPlace.statement fails _
  | transitionBracketToError reason => exact inPlace_transitionLeg fmt times leg _ _ _
  | transitionBracketToRejected reason => exact inPlace_transitionLeg fmt times leg _ _ _

/-- An insertion goes through exactly when the id is new. -/
theorem effect_insertOrder (order : OrderRow) : Effect fails (insertOrder fails order) 1
    (fun t => t.statusOf order.localId = none) (Tables.insert order) := by
  refine (Effect.statement fun t a t' h => ?_).congr (fun t => ?_) fun _ => rfl
  · cases hg : t.orders.get? order.localId with
    | some o => simp [hg] at h
    | none =>
      simp only [hg, Except.ok.injEq, Prod.mk.injEq] at h
      exact h.2
  · unfold Tables.statusOf
    cases hg : t.orders.get? order.localId <;> simp

theorem insertOrder_refused {order : OrderRow} {c : Conn Tables}
    (h : c.tables.statusOf order.localId ≠ none) :
    ∃ e, insertOrder fails order c = (.error e, { c with issued := c.issued + 1 }) := by
  unfold insertOrder
  refine statement_refused fails (e := .constraint) ?_
  unfold Tables.statusOf at h
  cases hg : c.tables.orders.get? order.localId with
  | none => simp [hg] at h
  | some row => rfl

theorem effect_updateOrderStatus (localId newStatus updatedAt : String) :
    Effect fails (updateOrderStatus fails localId newStatus updatedAt) 1 (fun _ => True)
      (Tables.update localId fun o => { o with status := newStatus, updatedAt := updatedAt }) :=
  Effect.statement_total _

theorem effect_writeAudit (now orderLocalId fromStatus toStatus : String) (details : Option String)
    (source : String) :
    Effect fails (writeAudit fails now orderLocalId fromStatus toStatus details source) 1
      (fun _ => True) (Tables.log ⟨orderLocalId, now, fromStatus, toStatus, details, source⟩) :=
  Effect.statement_total _

theorem effect_transitionLeg (target : OrderStatus) (source reason : String) :
    Effect fails (transitionLeg fails fmt times target source reason leg)
      (if leg.status.isTerminal then 0 else 2) (fun _ => True)
      (fun t => if leg.status.isTerminal then t else
        (t.update (fmt.uuid leg.id) fun o =>
          { o with
            status := target.toText
            updatedAt := fmt.rfc3339 (times.utcNow leg.id) }).log
          ⟨fmt.uuid leg.id, times.sqlNow leg.id, leg.status.toText, target.toText, some reason,
            source⟩) := by
  unfold transitionLeg
  cases h : leg.status.isTerminal with
  | true => exact Effect.pure ()
  | false =>
    exact ((effect_updateOrderStatus _ _ _).bind fun _ => effect_writeAudit _ _ _ _ _ _).congr
      (fun _ => and_self_iff) fun _ => rfl

theorem effect_leg : Effect fails (call.leg fails fmt times leg) (call.length leg)
    (call.needs fmt leg) (call.writes fmt times leg) := by
  cases call with
  | persistAndTransitionToPendingSubmit =>
    refine ((effect_insertOrder (localToOrderRow fmt leg)).bind fun _ =>
      (effect_updateOrderStatus _ _ _).bind fun _ => effect_writeAudit _ _ _ _ _ _).congr
      (fun t => ?_) fun _ => rfl
    rw [and_self_iff, and_true]
    exact Iff.rfl
  | transitionBracketToError reason =>
    exact (effect_transitionLeg fmt times leg _ _ _).congr (fun _ => Iff.rfl) fun _ => rfl
  | transitionBracketToRejected reason =>
    exact (effect_transitionLeg fmt times leg _ _ _).congr (fun _ => Iff.rfl) fun _ => rfl

/-- How a call moves the stored status of a leg: an insertion creates it. -/
def Call.move (stored : Option String) : Option String :=
  match call with
  | .persistAndTransitionToPendingSubmit => some call.target.toText
  | _ => stored.map fun _ => call.target.toText

theorem Call.move_move (x : Option String) : call.move (call.move x) = call.move x := by
  cases call <;> cases x <;> rfl

theorem statusOf_writes (t : Tables) (k : String) : (call.writes fmt times leg t).statusOf k =
    if call.handles leg = true ∧ fmt.uuid leg.id = k then call.move (t.statusOf k)
    else t.statusOf k := by
  have hupdate : ∀ t' : Tables,
      (t'.update (fmt.uuid leg.id) (call.restated fmt times leg)).statusOf k =
        if k = fmt.uuid leg.id then (t'.statusOf k).map fun _ => call.target.toText
        else t'.statusOf k :=
    fun t' => t'.statusOf_update k _ _ _ (fun _ => rfl) fun _ => rfl
  cases call with
  | persistAndTransitionToPendingSubmit =>
    have hid : (localToOrderRow fmt leg).localId = fmt.uuid leg.id := rfl
    simp only [Call.writes, Tables.statusOf_log, hupdate, Tables.statusOf_insert, hid]
    by_cases hk : k = fmt.uuid leg.id
    · simp [hk, Call.handles, Call.move]
    · simp [hk, Ne.symm hk]
  | _ =>
    simp only [Call.writes, Call.handles, Call.move]
    by_cases hterm : leg.status.isTerminal = true
    · simp [hterm]
    · simp [hterm, hupdate, eq_comm]

theorem auditOf_writes (t : Tables) (k : String) : (call.writes fmt times leg t).auditOf k =
    t.auditOf k ++
      if call.handles leg = true ∧ fmt.uuid leg.id = k then [call.auditRow fmt times leg] else [] := by
  have hid : (call.auditRow fmt times leg).orderLocalId = fmt.uuid leg.id := rfl
  cases call with
  | persistAndTransitionToPendingSubmit =>
    simp only [Call.writes, Tables.auditOf_log, Tables.auditOf_update, Tables.auditOf_insert, hid]
    simp [Call.handles]
  | _ =>
    simp only [Call.writes, Call.handles]
    by_cases hterm : leg.status.isTerminal = true
    · simp [hterm]
    · simp [hterm, Tables.auditOf_log, hid]

/-! ### All legs -/

variable (group : BracketGroup γ) (c : Conn Tables)

/-- What a call does to the tables for a list of legs. -/
def Call.writesAll (legs : List (LocalOrder γ)) (t : Tables) : Tables :=
  legs.foldl (fun t leg => call.writes fmt times leg t) t

/-- The stored status of an order is moved when a handled leg has its id. -/
theorem statusOf_writesAll (k : String) : ∀ (legs : List (LocalOrder γ)) (t : Tables),
    (call.writesAll fmt times legs t).statusOf k =
      if ∃ leg ∈ legs, call.handles leg = true ∧ fmt.uuid leg.id = k then call.move (t.statusOf k)
      else t.statusOf k
  | [], t => by simp [Call.writesAll]
  | leg :: legs, t => by
    have hrest := statusOf_writesAll k legs (call.writes fmt times leg t)
    rw [statusOf_writes] at hrest
    rw [Call.writesAll, List.foldl_cons, ← Call.writesAll, hrest]
    by_cases hleg : call.handles leg = true ∧ fmt.uuid leg.id = k
    · simp [hleg, call.move_move]
    · simp only [List.mem_cons, exists_eq_or_imp, hleg, false_or, if_false]

theorem auditOf_writesAll (k : String) : ∀ (legs : List (LocalOrder γ)) (t : Tables),
    (call.writesAll fmt times legs t).auditOf k = t.auditOf k ++
      (legs.filter fun leg => call.handles leg ∧ fmt.uuid leg.id = k).map
        (call.auditRow fmt times)
  | [], t => by simp [Call.writesAll]
  | leg :: legs, t => by
    have hrest := auditOf_writesAll k legs (call.writes fmt times leg t)
    rw [auditOf_writes] at hrest
    rw [Call.writesAll, List.foldl_cons, ← Call.writesAll, hrest, List.filter_cons]
    by_cases hleg : call.handles leg = true ∧ fmt.uuid leg.id = k
    · simp [hleg]
    · rw [if_neg hleg, if_neg (by simpa using hleg), List.append_nil]

/-- The number of statements of a call, `BEGIN` and `COMMIT` included. -/
def Call.statements : ℕ := (group.legs.map call.length).sum + 2

/-- A call can insert what it inserts: the ids of the legs are new and distinct. -/
def Call.Insertable (legs : List (LocalOrder γ)) (t : Tables) : Prop :=
  match call with
  | .persistAndTransitionToPendingSubmit =>
    (∀ leg ∈ legs, t.statusOf (fmt.uuid leg.id) = none) ∧ (legs.map (·.id)).Nodup
  | _ => True

/-- Each leg finds what it needs after the earlier ones exactly when the call is insertable. -/
theorem passes_iff : ∀ (legs : List (LocalOrder γ)) (t : Tables),
    Passes (call.needs fmt) (call.writes fmt times) legs t ↔ call.Insertable fmt legs t
  | [], t => by cases call <;> simp [Passes, Call.Insertable]
  | leg :: legs, t => by
    rw [Passes, passes_iff legs]
    cases call with
    | persistAndTransitionToPendingSubmit =>
      have hafter : ∀ leg' : LocalOrder γ,
          (Call.writes fmt times .persistAndTransitionToPendingSubmit leg t).statusOf
              (fmt.uuid leg'.id) = none ↔
            leg'.id ≠ leg.id ∧ t.statusOf (fmt.uuid leg'.id) = none := by
        intro leg'
        rw [statusOf_writes]
        by_cases h : leg.id = leg'.id
        · simp [h, Call.handles, Call.move]
        · have hne : fmt.uuid leg.id ≠ fmt.uuid leg'.id := fun h' => h (fmt.uuid_injective h')
          simp [hne, Ne.symm h]
      simp only [Call.Insertable, Call.needs, hafter, List.mem_cons, forall_eq_or_imp, List.map_cons,
        List.nodup_cons, List.mem_map, not_exists, not_and]
      constructor
      · rintro ⟨h, hall, hnd⟩
        exact ⟨⟨h, fun l hl => (hall l hl).2⟩, fun l hl => (hall l hl).1, hnd⟩
      · rintro ⟨⟨h, hall⟩, hne, hnd⟩
        exact ⟨h, fun l hl => ⟨hne l hl, hall l hl⟩, hnd⟩
    | _ => simp [Call.Insertable, Call.needs]

/-! ### The outcome of a call -/

theorem legs_pendingSubmit (group : BracketGroup γ) :
    group.pendingSubmit.legs = group.legs.map fun leg => { leg with status := .pendingSubmit } := by
  obtain ⟨parent, tp, sl⟩ := group
  cases tp <;> cases sl <;> rfl

theorem effect_legs : Effect fails (forEach (call.leg fails fmt times) group.legs)
    (group.legs.map call.length).sum (call.Insertable fmt group.legs)
    (call.writesAll fmt times group.legs) :=
  (Effect.forEach (fun leg => effect_leg fmt times call leg) group.legs).congr
    (passes_iff fmt times call group.legs) fun _ => rfl

theorem exec_conn : (call.exec fails fmt times group c).conn =
    (transaction fails (forEach (call.leg fails fmt times) group.legs) c).2 := by
  rw [Call.exec_eq, inTransaction]
  split <;> simp [*]

/-- A call succeeds exactly when no transaction is open, none of its statements fails and its
    insertions find new ids. -/
theorem exec_ok_iff : (call.exec fails fmt times group c).result = .ok () ↔
    c.saved = none ∧ Quiet fails c.issued (call.statements group) ∧
      call.Insertable fmt group.legs c.tables := by
  refine Iff.trans ?_ (transaction_ok_iff (effect_legs fmt times call group))
  rw [Call.exec_eq, inTransaction]
  cases h : transaction fails (forEach (call.leg fails fmt times) group.legs) c with
  | mk r c' => cases r <;> simp

/-- What a call that succeeds leaves behind. -/
theorem exec_of_ok (h : (call.exec fails fmt times group c).result = .ok ()) :
    call.exec fails fmt times group c =
      ⟨.ok (), { tables := call.writesAll fmt times group.legs c.tables, saved := none,
                 issued := c.issued + call.statements group }, call.memory group⟩ := by
  obtain ⟨hs, hq, hins⟩ := (exec_ok_iff fmt times call group c).mp h
  rw [Call.exec_eq, inTransaction,
    transaction_of_quiet (effect_legs fmt times call group) hs hq hins]
  rfl

/-- A call that fails never touches the group in memory. -/
theorem exec_group_of_error {e : SqlError}
    (h : (call.exec fails fmt times group c).result = .error e) :
    (call.exec fails fmt times group c).group = group := by
  rw [Call.exec_eq, inTransaction] at h ⊢
  cases ht : transaction fails (forEach (call.leg fails fmt times) group.legs) c with
  | mk r c' =>
    rw [ht] at h
    cases r with
    | ok _ => cases h
    | error e' => rfl

/-- A call whose `BEGIN` is refused changes nothing. -/
theorem exec_refused (h : fails c.issued = true ∨ c.saved.isSome = true) :
    ∃ e, call.exec fails fmt times group c =
      ⟨.error e, { c with issued := c.issued + 1 }, group⟩ := by
  obtain ⟨e, he⟩ := transaction_refused (forEach (call.leg fails fmt times) group.legs) h
  refine ⟨e, ?_⟩
  rw [Call.exec_eq, inTransaction, he]

/-- A call that fails after its `BEGIN` leaves the transaction open. -/
theorem exec_left_open (hb : fails c.issued = false) (hs : c.saved = none) {e : SqlError}
    (h : (call.exec fails fmt times group c).result = .error e) :
    (call.exec fails fmt times group c).conn.saved = some c.tables := by
  have hin : InPlace (forEach (call.leg fails fmt times) group.legs) :=
    InPlace.forEach (fun leg => inPlace_leg fmt times call leg) group.legs
  rw [Call.exec_eq, inTransaction] at h ⊢
  have hopen := fun e' => transaction_left_open (e := e') hin hb hs
  cases ht : transaction fails (forEach (call.leg fails fmt times) group.legs) c with
  | mk r c' =>
    rw [ht] at h hopen
    cases r with
    | ok _ => cases h
    | error e' => exact hopen e' rfl

/-! ### A bracket of three legs -/

/-- The texts of the orders below: they carry no JSON, and every reading of the clock is the epoch. -/
def sampleFormats : TextFormats String where
  uuid := hyphenated
  uuid_injective := hyphenated_injective
  rfc3339 := fun _ => "1970-01-01T00:00:00+00:00"
  jsonTags := fun _ => none
  jsonValue := fun _ => none

def sampleTimes : Times := ⟨fun _ => 0, fun _ => "1970-01-01 00:00:00"⟩

def sampleOrder (id : Uuid) (action : OrderAction) (orderType : OrderKind)
    (bracketRole : BracketRole) : LocalOrder String :=
  { id := id, symbol := "AAPL", action := action, orderType := orderType, quantity := 100,
    status := .inactive, bracketRole := some bracketRole, createdAt := 0, updatedAt := 0 }

/-- A market entry with a take-profit at 195 and a stop-loss at 180, not yet persisted. -/
def sampleGroup : BracketGroup String where
  parent := sampleOrder 1 .buy .market .parent
  takeProfit := some { sampleOrder 2 .sell .limit .takeProfit with
    parentId := some 1, limitPrice := some 195 }
  stopLoss := some { sampleOrder 3 .sell .stop .stopLoss with
    parentId := some 1, stopPrice := some 180 }

end Midas.Persist
