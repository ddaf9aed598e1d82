import HandOfMidas.Lib.Run
import HandOfMidas.Persist.BracketCalls

/-! Are the bracket calls atomic? A call is wrapped in `BEGIN` and `COMMIT`, but nothing rolls back:
    when a statement between them fails, the early return leaves the transaction open and every later
    call is refused. And the two transitions leave the statuses in memory alone, so what is stored
    and what is in memory come apart. -/

namespace Midas.Persist

open Midas.Broker Sql

variable {γ : Type} (fmt : TextFormats γ) (fails : ℕ → Bool)

/-! ### Runs of the repository -/

inductive Op (γ : Type) where
  | insertOrder (order : OrderRow)
  | updateOrderStatus (localId newStatus updatedAt : String)
  | updateOrderFill (localId : String) (filledQty remainingQty avgFillPrice lastFillPrice : ℚ)
      (commission : Option ℚ) (updatedAt : String)
  | writeAudit (now orderLocalId fromStatus toStatus : String) (details : Option String)
      (source : String)
  | updateStatusAndAudit (now localId oldStatus newStatus updatedAt : String)
      (details : Option String) (source : String)
  | insertFill (fill : FillRow)
  | bracket (call : Call) (group : BracketGroup γ) (times : Times)

/-- The connection after an operation, whatever it answered. -/
def step (c : Conn Tables) : Op γ → Conn Tables
  | .insertOrder order => (insertOrder fails order c).2
  | .updateOrderStatus localId newStatus updatedAt =>
    (updateOrderStatus fails localId newStatus updatedAt c).2
  | .updateOrderFill localId filledQty remainingQty avgFillPrice lastFillPrice commission
      updatedAt =>
    (updateOrderFill fails localId filledQty remainingQty avgFillPrice lastFillPrice commission
      updatedAt c).2
  | .writeAudit now orderLocalId fromStatus toStatus details source =>
    (writeAudit fails now orderLocalId fromStatus toStatus details source c).2
  | .updateStatusAndAudit now localId oldStatus newStatus updatedAt details source =>
    (updateStatusAndAudit fails now localId oldStatus newStatus updatedAt details source c).2
  | .insertFill fill => (insertFill fails fill c).2
  | .bracket call group times => (call.exec fails fmt times group c).conn

/-- A connection to an empty database. -/
def connect : Conn Tables := { tables := .empty }

/-- Only the bracket calls open or close a transaction. -/
theorem saved_step_of_not_call {c : Conn Tables} {op : Op γ}
    (h : ∀ call group times, op ≠ .bracket call group times) :
    (step fmt fails c op).saved = c.saved := by
  cases op with
  | updateStatusAndAudit now localId oldStatus newStatus updatedAt details source =>
    exact InPlace.bind (InPlace.statement fails _) (fun _ => InPlace.statement fails _) c
  | bracket call group times => exact absurd rfl (h call group times)
  | _ => exact InPlace.statement fails _ c

/-! ### The contract and the condition -/

/-- The call's own statements succeed on this connection: none of them fails, and its insertions
    find new ids. -/
def Call.Runs (call : Call) (group : BracketGroup γ) (c : Conn Tables) : Prop :=
  Quiet fails c.issued (call.statements group) ∧ call.Insertable fmt group.legs c.tables

/-- A call that fails leaves rows, audit rows and memory as they were and no transaction open, so
    that the next call succeeds if its own statements do; after a call that succeeds the stored and
    the remembered status of every leg agree. -/
structure Outcome.Atomic (o : Outcome γ) (group : BracketGroup γ) (c : Conn Tables) : Prop where
  unchanged : ∀ e, o.result = .error e → o.conn.tables = c.tables ∧ o.group = group
  closed : ∀ e, o.result = .error e → o.conn.saved = none
  usable : ∀ e, o.result = .error e → ∀ (call : Call) (group' : BracketGroup γ) (times : Times),
    call.Runs fmt fails group' o.conn → (call.exec fails fmt times group' o.conn).result = .ok ()
  agree : o.result = .ok () →
    ∀ leg ∈ o.group.legs, o.conn.tables.statusOf (fmt.uuid leg.id) = some leg.status.toText

/-- What is in memory is what a call will store: nothing is asked of the call that also writes the
    memory, and of a transition that every live leg has its target status already (and a row), and
    every terminal leg is stored under its status and shares its id with no live leg. -/
def Call.Remembered (call : Call) (group : BracketGroup γ) (t : Tables) : Prop :=
  match call with
  | .persistAndTransitionToPendingSubmit => True
  | _ => ∀ leg ∈ group.legs,
    if leg.status.isTerminal then
      t.statusOf (fmt.uuid leg.id) = some leg.status.toText ∧
        ∀ leg' ∈ group.legs, leg'.id = leg.id → leg'.status.isTerminal = true
    else leg.status = call.target ∧ t.statusOf (fmt.uuid leg.id) ≠ none

/-- The call's `BEGIN` fails, or all its statements succeed and the group is remembered as stored. -/
def Call.Settles (call : Call) (group : BracketGroup γ) (c : Conn Tables) : Prop :=
  fails c.issued = true ∨ call.Runs fmt fails group c ∧ call.Remembered fmt group c.tables

/-! ### Stored and remembered statuses after a successful call -/

/-- A transition leaves every leg stored under its remembered status exactly when the group was
    remembered as the transition stores it. -/
theorem agree_transition_iff (target : OrderStatus) (legs : List (LocalOrder γ)) (t : Tables) :
    (∀ leg ∈ legs,
      (if ∃ leg' ∈ legs, (!leg'.status.isTerminal) = true ∧ fmt.uuid leg'.id = fmt.uuid leg.id then
        (t.statusOf (fmt.uuid leg.id)).map fun _ => target.toText
      else t.statusOf (fmt.uuid leg.id)) = some leg.status.toText) ↔
    ∀ leg ∈ legs,
      if leg.status.isTerminal then
        t.statusOf (fmt.uuid leg.id) = some leg.status.toText ∧
          ∀ leg' ∈ legs, leg'.id = leg.id → leg'.status.isTerminal = true
      else leg.status = target ∧ t.statusOf (fmt.uuid leg.id) ≠ none := by
  have hmap : ∀ (leg : LocalOrder γ) (x : Option String),
      (x.map fun _ => target.toText) = some leg.status.toText ↔ leg.status = target ∧ x ≠ none := by
    intro leg x
    cases x with
    | none => simp
    | some st => simp [OrderStatus.toText_injective.eq_iff, eq_comm]
  constructor
  · intro h leg hleg
    have hown := h leg hleg
    cases hterm : leg.status.isTerminal with
    | false =>
      rw [if_pos ⟨leg, hleg, by simp [hterm], rfl⟩, hmap] at hown
      exact hown
    | true =>
      -- A live leg with the same id would have the target status, and so would this one.
      have hall : ∀ leg' ∈ legs, leg'.id = leg.id → leg'.status.isTerminal = true := by
        intro leg' hleg' hid
        by_contra hlive
        have hlive' : (!leg'.status.isTerminal) = true := by simpa using hlive
        have hother := h leg' hleg'
        rw [if_pos ⟨leg', hleg', hlive', rfl⟩, hmap] at hother
        rw [if_pos ⟨leg', hleg', hlive', by rw [hid]⟩, hmap] at hown
        rw [hother.1, ← hown.1] at hlive
        exact hlive hterm
      rw [if_neg] at hown
      · exact ⟨hown, hall⟩
      · rintro ⟨leg', hleg', hlive, hid⟩
        simp [hall leg' hleg' (fmt.uuid_injective hid)] at hlive
  · intro h leg hleg
    have hown := h leg hleg
    cases hterm : leg.status.isTerminal with
    | false =>
      rw [if_pos ⟨leg, hleg, by simp [hterm], rfl⟩, hmap]
      rwa [hterm] at hown
    | true =>
      rw [if_pos hterm] at hown
      rw [if_neg]
      · exact hown.1
      · rintro ⟨leg', hleg', hlive, hid⟩
        simp [hown.2 leg' hleg' (fmt.uuid_injective hid)] at hlive

/-- After a call, stored and remembered statuses agree exactly when the group was remembered as the
    call stores it. -/
theorem agree_iff_remembered (call : Call) (group : BracketGroup γ) (times : Times) (t : Tables) :
    (∀ leg ∈ (call.memory group).legs,
      (call.writesAll fmt times group.legs t).statusOf (fmt.uuid leg.id) =
        some leg.status.toText) ↔ call.Remembered fmt group t := by
  simp only [statusOf_writesAll]
  cases call with
  | persistAndTransitionToPendingSubmit =>
    simp only [Call.memory, Call.Remembered, iff_true, legs_pendingSubmit, List.mem_map]
    rintro _ ⟨leg, hleg, rfl⟩
    rw [if_pos ⟨leg, hleg, rfl, rfl⟩]
    rfl
  | transitionBracketToError reason => exact agree_transition_iff fmt .error group.legs t
  | transitionBracketToRejected reason => exact agree_transition_iff fmt .rejected group.legs t

/-- On a connection without an open transaction, a call keeps its contract exactly when its `BEGIN`
    fails or it runs through on a group remembered as stored. -/
theorem atomic_iff (call : Call) (group : BracketGroup γ) (times : Times) {c : Conn Tables}
    (hs : c.saved = none) : (call.exec fails fmt times group c).Atomic fmt fails group c ↔
      call.Settles fmt fails group c := by
  constructor
  · intro h
    cases hb : fails c.issued with
    | true => exact Or.inl hb
    | false =>
      right
      cases hr : (call.exec fails fmt times group c).result with
      | error e =>
        have hopen := exec_left_open fmt times call group c hb hs hr
        rw [h.closed e hr] at hopen
        cases hopen
      | ok _ =>
        have hok := (exec_ok_iff fmt times call group c).mp hr
        refine ⟨hok.2, (agree_iff_remembered fmt call group times c.tables).mp ?_⟩
        have hagree := h.agree hr
        rwa [exec_of_ok fmt times call group c hr] at hagree
  · rintro (hb | ⟨hruns, hrem⟩)
    · obtain ⟨e, he⟩ := exec_refused fmt times call group c (Or.inl hb)
      rw [he]
      refine ⟨fun _ _ => ⟨rfl, rfl⟩, fun _ _ => hs, fun _ _ call' group' times' hruns => ?_, nofun⟩
      exact (exec_ok_iff fmt times' call' group' _).mpr ⟨hs, hruns⟩
    · have hok := (exec_ok_iff fmt times call group c).mpr ⟨hs, hruns⟩
      rw [exec_of_ok fmt times call group c hok]
      refine ⟨nofun, nofun, nofun, fun _ => ?_⟩
      exact (agree_iff_remembered fmt call group times c.tables).mpr hrem

/-! ### Runs -/

/-- Every bracket call among the operations keeps its contract. -/
def Op.Atomic (c : Conn Tables) (op : Op γ) : Prop :=
  match op with
  | .bracket call group times => (call.exec fails fmt times group c).Atomic fmt fails group c
  | _ => True

def Op.Settles (c : Conn Tables) (op : Op γ) : Prop :=
  match op with
  | .bracket call group _ => call.Settles fmt fails group c
  | _ => True

/-- In every run of the repository, every bracket call keeps its contract exactly when each of them
    fails at its `BEGIN` or runs through on a group remembered as stored. -/
theorem calls_atomic_iff (ops : List (Op γ)) :
    AllSteps (step fmt fails) (Op.Atomic fmt fails) connect ops ↔
      AllSteps (step fmt fails) (Op.Settles fmt fails) connect ops := by
  refine allSteps_congr _ (J := fun c => c.saved = none) (fun c op hs h => ?_) (fun c op hs => ?_)
    rfl ops
  · cases op with
    | bracket call group times =>
      have hat : (call.exec fails fmt times group c).Atomic fmt fails group c := h
      show (call.exec fails fmt times group c).conn.saved = none
      cases hr : (call.exec fails fmt times group c).result with
      | error e => exact hat.closed e hr
      | ok _ => rw [exec_of_ok fmt times call group c hr]
    | _ => rw [saved_step_of_not_call fmt fails (by rintro _ _ _ ⟨⟩), hs]
  · cases op with
    | bracket call group times => exact atomic_iff fmt fails call group times hs
    | _ => exact Iff.rfl

/-- The schedule on which only the statement numbered 4 fails. -/
def onlyFifthFails (n : ℕ) : Bool := n == 4

/-- The insert of the take-profit fails on a fresh connection: the call answers an error and leaves
    the parent's row behind in an open transaction, so that the next call, none of whose statements
    is due to fail, is refused. -/
theorem persist_leaves_transaction_open :
    ¬ AllSteps (step sampleFormats onlyFifthFails) (Op.Atomic sampleFormats onlyFifthFails) connect
        [.bracket .persistAndTransitionToPendingSubmit sampleGroup sampleTimes] ∧
      ((Call.transitionBracketToError "timeout").exec onlyFifthFails sampleFormats sampleTimes
        sampleGroup (run (step sampleFormats onlyFifthFails) connect
          [.bracket .persistAndTransitionToPendingSubmit sampleGroup sampleTimes])).result
        = .error .nestedTransaction := by
  refine ⟨fun h => ?_, by decide +kernel⟩
  have hat : Outcome.Atomic sampleFormats onlyFifthFails
      (Call.persistAndTransitionToPendingSubmit.exec onlyFifthFails sampleFormats sampleTimes
        sampleGroup connect) sampleGroup connect :=
    h [] _ List.prefix_rfl
  have herr : (Call.persistAndTransitionToPendingSubmit.exec onlyFifthFails sampleFormats
      sampleTimes sampleGroup connect).result = .error .failed := by decide +kernel
  have hopen : (Call.persistAndTransitionToPendingSubmit.exec onlyFifthFails sampleFormats
      sampleTimes sampleGroup connect).conn.saved.isSome = true := by decide +kernel
  rw [hat.closed _ herr] at hopen
  cases hopen

end Midas.Persist
