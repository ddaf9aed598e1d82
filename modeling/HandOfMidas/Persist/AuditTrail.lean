import HandOfMidas.Lib.Run
import HandOfMidas.Persist.BracketCalls

/-! The audit trail of a bracket. The calls write down the status a leg comes from without asking the
    stored row or the state machine: `persist_and_transition_to_pending_submit` always writes
    `Inactive`, the transitions write what is in memory, which they never update. So the trail is a
    history of legal transitions as long as the transitions find the bracket pending, and a second
    transition breaks it. -/

namespace Midas.Persist

open Midas.Broker Sql OrderStatus

variable {γ : Type} (fmt : TextFormats γ) (fails : ℕ → Bool)

/-! ### Histories -/

/-- The audit rows lead from status `a` to status `b`: each starts where the one before ended and is
    a transition the state machine accepts. -/
def Chained : OrderStatus → List AuditRow → OrderStatus → Prop
  | a, [], b => a = b
  | a, r :: rows, b =>
    r.fromStatus = a.toText ∧ ∃ c, r.toStatus = c.toText ∧ Legal a c ∧ Chained c rows b

theorem Chained.snoc {r : AuditRow} {b c : OrderStatus} (hfrom : r.fromStatus = b.toText)
    (hto : r.toStatus = c.toText) (hlegal : Legal b c) :
    ∀ {a : OrderStatus} {rows : List AuditRow}, Chained a rows b → Chained a (rows ++ [r]) c
  | a, [], h => by
    obtain rfl : a = b := h
    exact ⟨hfrom, c, hto, hlegal, rfl⟩
  | a, r' :: rows, h => by
    obtain ⟨hf, d, ht, hl, hrest⟩ := h
    exact ⟨hf, d, ht, hl, Chained.snoc hfrom hto hlegal hrest⟩

/-- The row after a history starts where the history ended, with a legal transition. -/
theorem Chained.last {r : AuditRow} {b e : OrderStatus} : ∀ {a : OrderStatus} {rows : List AuditRow},
    Chained a rows b → Chained a (rows ++ [r]) e →
      r.fromStatus = b.toText ∧ ∃ c, r.toStatus = c.toText ∧ Legal b c
  | a, [], h, h' => by
    obtain rfl : a = b := h
    obtain ⟨hf, c, ht, hl, _⟩ := h'
    exact ⟨hf, c, ht, hl⟩
  | a, r' :: rows, h, h' => by
    obtain ⟨_, d, ht, _, hrest⟩ := h
    obtain ⟨_, d', ht', _, hrest'⟩ := h'
    obtain rfl : d = d' := toText_injective (ht.symm.trans ht')
    exact hrest.last hrest'

/-- In a history each row starts where the row before it ended. -/
theorem Chained.linked : ∀ {a b : OrderStatus} {rows : List AuditRow}, Chained a rows b →
    rows.IsChain fun r r' => r.toStatus = r'.fromStatus
  | _, _, [], _ => List.isChain_nil
  | _, _, [r], _ => List.isChain_singleton r
  | _, _, r :: r' :: rows, h => by
    obtain ⟨_, c, hto, _, hrest⟩ := h
    exact List.isChain_cons_cons.mpr ⟨hto.trans hrest.1.symm, hrest.linked⟩

/-! ### Runs on one bracket -/

/-- The connection and the group in memory. -/
structure Session (γ : Type) where
  conn : Conn Tables
  group : BracketGroup γ

def Session.step (s : Session γ) (op : Call × Times) : Session γ :=
  let o := op.1.exec fails fmt op.2 s.group s.conn
  ⟨o.conn, o.group⟩

/-- A freshly created group: its legs are `Inactive`, have distinct ids, and the database has not
    seen them. -/
structure Session.Fresh (s : Session γ) : Prop where
  distinct : (s.group.legs.map (·.id)).Nodup
  inactive : ∀ leg ∈ s.group.legs, leg.status = .inactive
  unstored : ∀ leg ∈ s.group.legs, s.conn.tables.statusOf (fmt.uuid leg.id) = none
  unaudited : ∀ leg ∈ s.group.legs, s.conn.tables.auditOf (fmt.uuid leg.id) = []

/-- The audit rows of every leg are a legal history from its creation status, and the stored status
    is the one the last row ends in. -/
def Session.Audited (s : Session γ) : Prop :=
  ∀ leg ∈ s.group.legs, ∃ last,
    Chained .inactive (s.conn.tables.auditOf (fmt.uuid leg.id)) last ∧
      (s.conn.tables.auditOf (fmt.uuid leg.id) ≠ [] →
        s.conn.tables.statusOf (fmt.uuid leg.id) = some last.toText)

/-- The `BEGIN` of a call is refused. -/
def Session.Refuses (s : Session γ) : Prop := fails s.conn.issued = true ∨ s.conn.saved.isSome = true

/-- The call is refused, or none of its statements fails and, if it is a transition, every leg is
    `PendingSubmit` in memory and in the database. -/
def Session.Accepts (s : Session γ) (op : Call × Times) : Prop :=
  s.Refuses fails ∨ Quiet fails s.conn.issued (op.1.statements s.group) ∧
    (op.1 ≠ .persistAndTransitionToPendingSubmit → ∀ leg ∈ s.group.legs,
      leg.status = .pendingSubmit ∧
        s.conn.tables.statusOf (fmt.uuid leg.id) = some pendingSubmit.toText)

/-! ### The life of a bracket -/

/-- A leg after its bracket was persisted: submitted in memory, and stored in a status `b` that its
    history ends in. -/
structure Session.Persisted (s : Session γ) (b : OrderStatus) (leg : LocalOrder γ) : Prop where
  memory : leg.status = .pendingSubmit
  audited : Chained .inactive (s.conn.tables.auditOf (fmt.uuid leg.id)) b
  stored : s.conn.tables.statusOf (fmt.uuid leg.id) = some b.toText

/-- What a session with a bracket can be: fresh, or persisted with one status for all legs. -/
def Session.Tracked (s : Session γ) : Prop :=
  s.Fresh fmt ∨ (s.group.legs.map (·.id)).Nodup ∧ ∃ b, ∀ leg ∈ s.group.legs, s.Persisted fmt b leg

variable {fmt} in
theorem Session.Tracked.audited {s : Session γ} (h : s.Tracked fmt) : s.Audited fmt := by
  intro leg hleg
  rcases h with h | ⟨_, b, h⟩
  · refine ⟨.inactive, ?_, fun hne => absurd (h.unaudited leg hleg) hne⟩
    rw [h.unaudited leg hleg]
    rfl
  · exact ⟨b, (h leg hleg).audited, fun _ => (h leg hleg).stored⟩

/-! ### One call -/

variable {fmt fails} {s : Session γ} {op : Call × Times}

theorem mem_legs_parent (group : BracketGroup γ) : group.parent ∈ group.legs := List.mem_cons_self

theorem Session.Tracked.distinct (h : s.Tracked fmt) : (s.group.legs.map (·.id)).Nodup :=
  h.elim Session.Fresh.distinct And.left

/-- No leg of a tracked bracket is terminal in memory, so no call skips one. -/
theorem Session.Tracked.handles (h : s.Tracked fmt) (call : Call) :
    ∀ leg ∈ s.group.legs, call.handles leg = true := by
  intro leg hleg
  have hlive : leg.status.isTerminal = false := by
    rcases h with h | ⟨_, b, h⟩
    · rw [h.inactive leg hleg]
      rfl
    · rw [(h leg hleg).memory]
      rfl
  cases call <;> simp [Call.handles, hlive]

/-- Being tracked is about the tables and the group. -/
theorem Session.Tracked.congr {s' : Session γ} (h : s.Tracked fmt)
    (ht : s'.conn.tables = s.conn.tables) (hg : s'.group = s.group) : s'.Tracked fmt := by
  obtain ⟨⟨tables, saved, issued⟩, group⟩ := s
  obtain ⟨⟨tables', saved', issued'⟩, group'⟩ := s'
  obtain rfl : tables' = tables := ht
  obtain rfl : group' = group := hg
  rcases h with h | ⟨hd, b, h⟩
  · exact Or.inl ⟨h.distinct, h.inactive, h.unstored, h.unaudited⟩
  · exact Or.inr ⟨hd, b, fun leg hleg =>
      ⟨(h leg hleg).memory, (h leg hleg).audited, (h leg hleg).stored⟩⟩

theorem filter_legs {p : LocalOrder γ → Bool} {leg : LocalOrder γ} : ∀ {legs : List (LocalOrder γ)},
    (legs.map (·.id)).Nodup → leg ∈ legs → (∀ l ∈ legs, p l = true) →
      (legs.filter fun l => p l ∧ fmt.uuid l.id = fmt.uuid leg.id) = [leg]
  | l :: legs, hnd, hmem, hp => by
    rw [List.map_cons, List.nodup_cons] at hnd
    have hrest : ∀ l' ∈ legs, p l' = true := fun l' hl' => hp l' (List.mem_cons_of_mem l hl')
    rw [List.filter_cons]
    by_cases hid : l.id = leg.id
    · -- The leg is the head, and no other leg has its id.
      obtain rfl : leg = l := by
        rcases List.mem_cons.mp hmem with heq | hin
        · exact heq
        · exact absurd (List.mem_map.mpr ⟨leg, hin, hid.symm⟩) hnd.1
      rw [if_pos (by simp [hp leg List.mem_cons_self]), List.filter_eq_nil_iff.mpr]
      intro l' hl' h'
      have hsame : l'.id = leg.id := fmt.uuid_injective (of_decide_eq_true h').2
      exact hnd.1 (List.mem_map.mpr ⟨l', hl', hsame⟩)
    · rw [if_neg fun h' => hid (fmt.uuid_injective (of_decide_eq_true h').2)]
      refine filter_legs hnd.2 ?_ hrest
      rcases List.mem_cons.mp hmem with rfl | hin
      · exact absurd rfl hid
      · exact hin

/-- A call that succeeds on a tracked bracket appends one row to the trail of each leg. -/
theorem auditOf_of_ok (h : s.Tracked fmt) {leg : LocalOrder γ} (hleg : leg ∈ s.group.legs)
    (call : Call) (times : Times) :
    (call.writesAll fmt times s.group.legs s.conn.tables).auditOf (fmt.uuid leg.id) =
      s.conn.tables.auditOf (fmt.uuid leg.id) ++ [call.auditRow fmt times leg] := by
  rw [auditOf_writesAll, filter_legs h.distinct hleg (h.handles call)]
  rfl

theorem statusOf_of_ok (h : s.Tracked fmt) {leg : LocalOrder γ} (hleg : leg ∈ s.group.legs)
    (call : Call) (times : Times) :
    (call.writesAll fmt times s.group.legs s.conn.tables).statusOf (fmt.uuid leg.id) =
      call.move (s.conn.tables.statusOf (fmt.uuid leg.id)) := by
  rw [statusOf_writesAll, if_pos ⟨leg, hleg, h.handles call leg hleg, rfl⟩]

/-- A refused call leaves tables and memory alone. -/
theorem step_refused (h : s.Refuses fails) :
    (s.step fmt fails op).conn.tables = s.conn.tables ∧ (s.step fmt fails op).group = s.group := by
  obtain ⟨e, he⟩ := exec_refused fmt op.2 op.1 s.group s.conn h
  simp only [Session.step, he, and_self]

/-- A second `persist_and_transition_to_pending_submit` stops at the parent's insert. -/
theorem step_persist_again {times : Times}
    (h : s.conn.tables.statusOf (fmt.uuid s.group.parent.id) ≠ none) :
    (s.step fmt fails (.persistAndTransitionToPendingSubmit, times)).conn.tables = s.conn.tables ∧
      (s.step fmt fails (.persistAndTransitionToPendingSubmit, times)).group = s.group := by
  obtain ⟨e, hinsert⟩ :=
    @insertOrder_refused fails (localToOrderRow fmt s.group.parent) (opened s.conn) h
  have hbody : forEach (persistLeg fails fmt times) s.group.legs (opened s.conn) =
      (.error e, { opened s.conn with issued := (opened s.conn).issued + 1 }) :=
    run_bind_of_error (run_bind_of_error hinsert)
  have hins : ¬ Call.Insertable fmt .persistAndTransitionToPendingSubmit s.group.legs
      s.conn.tables := fun hins => h (hins.1 _ (mem_legs_parent s.group))
  cases hr : (Call.exec fails fmt times s.group .persistAndTransitionToPendingSubmit
      s.conn).result with
  | ok _ => exact absurd ((exec_ok_iff fmt times _ s.group s.conn).mp hr).2.2 hins
  | error e' =>
    refine ⟨?_, exec_group_of_error fmt times _ s.group s.conn hr⟩
    show (Call.exec fails fmt times s.group .persistAndTransitionToPendingSubmit
      s.conn).conn.tables = _
    rw [exec_conn]
    exact transaction_tables_of_error hbody rfl

/-- The call succeeds if its `BEGIN` is not refused, no statement fails and it can insert. -/
theorem step_of_quiet (hr : ¬ s.Refuses fails)
    (hq : Quiet fails s.conn.issued (op.1.statements s.group))
    (hins : op.1.Insertable fmt s.group.legs s.conn.tables) : s.step fmt fails op =
      ⟨{ tables := op.1.writesAll fmt op.2 s.group.legs s.conn.tables, saved := none,
         issued := s.conn.issued + op.1.statements s.group }, op.1.memory s.group⟩ := by
  have hsaved : s.conn.saved = none := by
    rw [Session.Refuses, not_or, Bool.not_eq_true, Bool.not_eq_true, Option.isSome_eq_false_iff,
      Option.isNone_iff_eq_none] at hr
    exact hr.2
  have hok := (exec_ok_iff fmt op.2 op.1 s.group s.conn).mpr ⟨hsaved, hq, hins⟩
  simp only [Session.step, exec_of_ok fmt op.2 op.1 s.group s.conn hok]

/-- A transition that is accepted moves every leg from `PendingSubmit` to its target. -/
theorem tracked_step_transition (h : s.Tracked fmt) (hr : ¬ s.Refuses fails)
    (hq : Quiet fails s.conn.issued (op.1.statements s.group))
    (hop : op.1 ≠ .persistAndTransitionToPendingSubmit)
    (hpending : ∀ leg ∈ s.group.legs, leg.status = .pendingSubmit ∧
      s.conn.tables.statusOf (fmt.uuid leg.id) = some pendingSubmit.toText) :
    (s.step fmt fails op).Tracked fmt := by
  obtain ⟨call, times⟩ := op
  have hins : call.Insertable fmt s.group.legs s.conn.tables := by
    cases call with
    | persistAndTransitionToPendingSubmit => exact absurd rfl hop
    | _ => trivial
  have hmemory : call.memory s.group = s.group := by
    cases call with
    | persistAndTransitionToPendingSubmit => exact absurd rfl hop
    | _ => rfl
  have hlegal : Legal .pendingSubmit call.target := by
    cases call with
    | persistAndTransitionToPendingSubmit => exact absurd rfl hop
    | transitionBracketToError reason => exact (by decide : Legal pendingSubmit .error)
    | transitionBracketToRejected reason => exact (by decide : Legal pendingSubmit .rejected)
  rw [step_of_quiet hr hq hins]
  refine Or.inr ⟨by rw [hmemory]; exact h.distinct, call.target, fun leg hleg => ?_⟩
  rw [hmemory] at hleg
  obtain ⟨hmem, hstored⟩ := hpending leg hleg
  have hchain : Chained .inactive (s.conn.tables.auditOf (fmt.uuid leg.id)) .pendingSubmit := by
    rcases h with h | ⟨_, b, h⟩
    · rw [h.inactive leg hleg] at hmem
      cases hmem
    · have hb := (h leg hleg).stored
      rw [hstored] at hb
      rw [toText_injective (Option.some.inj hb)]
      exact (h leg hleg).audited
  refine ⟨hmem, ?_, ?_⟩
  · show Chained _ ((call.writesAll fmt times s.group.legs s.conn.tables).auditOf _) _
    rw [auditOf_of_ok h hleg]
    refine hchain.snoc ?_ rfl hlegal
    show (call.origin leg).toText = _
    rw [← hmem]
    cases call with
    | persistAndTransitionToPendingSubmit => exact absurd rfl hop
    | _ => rfl
  · show (call.writesAll fmt times s.group.legs s.conn.tables).statusOf _ = _
    rw [statusOf_of_ok h hleg, hstored]
    cases call <;> rfl

/-- Persisting a fresh bracket takes every leg from `Inactive` to `PendingSubmit`. -/
theorem tracked_step_persist (h : s.Fresh fmt) (hr : ¬ s.Refuses fails) {times : Times}
    (hq : Quiet fails s.conn.issued
      (Call.persistAndTransitionToPendingSubmit.statements s.group)) :
    (s.step fmt fails (.persistAndTransitionToPendingSubmit, times)).Tracked fmt := by
  have htracked : s.Tracked fmt := Or.inl h
  rw [@step_of_quiet _ fmt _ _ (.persistAndTransitionToPendingSubmit, times) hr hq
    ⟨h.unstored, h.distinct⟩]
  refine Or.inr ⟨?_, .pendingSubmit, fun leg hleg => ?_⟩
  · show ((s.group.pendingSubmit).legs.map (·.id)).Nodup
    rw [legs_pendingSubmit, List.map_map]
    exact h.distinct
  · have hleg' : leg ∈ s.group.pendingSubmit.legs := hleg
    rw [legs_pendingSubmit] at hleg'
    obtain ⟨leg, hin, rfl⟩ := List.mem_map.mp hleg'
    refine ⟨rfl, ?_, ?_⟩
    · show Chained _ ((Call.writesAll fmt times .persistAndTransitionToPendingSubmit s.group.legs
        s.conn.tables).auditOf (fmt.uuid leg.id)) _
      rw [auditOf_of_ok htracked hin, h.unaudited leg hin]
      exact ⟨rfl, .pendingSubmit, rfl, by decide, rfl⟩
    · show (Call.writesAll fmt times .persistAndTransitionToPendingSubmit s.group.legs
        s.conn.tables).statusOf (fmt.uuid leg.id) = _
      rw [statusOf_of_ok htracked hin]
      rfl

/-- An accepted call keeps the bracket tracked. -/
theorem tracked_step (h : s.Tracked fmt) (hop : s.Accepts fmt fails op) :
    (s.step fmt fails op).Tracked fmt := by
  by_cases hr : s.Refuses fails
  · obtain ⟨ht, hg⟩ := @step_refused _ fmt _ _ op hr
    exact h.congr ht hg
  · obtain ⟨hq, hpending⟩ := hop.resolve_left hr
    obtain ⟨call, times⟩ := op
    cases call with
    | persistAndTransitionToPendingSubmit =>
      rcases id h with hfresh | ⟨_, b, hpersisted⟩
      · exact tracked_step_persist hfresh hr hq
      · have hparent := (hpersisted _ (mem_legs_parent s.group)).stored
        obtain ⟨ht, hg⟩ := @step_persist_again _ fmt fails s times
          (by rw [hparent]; exact Option.some_ne_none _)
        exact h.congr ht hg
    | transitionBracketToError reason =>
      exact tracked_step_transition h hr hq nofun (hpending nofun)
    | transitionBracketToRejected reason =>
      exact tracked_step_transition h hr hq nofun (hpending nofun)

/-- When no statement fails, a call after which the trail is still a history was an accepted one. -/
theorem accepts_of_audited (hquiet : ∀ n, fails n = false) (h : s.Tracked fmt)
    (ha : (s.step fmt fails op).Audited fmt) : s.Accepts fmt fails op := by
  by_cases hr : s.Refuses fails
  · exact Or.inl hr
  · have hq : Quiet fails s.conn.issued (op.1.statements s.group) := fun i _ => hquiet _
    refine Or.inr ⟨hq, fun hop => ?_⟩
    obtain ⟨call, times⟩ := op
    have hins : call.Insertable fmt s.group.legs s.conn.tables := by
      cases call with
      | persistAndTransitionToPendingSubmit => exact absurd rfl hop
      | _ => trivial
    -- The row of the parent starts from its status in memory.
    have hparent := mem_legs_parent s.group
    have hafter : ∃ last, Chained .inactive (s.conn.tables.auditOf (fmt.uuid s.group.parent.id) ++
        [call.auditRow fmt times s.group.parent]) last := by
      rw [step_of_quiet hr hq hins] at ha
      have hmemory : call.memory s.group = s.group := by
        cases call with
        | persistAndTransitionToPendingSubmit => exact absurd rfl hop
        | _ => rfl
      obtain ⟨last, hlast, _⟩ := ha s.group.parent (by rw [hmemory]; exact hparent)
      rw [← auditOf_of_ok h hparent]
      exact ⟨last, hlast⟩
    obtain ⟨last, hlast⟩ := hafter
    have horigin : (call.auditRow fmt times s.group.parent).fromStatus =
        s.group.parent.status.toText := by
      cases call with
      | persistAndTransitionToPendingSubmit => exact absurd rfl hop
      | _ => rfl
    rcases h with hfresh | ⟨_, b, hpersisted⟩
    · rw [hfresh.unaudited _ hparent] at hlast
      have hstart : Chained .inactive [] .inactive := rfl
      obtain ⟨_, c, hto, hlegal⟩ := Chained.last hstart hlast
      obtain rfl : call.target = c := toText_injective hto
      cases call with
      | persistAndTransitionToPendingSubmit => exact absurd rfl hop
      | transitionBracketToError reason =>
        exact absurd hlegal (by decide : ¬ Legal inactive .error)
      | transitionBracketToRejected reason =>
        exact absurd hlegal (by decide : ¬ Legal inactive .rejected)
    · obtain ⟨hfrom, _⟩ := (hpersisted _ hparent).audited.last hlast
      rw [horigin, (hpersisted _ hparent).memory] at hfrom
      obtain rfl : pendingSubmit = b := toText_injective hfrom
      exact fun leg hleg => ⟨(hpersisted leg hleg).memory, (hpersisted leg hleg).stored⟩

/-! ### Runs -/

/-- From a fresh group, the audit rows of every leg are a legal history ending in its stored status
    throughout a run whose calls are all accepted, whichever statements fail; and when no statement
    fails, in no other run. -/
theorem audit_trail_iff (fmt : TextFormats γ) (fails : ℕ → Bool) (s : Session γ) (h : s.Fresh fmt)
    (ops : List (Call × Times)) :
    (AllSteps (Session.step fmt fails) (Session.Accepts fmt fails) s ops →
      AllStates (Session.step fmt fails) (Session.Audited fmt) s ops) ∧
    ((∀ n, fails n = false) → AllStates (Session.step fmt fails) (Session.Audited fmt) s ops →
      AllSteps (Session.step fmt fails) (Session.Accepts fmt fails) s ops) := by
  refine ⟨fun hsteps pre hpre => ?_, fun hquiet hstates => ?_⟩
  · have htracked := allStates_of_allSteps (Session.step fmt fails) (I := fun _ => True)
      (Q := Session.Tracked fmt) (fun _ _ _ => trivial) (fun _ _ _ ht hop => tracked_step ht hop)
      trivial (Or.inl h) hsteps
    exact (htracked pre hpre).audited
  · exact allSteps_of_allStates (Session.step fmt fails) (J := Session.Tracked fmt)
      (fun _ _ ht hop => tracked_step ht hop) (fun _ _ ht ha => accepts_of_audited hquiet ht ha)
      (Or.inl h) hstates

def sampleSession : Session String := ⟨{ tables := .empty }, sampleGroup⟩

theorem sampleSession_fresh : sampleSession.Fresh sampleFormats where
  distinct := by decide
  inactive := by decide
  unstored _ _ := rfl
  unaudited _ _ := rfl

/-- A bracket that is persisted and then rejected has a legal history of two rows a leg. -/
theorem audit_trail_rejected :
    AllStates (Session.step sampleFormats fun _ => false) (Session.Audited sampleFormats)
      sampleSession [(.persistAndTransitionToPendingSubmit, sampleTimes),
        (.transitionBracketToRejected "margin", sampleTimes)] := by
  refine (audit_trail_iff sampleFormats (fun _ => false) sampleSession sampleSession_fresh _).1 ?_
  have hquiet : ∀ start n, Quiet (fun _ => false) start n := fun _ _ _ _ => rfl
  refine (allSteps_cons _).mpr ⟨Or.inr ⟨hquiet _ _, fun h => absurd rfl h⟩, ?_⟩
  refine (allSteps_cons _).mpr ⟨Or.inr ⟨hquiet _ _, fun _ => ?_⟩, allSteps_nil _⟩
  decide +kernel

/-- A bracket is moved to `Error` twice: the second row of a leg starts from `PendingSubmit` again,
    where the first one ended in `Error`. -/
theorem second_transition_breaks_trail :
    sampleSession.Fresh sampleFormats ∧
      ¬ AllStates (Session.step sampleFormats fun _ => false) (Session.Audited sampleFormats)
        sampleSession [(.persistAndTransitionToPendingSubmit, sampleTimes),
          (.transitionBracketToError "timeout", sampleTimes),
          (.transitionBracketToError "timeout", sampleTimes)] := by
  refine ⟨sampleSession_fresh, fun h => ?_⟩
  obtain ⟨last, hlast, _⟩ := AllStates.last _ h _ (mem_legs_parent _)
  exact absurd hlast.linked (by decide +kernel)

end Midas.Persist
