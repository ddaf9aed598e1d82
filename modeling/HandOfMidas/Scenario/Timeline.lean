import HandOfMidas.Lib.Run
import HandOfMidas.Scenario.Runner
import Mathlib.Order.MinMax

/-! Which events of a scenario the runner executes, in which order, and when. -/

namespace Midas.Dsl

variable {χ ε κ : Type*} (E : ScenarioEngine χ ε κ)

/-- The event is to be executed `delay` after `anchor`. -/
def ScenarioEvent.Waits (ev : ScenarioEvent κ) (anchor : String) (delay : Duration) : Prop :=
  ev.atTime = none ∧ ev.after = some anchor ∧
    ∃ text, ev.delay = some text ∧ E.parseDuration text = .ok delay

/-- The timing of the event is why it was executed. -/
def Executed.Of (x : Executed) (ev : ScenarioEvent κ) : Prop :=
  x.name = ev.named ∧
    match x.cause with
    | .fixed => ∃ text, ev.atTime = some text ∧ E.parseDuration text = .ok x.time
    | .pattern => ev.atTime = none ∧ ev.after = none ∧ ev.whenCond.isSome
    | .after anchor delay => ev.Waits E anchor delay

/-- Fixed and `after:` events have a deadline. -/
def Executed.timed (x : Executed) : Bool := decide (x.cause ≠ .pattern)

namespace Runner

/-- The loop is over, or has passed `t`. -/
def LastedBeyond (s : Runner χ ε κ) (t : Duration) : Prop :=
  (∃ result, s.status = .finished result) ∨ t < s.reached

/-- Each event executed is one of the scenario, executed once, timed events in the order of their
    deadlines; an `after:` event only `delay` after an event with the name of its anchor, and always
    after one if the run lasts beyond that time. -/
structure OnSchedule (s : Runner χ ε κ) : Prop where
  once : (s.log.map Executed.seq).Nodup
  planned : ∀ x ∈ s.log, ∃ ev, s.scenario.events[x.seq]? = some ev ∧ x.Of E ev
  ordered : (s.log.filter Executed.timed).Pairwise fun x y => x.time ≤ y.time
  anchored : ∀ pre x, pre ++ [x] <+: s.log → ∀ anchor delay, x.cause = .after anchor delay →
    ∃ y ∈ pre, y.name = some anchor ∧ x.time = saturatingAdd y.time delay
  executed : ∀ i ev, s.scenario.events[i]? = some ev → ∀ anchor delay, ev.Waits E anchor delay →
    ∀ y ∈ s.log, y.name = some anchor → s.LastedBeyond (saturatingAdd y.time delay) →
      ∃ x ∈ s.log, x.seq = i

/-- The timed event that an iteration executes if no `when:` clause fires: its place and its name. -/
def nextTimed (s : Runner χ ε κ) : Option (ℕ × Option String) :=
  (s.nextDeadline E).bind fun deadline =>
    match s.dueFixed deadline with
    | some ev => some (ev.seq, ev.name)
    | none => (s.pendingAfter.find? (s.isDue deadline)).map fun p => (p.seq, p.name)

/-- The clauses that fire in an iteration, and those that stay. -/
def clauses (s : Runner χ ε κ) : Option (List (WhenEvent χ κ) × List (WhenEvent χ κ)) :=
  match s.status, fireReadyWhenClauses E s.engine s.pendingWhen with
  | .running, .ok r => some r
  | _, _ => none

/-- No `when:` event that fires has the name of an anchor that is waited for, and no timed event has
    such a name a second time. -/
def AnchorsKept (s : Runner χ ε κ) : Op ε → Prop
  | .iterate => ∀ r ∈ s.clauses E,
      (∀ w ∈ r.1, ∀ p ∈ s.pendingAfter, w.name ≠ some p.anchor) ∧
      (r.1.isEmpty = true → ∀ next ∈ ({ s with pendingWhen := r.2 } : Runner χ ε κ).nextTimed E,
        ∀ p ∈ s.pendingAfter, p.seq ≠ next.1 → next.2 = some p.anchor →
          ∀ y ∈ s.log, y.name ≠ some p.anchor)
  | .elsewhere .. => True

instance (s : Runner χ ε κ) : DecidablePred (s.AnchorsKept E)
  | .iterate => inferInstanceAs (Decidable (∀ r ∈ s.clauses E, _))
  | .elsewhere .. => .isTrue trivial

/-! ### The queues -/

/-- A fixed event, as it will be logged. -/
def fixedEntry (e : TimedEvent κ) : Executed := ⟨e.seq, e.name, .fixed, e.deadline⟩

/-- An `after:` event, as it will be logged. -/
def afterEntry (time : Duration) (p : PendingAfter κ) : Executed :=
  ⟨p.seq, p.name, .after p.anchor p.delay, time⟩

/-- A `when:` event, as it will be logged. -/
def whenEntry (time : Duration) (w : WhenEvent χ κ) : Executed := ⟨w.seq, w.name, .pattern, time⟩

def Planned (s : Runner χ ε κ) (x : Executed) : Prop :=
  ∃ ev, s.scenario.events[x.seq]? = some ev ∧ x.Of E ev

/-- The places of all events, those that wait and those that were executed. -/
def seqs (s : Runner χ ε κ) : List ℕ :=
  s.fixed.map TimedEvent.seq ++ s.pendingAfter.map PendingAfter.seq ++
    s.pendingWhen.map WhenEvent.seq ++ s.log.map Executed.seq

/-- Each event is in one place, with the timing that it has in the scenario. -/
structure Placed (s : Runner χ ε κ) : Prop where
  nodup : s.seqs.Nodup
  fixedPlanned : ∀ e ∈ s.fixed, s.Planned E (fixedEntry e)
  afterPlanned : ∀ p ∈ s.pendingAfter, ∀ t, s.Planned E (afterEntry t p)
  whenPlanned : ∀ w ∈ s.pendingWhen, ∀ t, s.Planned E (whenEntry t w)
  logPlanned : ∀ x ∈ s.log, s.Planned E x

/-- No `after:` event is lost. -/
structure Queued (s : Runner χ ε κ) : Prop extends s.Placed E where
  complete : ∀ i ev, s.scenario.events[i]? = some ev → ∀ anchor delay, ev.Waits E anchor delay →
    (∃ p ∈ s.pendingAfter, p.seq = i ∧ p.anchor = anchor ∧ p.delay = delay) ∨ ∃ x ∈ s.log, x.seq = i

/-- Nothing that waits was due before the deadline that the loop has reached. -/
structure Timely (s : Runner χ ε κ) : Prop where
  sorted : s.fixed.Pairwise fun a b => a.deadline ≤ b.deadline
  fixedLate : ∀ e ∈ s.fixed, s.reached ≤ e.deadline
  afterLate : ∀ p ∈ s.pendingAfter, ∀ t, s.fireAt p = some t → s.reached ≤ t
  logEarly : ∀ x ∈ s.log, x.timed = true → x.time ≤ s.reached
  ordered : (s.log.filter Executed.timed).Pairwise fun x y => x.time ≤ y.time

/-- A recorded anchor is a fixed event that waits, or an event that was executed then; and `after:`
    events come after an event with the name of their anchor. -/
structure Sourced (s : Runner χ ε κ) : Prop where
  recorded : ∀ name t, s.namedAnchors name = some t →
    (∃ e ∈ s.fixed, e.name = some name ∧ e.deadline = t) ∨ ∃ x ∈ s.log, x.name = some name ∧ x.time = t
  anchored : ∀ pre x, pre ++ [x] <+: s.log → ∀ anchor delay, x.cause = .after anchor delay →
    ∃ y ∈ pre, y.name = some anchor ∧ x.time = saturatingAdd y.time delay

/-- The anchors of the events that wait are known as they were executed, and once the loop is over no
    anchor of theirs is. -/
structure Awaited (s : Runner χ ε κ) : Prop where
  known : ∀ p ∈ s.pendingAfter, ∀ y ∈ s.log, y.name = some p.anchor →
    s.namedAnchors p.anchor = some y.time
  drained : ∀ result, s.status = .finished result → ∀ p ∈ s.pendingAfter, s.namedAnchors p.anchor = none

structure Sound (s : Runner χ ε κ) : Prop where
  queued : s.Queued E
  timely : s.Timely
  sourced : s.Sourced
  awaited : s.Awaited

variable {E}

theorem Sound.onSchedule {s : Runner χ ε κ} (hs : s.Sound E) : s.OnSchedule E where
  once := (List.nodup_append.mp hs.queued.nodup).2.1
  planned := hs.queued.logPlanned
  ordered := hs.timely.ordered
  anchored := hs.sourced.anchored
  executed i ev hev anchor delay hwaits y hy hname hlasted := by
    rcases hs.queued.complete i ev hev anchor delay hwaits with ⟨p, hp, rfl, rfl, rfl⟩ | hdone
    · exfalso
      have hknown := hs.awaited.known p hp y hy hname
      rcases hlasted with ⟨result, hover⟩ | hlt
      · rw [hs.awaited.drained result hover p hp] at hknown
        cases hknown
      · have hfire : s.fireAt p = some (saturatingAdd y.time p.delay) := by rw [fireAt, hknown]; rfl
        exact absurd (hs.timely.afterLate p hp _ hfire) (not_le.mpr hlt)
    · exact hdone

/-! ### What verbs leave alone -/

/-- Two runners with the same queues and the same history. -/
structure SameQueues (s s' : Runner χ ε κ) : Prop where
  scenario : s'.scenario = s.scenario
  namedAnchors : s'.namedAnchors = s.namedAnchors
  fixed : s'.fixed = s.fixed
  pendingAfter : s'.pendingAfter = s.pendingAfter
  pendingWhen : s'.pendingWhen = s.pendingWhen
  reached : s'.reached = s.reached
  log : s'.log = s.log

namespace SameQueues

variable {s s' s'' : Runner χ ε κ}

theorem refl (s : Runner χ ε κ) : SameQueues s s := ⟨rfl, rfl, rfl, rfl, rfl, rfl, rfl⟩

theorem trans (h : SameQueues s s') (h' : SameQueues s' s'') : SameQueues s s'' where
  scenario := h'.scenario.trans h.scenario
  namedAnchors := h'.namedAnchors.trans h.namedAnchors
  fixed := h'.fixed.trans h.fixed
  pendingAfter := h'.pendingAfter.trans h.pendingAfter
  pendingWhen := h'.pendingWhen.trans h.pendingWhen
  reached := h'.reached.trans h.reached
  log := h'.log.trans h.log

theorem stop (err : RunnerError) (s : Runner χ ε κ) : SameQueues s (s.stop err) :=
  ⟨rfl, rfl, rfl, rfl, rfl, rfl, rfl⟩

theorem elsewhere (engine : ε) (now : Duration) (s : Runner χ ε κ) :
    SameQueues s { s with engine := engine, now := now } :=
  ⟨rfl, rfl, rfl, rfl, rfl, rfl, rfl⟩

theorem seqs (h : SameQueues s s') : s'.seqs = s.seqs := by
  rw [Runner.seqs, h.fixed, h.pendingAfter, h.pendingWhen, h.log, Runner.seqs]

/-- A runner is sound as far as its queues and its history go. -/
theorem sound (h : SameQueues s s') (hs : s.Sound E)
    (hover : ∀ result, s'.status = .finished result → ∀ p ∈ s.pendingAfter,
      s.namedAnchors p.anchor = none) : s'.Sound E := by
  obtain ⟨scenario', now', engine', anchors', fixed', after', when', steps', fires', asserts', status',
    reached', log'⟩ := s'
  obtain ⟨h₁, h₂, h₃, h₄, h₅, h₆, h₇⟩ := h
  dsimp only at h₁ h₂ h₃ h₄ h₅ h₆ h₇
  subst h₁ h₂ h₃ h₄ h₅ h₆ h₇
  exact ⟨⟨⟨hs.queued.nodup, hs.queued.fixedPlanned, hs.queued.afterPlanned, hs.queued.whenPlanned,
    hs.queued.logPlanned⟩, hs.queued.complete⟩, ⟨hs.timely.sorted, hs.timely.fixedLate,
    hs.timely.afterLate, hs.timely.logEarly, hs.timely.ordered⟩, ⟨hs.sourced.recorded,
    hs.sourced.anchored⟩, ⟨hs.awaited.known, hover⟩⟩

end SameQueues

/-- The loop has not come to its end. -/
def Unfinished (s : Runner χ ε κ) : Prop := ∀ result, s.status ≠ .finished result

theorem runAssert_spec (cond : String) (message : Option String) (s : Runner χ ε κ)
    (hs : s.Unfinished) : SameQueues s (s.runAssert E cond message) ∧
      (s.runAssert E cond message).Unfinished := by
  unfold runAssert
  split
  · exact ⟨⟨rfl, rfl, rfl, rfl, rfl, rfl, rfl⟩, nofun⟩
  · split
    · exact ⟨⟨rfl, rfl, rfl, rfl, rfl, rfl, rfl⟩, nofun⟩
    · exact ⟨⟨rfl, rfl, rfl, rfl, rfl, rfl, rfl⟩, nofun⟩
    · dsimp only
      split
      · exact ⟨⟨rfl, rfl, rfl, rfl, rfl, rfl, rfl⟩, hs⟩
      · exact ⟨⟨rfl, rfl, rfl, rfl, rfl, rfl, rfl⟩, nofun⟩

theorem executeVerb_spec (verb : Verb κ) (name : Option String) (s : Runner χ ε κ)
    (hs : s.Unfinished) : SameQueues s (s.executeVerb E verb name) ∧
      (s.executeVerb E verb name).Unfinished := by
  cases verb with
  | sleep duration =>
    rw [executeVerb]
    split
    · exact ⟨⟨rfl, rfl, rfl, rfl, rfl, rfl, rfl⟩, nofun⟩
    · exact ⟨⟨rfl, rfl, rfl, rfl, rfl, rfl, rfl⟩, hs⟩
  | assert cond message => exact runAssert_spec cond message s hs
  | other command => exact ⟨⟨rfl, rfl, rfl, rfl, rfl, rfl, rfl⟩, hs⟩

/-- Executing an event logs it; what its verb does changes no queue. -/
theorem execute_spec (seq : ℕ) (name : Option String) (cause : Cause) (time : Duration)
    (verb : Verb κ) (s : Runner χ ε κ) (hs : s.Unfinished) :
    SameQueues { s with log := s.log ++ [⟨seq, name, cause, time⟩] }
        (s.execute E seq name cause time verb) ∧
      (s.execute E seq name cause time verb).Unfinished := by
  obtain ⟨hsame, hunfinished⟩ := executeVerb_spec (E := E) verb name
    { s with log := s.log ++ [⟨seq, name, cause, time⟩] } hs
  unfold execute
  dsimp only
  split
  · rename_i hrunning
    refine ⟨hsame.trans ⟨rfl, rfl, rfl, rfl, rfl, rfl, rfl⟩, fun result h => ?_⟩
    exact hunfinished result h
  · exact ⟨hsame, hunfinished⟩

theorem foldl_runAssert_spec (asserts : List ScenarioAssert) (s : Runner χ ε κ) (hs : s.Unfinished) :
    SameQueues s (asserts.foldl (fun s a => match s.status with
      | .running => s.runAssert E a.cond a.message
      | _ => s) s) := by
  induction asserts generalizing s with
  | nil => exact .refl s
  | cons a asserts ih =>
    rw [List.foldl_cons]
    split
    · obtain ⟨hsame, hunfinished⟩ := runAssert_spec (E := E) a.cond a.message s hs
      exact hsame.trans (ih _ hunfinished)
    · exact ih s hs

theorem runFinalAsserts_spec (s : Runner χ ε κ) (hs : s.Unfinished) :
    SameQueues s (s.runFinalAsserts E) :=
  foldl_runAssert_spec s.scenario.asserts s hs

/-- The clock goes on to the last fill that is due. -/
theorem flush_spec (s : Runner χ ε κ) (hs : s.Unfinished) :
    SameQueues s (match E.nextFillDeadline s.engine with
      | some deadline => s.advanceTo E deadline
      | none => s) ∧
    Unfinished (match E.nextFillDeadline s.engine with
      | some deadline => s.advanceTo E deadline
      | none => s) := by
  split
  · exact ⟨⟨rfl, rfl, rfl, rfl, rfl, rfl, rfl⟩, hs⟩
  · exact ⟨.refl s, hs⟩

theorem finish_spec (s : Runner χ ε κ) (hs : s.Unfinished) : SameQueues s (s.finish E) := by
  obtain ⟨hflush, hunfinished⟩ := flush_spec (E := E) s hs
  have hasserts := hflush.trans (runFinalAsserts_spec (E := E) _ hunfinished)
  unfold finish
  dsimp only
  split <;> exact hasserts.trans ⟨rfl, rfl, rfl, rfl, rfl, rfl, rfl⟩

/-! ### Logging an event -/

theorem namedAnchors_recordAnchor (name : Option String) (time : Duration) (s : Runner χ ε κ)
    (anchor : String) : (s.recordAnchor name time).namedAnchors anchor =
      if name = some anchor then some time else s.namedAnchors anchor := by
  cases name with
  | none => simp [recordAnchor]
  | some name =>
    by_cases h : name = anchor
    · subst h; simp [recordAnchor]
    · simp [recordAnchor, Function.update_of_ne (Ne.symm h), h]

/-- An `after:` event whose anchor is recorded anew is due from then on. -/
theorem fireAt_recordAnchor (name : Option String) (time : Duration) (s : Runner χ ε κ)
    (p : PendingAfter κ) : (s.recordAnchor name time).fireAt p =
      if name = some p.anchor then some (saturatingAdd time p.delay) else s.fireAt p := by
  rw [fireAt, namedAnchors_recordAnchor, fireAt]
  split <;> rfl

/-- An event whose deadline is the one reached leaves its queue, is recorded and logged. -/
def logTimed (x : Executed) (fixed : List (TimedEvent κ)) (pendingAfter : List (PendingAfter κ))
    (s : Runner χ ε κ) : Runner χ ε κ :=
  { ({ s with fixed := fixed, pendingAfter := pendingAfter } : Runner χ ε κ).recordAnchor x.name
      x.time with log := s.log ++ [x] }

section LogTimed

variable {s : Runner χ ε κ} {x : Executed} {fixed : List (TimedEvent κ)}
  {pendingAfter : List (PendingAfter κ)}

theorem Queued.logTimed (hs : s.Queued E) (hplanned : s.Planned E x)
    (hfixed : ∀ e ∈ fixed, e ∈ s.fixed) (hafter : ∀ p ∈ pendingAfter, p ∈ s.pendingAfter)
    (hdone : ∀ p ∈ s.pendingAfter, p ∈ pendingAfter ∨ p.seq = x.seq)
    (hseqs : (s.fixed.map TimedEvent.seq ++ s.pendingAfter.map PendingAfter.seq).Perm
      (x.seq :: (fixed.map TimedEvent.seq ++ pendingAfter.map PendingAfter.seq))) :
    (s.logTimed x fixed pendingAfter).Queued E where
  nodup := by
    refine (List.Perm.nodup_iff ?_).mp hs.nodup
    have hlog : (s.logTimed x fixed pendingAfter).log.map Executed.seq =
        s.log.map Executed.seq ++ [x.seq] := by simp [Runner.logTimed]
    rw [seqs, seqs, hlog, ← List.append_assoc]
    refine (((hseqs.append_right _).append_right _).trans ?_).trans
      (List.perm_append_singleton _ _).symm
    exact List.Perm.refl _
  fixedPlanned e he := hs.fixedPlanned e (hfixed e he)
  afterPlanned p hp := hs.afterPlanned p (hafter p hp)
  whenPlanned := hs.whenPlanned
  logPlanned y hy := by
    rcases List.mem_append.mp hy with hy | hy
    · exact hs.logPlanned y hy
    · cases List.mem_singleton.mp hy
      exact hplanned
  complete i ev hev anchor delay hwaits := by
    have hlogged : ∃ y ∈ s.log ++ [x], y.seq = x.seq :=
      ⟨x, List.mem_append_right _ (List.mem_singleton_self x), rfl⟩
    rcases hs.complete i ev hev anchor delay hwaits with ⟨p, hp, hwait⟩ | ⟨y, hy, hseq⟩
    · rcases hdone p hp with hp | hseq
      · exact Or.inl ⟨p, hp, hwait⟩
      · exact Or.inr (hwait.1 ▸ hseq ▸ hlogged)
    · exact Or.inr ⟨y, List.mem_append_left _ hy, hseq⟩

theorem Timely.logTimed (hs : s.Timely) (htime : x.time = s.reached)
    (hfixed : fixed.Sublist s.fixed) (hafter : ∀ p ∈ pendingAfter, p ∈ s.pendingAfter) :
    (s.logTimed x fixed pendingAfter).Timely where
  sorted := hs.sorted.sublist hfixed
  fixedLate e he := hs.fixedLate e (hfixed.subset he)
  afterLate p hp t hfire := by
    have hfire' : (s.logTimed x fixed pendingAfter).fireAt p =
        if x.name = some p.anchor then some (saturatingAdd x.time p.delay) else s.fireAt p :=
      fireAt_recordAnchor x.name x.time _ p
    rw [hfire'] at hfire
    split at hfire
    · cases hfire
      exact (htime.ge).trans (le_saturatingAdd x.time p.delay)
    · exact hs.afterLate p (hafter p hp) t hfire
  logEarly y hy hy' := by
    rcases List.mem_append.mp hy with hy | hy
    · exact hs.logEarly y hy hy'
    · cases List.mem_singleton.mp hy
      exact htime.le
  ordered := by
    have hlog : (s.logTimed x fixed pendingAfter).log.filter Executed.timed =
        s.log.filter Executed.timed ++ [x].filter Executed.timed := List.filter_append ..
    rw [hlog, List.pairwise_append]
    refine ⟨hs.ordered, (List.pairwise_singleton _ x).sublist List.filter_sublist, ?_⟩
    intro y hy z hz
    obtain ⟨hy, hy'⟩ := List.mem_filter.mp hy
    cases List.mem_singleton.mp (List.mem_of_mem_filter hz)
    exact htime ▸ hs.logEarly y hy hy'

theorem Sourced.logTimed (hs : s.Sourced) (hgone : ∀ e ∈ s.fixed, e ∈ fixed ∨ fixedEntry e = x)
    (hanchored : ∀ anchor delay, x.cause = .after anchor delay →
      ∃ y ∈ s.log, y.name = some anchor ∧ x.time = saturatingAdd y.time delay) :
    (s.logTimed x fixed pendingAfter).Sourced where
  recorded name t hrec := by
    have hx : x ∈ s.log ++ [x] := List.mem_append_right _ (List.mem_singleton_self x)
    have hrec' := (namedAnchors_recordAnchor x.name x.time
      { s with fixed := fixed, pendingAfter := pendingAfter } name).symm.trans hrec
    split at hrec'
    · rename_i hname
      cases hrec'
      exact Or.inr ⟨x, hx, hname, rfl⟩
    · rcases hs.recorded name t hrec' with ⟨e, he, hname, hdeadline⟩ | ⟨y, hy, hrest⟩
      · rcases hgone e he with he | rfl
        · exact Or.inl ⟨e, he, hname, hdeadline⟩
        · exact Or.inr ⟨fixedEntry e, hx, hname, hdeadline⟩
      · exact Or.inr ⟨y, List.mem_append_left _ hy, hrest⟩
  anchored pre y hpre anchor delay hcause := by
    rcases List.prefix_concat_iff.mp hpre with heq | hlt
    · obtain ⟨rfl, rfl⟩ := List.append_singleton_inj.mp heq
      exact hanchored anchor delay hcause
    · exact hs.anchored pre y hlt anchor delay hcause

theorem Awaited.logTimed (hs : s.Awaited) (hunfinished : s.Unfinished)
    (hafter : ∀ p ∈ pendingAfter, p ∈ s.pendingAfter)
    (hfresh : ∀ p ∈ pendingAfter, x.name = some p.anchor → ∀ y ∈ s.log, y.name ≠ some p.anchor) :
    (s.logTimed x fixed pendingAfter).Awaited where
  known p hp y hy hname := by
    refine (namedAnchors_recordAnchor x.name x.time
      { s with fixed := fixed, pendingAfter := pendingAfter } p.anchor).trans ?_
    rcases List.mem_append.mp hy with hy | hy
    · split
      · rename_i hx
        exact absurd hname (hfresh p hp hx y hy)
      · exact hs.known p (hafter p hp) y hy hname
    · cases List.mem_singleton.mp hy
      rw [if_pos hname]
  drained result h := absurd h (hunfinished result)

end LogTimed

theorem seqs_log (s : Runner χ ε κ) (x : Executed) :
    ({ s with log := s.log ++ [x] } : Runner χ ε κ).seqs = s.seqs ++ [x.seq] := by
  simp [seqs]

/-- A `when:` event with a name that no event waits for is logged. -/
theorem Sound.logPattern {s : Runner χ ε κ} (hs : s.Sound E) {x : Executed} (hnew : x.seq ∉ s.seqs)
    (hplanned : s.Planned E x) (hcause : x.cause = .pattern)
    (hnone : ∀ p ∈ s.pendingAfter, x.name ≠ some p.anchor) :
    ({ s with log := s.log ++ [x] } : Runner χ ε κ).Sound E := by
  have hmem : ∀ y, y ∈ s.log ++ [x] ↔ y ∈ s.log ∨ y = x := by simp
  have hqueued : ({ s with log := s.log ++ [x] } : Runner χ ε κ).Queued E := by
    refine ⟨⟨?_, hs.queued.fixedPlanned, hs.queued.afterPlanned, hs.queued.whenPlanned,
      fun y hy => ?_⟩, fun i ev hev anchor delay hwaits => ?_⟩
    · rw [seqs_log]
      exact (List.perm_append_singleton x.seq _).nodup_iff.mpr
        (List.nodup_cons.mpr ⟨hnew, hs.queued.nodup⟩)
    · rcases (hmem y).mp hy with hy | rfl
      · exact hs.queued.logPlanned y hy
      · exact hplanned
    · rcases hs.queued.complete i ev hev anchor delay hwaits with hp | ⟨y, hy, hseq⟩
      · exact Or.inl hp
      · exact Or.inr ⟨y, List.mem_append_left _ hy, hseq⟩
  have huntimed : x.timed = false := by simp [Executed.timed, hcause]
  refine ⟨hqueued, ⟨hs.timely.sorted, hs.timely.fixedLate, hs.timely.afterLate, fun y hy hy' => ?_, ?_⟩,
    ⟨fun name t hrec => ?_, fun pre y hpre anchor delay hy => ?_⟩,
    ⟨fun p hp y hy hname => ?_, hs.awaited.drained⟩⟩
  · rcases (hmem y).mp hy with hy | rfl
    · exact hs.timely.logEarly y hy hy'
    · rw [huntimed] at hy'
      cases hy'
  · have hfilter : (s.log ++ [x]).filter Executed.timed = s.log.filter Executed.timed := by
      simp [List.filter_append, huntimed]
    rw [hfilter]
    exact hs.timely.ordered
  · rcases hs.sourced.recorded name t hrec with he | ⟨y, hy, hrest⟩
    · exact Or.inl he
    · exact Or.inr ⟨y, List.mem_append_left _ hy, hrest⟩
  · rcases List.prefix_concat_iff.mp hpre with heq | hlt
    · obtain ⟨rfl, rfl⟩ := List.append_singleton_inj.mp heq
      rw [hcause] at hy
      cases hy
    · exact hs.sourced.anchored pre y hlt anchor delay hy
  · rcases (hmem y).mp hy with hy | rfl
    · exact hs.awaited.known p hp y hy hname
    · exact absurd hname (hnone p hp)

/-! ### `when:` clauses -/

/-- A clause fires or stays. -/
theorem fireReadyWhenClauses_perm {engine : ε} {ws fired remaining : List (WhenEvent χ κ)}
    (h : fireReadyWhenClauses E engine ws = .ok (fired, remaining)) : (fired ++ remaining).Perm ws := by
  induction ws generalizing fired remaining with
  | nil =>
    cases h
    exact .refl _
  | cons w ws ih =>
    have hstay : ∀ f r, fireReadyWhenClauses E engine ws = .ok (f, r) → (f ++ w :: r).Perm (w :: ws) :=
      fun f r hrest => List.perm_middle.trans ((ih hrest).cons w)
    simp only [fireReadyWhenClauses] at h
    split at h
    · cases h
    · cases hrest : fireReadyWhenClauses E engine ws with
      | error err => rw [hrest] at h; cases h
      | ok r =>
        rw [hrest] at h
        cases h
        exact hstay _ _ hrest
    · cases hrest : fireReadyWhenClauses E engine ws with
      | error err => rw [hrest] at h; cases h
      | ok r =>
        rw [hrest] at h
        simp only [Except.map, Except.ok.injEq] at h
        split at h
        · cases h
          exact (ih hrest).cons w
        · cases h
          exact hstay _ _ hrest

theorem executeFired_sound {ws : List (WhenEvent χ κ)} {s : Runner χ ε κ} (hs : s.Sound E)
    (hunfinished : s.Unfinished) (hnodup : (ws.map WhenEvent.seq ++ s.seqs).Nodup)
    (hplanned : ∀ w ∈ ws, ∀ t, s.Planned E (whenEntry t w))
    (hnone : ∀ w ∈ ws, ∀ p ∈ s.pendingAfter, w.name ≠ some p.anchor) :
    (s.executeFired E ws).Sound E := by
  induction ws generalizing s with
  | nil => exact hs
  | cons w ws ih =>
    rw [List.map_cons, List.cons_append, List.nodup_cons] at hnodup
    have hlogged := hs.logPattern (x := whenEntry s.now w)
      (fun hmem => hnodup.1 (List.mem_append_right _ hmem)) (hplanned w List.mem_cons_self s.now) rfl
      (hnone w List.mem_cons_self)
    obtain ⟨hsame, hunfinished'⟩ :=
      execute_spec (E := E) w.seq w.name .pattern s.now w.verb s hunfinished
    have hsound := hsame.sound hlogged fun result h => absurd h (hunfinished' result)
    rw [executeFired]
    split
    · have hcount : SameQueues (s.execute E w.seq w.name .pattern s.now w.verb)
          { s.execute E w.seq w.name .pattern s.now w.verb with
            whenFires := (s.execute E w.seq w.name .pattern s.now w.verb).whenFires + 1 } :=
        ⟨rfl, rfl, rfl, rfl, rfl, rfl, rfl⟩
      have hall := hsame.trans hcount
      refine ih (hcount.sound hsound fun result h => absurd h (hunfinished' result)) hunfinished' ?_
        (fun w' hw' t => ?_) fun w' hw' p hp => ?_
      · rw [hall.seqs, seqs_log, ← List.append_assoc]
        refine (List.perm_append_singleton w.seq _).nodup_iff.mpr ?_
        exact List.nodup_cons.mpr hnodup
      · obtain ⟨ev, hev, hof⟩ := hplanned w' (List.mem_cons_of_mem _ hw') t
        exact ⟨ev, by rw [hall.scenario]; exact hev, hof⟩
      · exact hnone w' (List.mem_cons_of_mem _ hw') p (hall.pendingAfter ▸ hp)
    · exact hsound

/-! ### Deadlines -/

theorem reduceOption_min?_le {l : List (Option Duration)} {deadline t : Duration}
    (h : l.reduceOption.min? = some deadline) (ht : some t ∈ l) : deadline ≤ t :=
  (List.min?_eq_some_iff.mp h).2 t (List.reduceOption_mem_iff.mpr ht)

/-- The next deadline is no later than any that is pending. -/
theorem nextDeadline_le {s : Runner χ ε κ} (hs : s.Timely) {deadline : Duration}
    (h : s.nextDeadline E = some deadline) : (∀ e ∈ s.fixed, deadline ≤ e.deadline) ∧
      ∀ p ∈ s.pendingAfter, ∀ t, s.fireAt p = some t → deadline ≤ t := by
  unfold nextDeadline at h
  constructor
  · intro e he
    cases hfixed : s.fixed with
    | nil => rw [hfixed] at he; cases he
    | cons first rest =>
      have hfirst : deadline ≤ first.deadline := reduceOption_min?_le h (by simp [hfixed])
      have hsorted := hs.sorted
      rw [hfixed] at he hsorted
      rcases List.mem_cons.mp he with rfl | he
      · exact hfirst
      · exact hfirst.trans ((List.pairwise_cons.mp hsorted).1 e he)
  · intro p hp t ht
    have hmem : t ∈ s.pendingAfter.filterMap s.fireAt := List.mem_filterMap.mpr ⟨p, hp, ht⟩
    cases hearliest : s.earliestAfter with
    | none =>
      rw [earliestAfter, List.min?_eq_none_iff] at hearliest
      rw [hearliest] at hmem
      cases hmem
    | some first =>
      have hfirst : deadline ≤ first := reduceOption_min?_le h (by simp [hearliest])
      exact hfirst.trans ((List.min?_eq_some_iff.mp hearliest).2 t hmem)

/-- Where no deadline is pending, no anchor of an event that waits is recorded. -/
theorem nextDeadline_none {s : Runner χ ε κ} (h : s.nextDeadline E = none) :
    ∀ p ∈ s.pendingAfter, s.namedAnchors p.anchor = none := by
  intro p hp
  unfold nextDeadline at h
  rw [List.min?_eq_none_iff] at h
  cases hanchor : s.namedAnchors p.anchor with
  | none => rfl
  | some t =>
    exfalso
    have hmem : saturatingAdd t p.delay ∈ s.pendingAfter.filterMap s.fireAt :=
      List.mem_filterMap.mpr ⟨p, hp, by rw [fireAt, hanchor]; rfl⟩
    cases hearliest : s.earliestAfter with
    | none =>
      rw [earliestAfter, List.min?_eq_none_iff] at hearliest
      rw [hearliest] at hmem
      cases hmem
    | some first =>
      have hfirst : first ∈ ([] : List Duration) := by
        rw [← h]
        exact List.reduceOption_mem_iff.mpr (by simp [hearliest])
      cases hfirst

/-- The loop goes on to the next deadline. -/
theorem reach_sound {s : Runner χ ε κ} (hs : s.Sound E) (hunfinished : s.Unfinished)
    {deadline : Duration} (h : s.nextDeadline E = some deadline) :
    ({ s.advanceTo E deadline with reached := max s.reached deadline } : Runner χ ε κ).Sound E := by
  obtain ⟨hfixed, hafter⟩ := nextDeadline_le hs.timely h
  refine ⟨⟨⟨hs.queued.nodup, hs.queued.fixedPlanned, hs.queued.afterPlanned, hs.queued.whenPlanned,
    hs.queued.logPlanned⟩, hs.queued.complete⟩, ⟨hs.timely.sorted, fun e he => ?_, fun p hp t ht => ?_,
    fun x hx hx' => ?_, hs.timely.ordered⟩, ⟨hs.sourced.recorded, hs.sourced.anchored⟩,
    ⟨hs.awaited.known, fun result hover => absurd hover (hunfinished result)⟩⟩
  · exact max_le (hs.timely.fixedLate e he) (hfixed e he)
  · exact max_le (hs.timely.afterLate p hp t ht) (hafter p hp t ht)
  · exact (hs.timely.logEarly x hx hx').trans (le_max_left _ _)

/-! ### Dispatching -/

/-- An event that was executed is logged, and its verb changes no queue. -/
theorem execute_logTimed_sound {s : Runner χ ε κ} (hunfinished : s.Unfinished) (x : Executed)
    (fixed : List (TimedEvent κ)) (pendingAfter : List (PendingAfter κ)) (verb : Verb κ)
    (hs : (s.logTimed x fixed pendingAfter).Sound E) :
    ((({ s with fixed := fixed, pendingAfter := pendingAfter } : Runner χ ε κ).recordAnchor x.name
      x.time).execute E x.seq x.name x.cause x.time verb).Sound E := by
  obtain ⟨hsame, hunfinished'⟩ := execute_spec (E := E) x.seq x.name x.cause x.time verb
    (({ s with fixed := fixed, pendingAfter := pendingAfter } : Runner χ ε κ).recordAnchor x.name
      x.time)
    hunfinished
  exact hsame.sound hs fun result h => absurd h (hunfinished' result)

theorem dispatchFixed_sound {s : Runner χ ε κ} (hs : s.Sound E) (hunfinished : s.Unfinished)
    {deadline : Duration} (hreached : deadline ≤ s.reached) {ev : TimedEvent κ}
    (hdue : s.dueFixed deadline = some ev)
    (hfresh : ∀ p ∈ s.pendingAfter, ev.name = some p.anchor → ∀ y ∈ s.log, y.name ≠ some p.anchor) :
    ((({ s with fixed := s.fixed.tail } : Runner χ ε κ).recordAnchor ev.name ev.deadline).execute E
      ev.seq ev.name .fixed ev.deadline ev.verb).Sound E := by
  obtain ⟨hhead, hle⟩ := Option.filter_eq_some_iff.mp hdue
  obtain ⟨rest, hfixed⟩ := List.head?_eq_some_iff.mp hhead
  have hmem : ev ∈ s.fixed := by rw [hfixed]; exact List.mem_cons_self
  have htime : (fixedEntry ev).time = s.reached :=
    le_antisymm ((of_decide_eq_true hle).trans hreached) (hs.timely.fixedLate ev hmem)
  have hsub : s.fixed.tail.Sublist s.fixed := List.tail_sublist s.fixed
  refine execute_logTimed_sound hunfinished (fixedEntry ev) s.fixed.tail s.pendingAfter ev.verb
    ⟨hs.queued.logTimed (hs.queued.fixedPlanned ev hmem) (fun _ => hsub.mem) (fun _ hp => hp)
      (fun _ hp => Or.inl hp) ?_, hs.timely.logTimed htime hsub fun _ hp => hp,
      hs.sourced.logTimed (fun e he => ?_) nofun,
      hs.awaited.logTimed hunfinished (fun _ hp => hp) hfresh⟩
  · rw [hfixed]
    exact List.Perm.refl _
  · rw [hfixed] at he ⊢
    rcases List.mem_cons.mp he with rfl | he
    · exact Or.inr rfl
    · exact Or.inl he

/-- An `after:` event is due only once its anchor has been executed: a fixed one goes first. -/
theorem dispatchAfter_sound {s : Runner χ ε κ} (hs : s.Sound E) (hunfinished : s.Unfinished)
    {deadline : Duration} (hreached : deadline ≤ s.reached) (hnone : s.dueFixed deadline = none)
    {p : PendingAfter κ} {time : Duration}
    (hfind : s.pendingAfter.find? (s.isDue deadline) = some p) (hfire : s.fireAt p = some time)
    (hfresh : ∀ q ∈ s.pendingAfter, q.seq ≠ p.seq → p.name = some q.anchor →
      ∀ y ∈ s.log, y.name ≠ some q.anchor) :
    ((({ s with pendingAfter := s.pendingAfter.eraseP (s.isDue deadline) } : Runner χ ε κ).recordAnchor
      p.name time).execute E p.seq p.name (.after p.anchor p.delay) time p.verb).Sound E := by
  obtain ⟨hdue, before, after, heq, hbefore⟩ := List.find?_eq_some_iff_append.mp hfind
  have herase : s.pendingAfter.eraseP (s.isDue deadline) = before ++ after := by
    rw [heq, List.eraseP_append_right _ fun q hq => by simpa using hbefore q hq,
      List.eraseP_cons_of_pos hdue]
  have hperm : s.pendingAfter.Perm (p :: s.pendingAfter.eraseP (s.isDue deadline)) := by
    rw [herase, heq]
    exact List.perm_middle
  have hmem : p ∈ s.pendingAfter := List.mem_of_find?_eq_some hfind
  have hsub : ∀ q ∈ s.pendingAfter.eraseP (s.isDue deadline), q ∈ s.pendingAfter :=
    fun q hq => List.mem_of_mem_eraseP hq
  have hle : time ≤ deadline := by
    simpa only [isDue, hfire, Option.map_some, Option.getD_some, decide_eq_true_eq] using hdue
  have htime : time = s.reached :=
    le_antisymm (hle.trans hreached) (hs.timely.afterLate p hmem time hfire)
  obtain ⟨t, hanchor, hsum⟩ := Option.map_eq_some_iff.mp hfire
  refine execute_logTimed_sound hunfinished (afterEntry time p) s.fixed
    (s.pendingAfter.eraseP (s.isDue deadline)) p.verb
    ⟨hs.queued.logTimed (hs.queued.afterPlanned p hmem time) (fun _ he => he) hsub (fun q hq => ?_) ?_,
      hs.timely.logTimed htime (List.Sublist.refl _) hsub,
      hs.sourced.logTimed (fun _ he => Or.inl he) fun anchor delay hcause => ?_,
      hs.awaited.logTimed hunfinished hsub fun q hq => ?_⟩
  · rcases List.mem_cons.mp (hperm.mem_iff.mp hq) with rfl | hq
    · exact Or.inr rfl
    · exact Or.inl hq
  · exact ((hperm.map PendingAfter.seq).append_left _).trans List.perm_middle
  · cases hcause
    rcases hs.sourced.recorded p.anchor t hanchor with ⟨e, he, hname, hdeadline⟩ | ⟨y, hy, hname, hy'⟩
    · -- The fixed event with this name is due too, so it would have gone first.
      exfalso
      have hlate : e.deadline ≤ deadline := by
        rw [hdeadline]
        exact (le_saturatingAdd t p.delay).trans (hsum ▸ hle)
      cases hfixed : s.fixed with
      | nil => rw [hfixed] at he; cases he
      | cons first rest =>
        have hsorted := hs.timely.sorted
        rw [hfixed] at he hsorted
        have hfirst : first.deadline ≤ deadline := by
          rcases List.mem_cons.mp he with rfl | he
          · exact hlate
          · exact ((List.pairwise_cons.mp hsorted).1 e he).trans hlate
        rw [dueFixed, hfixed, List.head?_cons, Option.filter_eq_none_iff] at hnone
        exact hnone first rfl (decide_eq_true hfirst)
    · exact ⟨y, hy, hname, by rw [hy']; exact hsum.symm⟩
  · refine hfresh q (hsub q hq) fun hseq => ?_
    -- No two events that wait have one place.
    have hnodup : (s.pendingAfter.map PendingAfter.seq).Nodup :=
      (List.nodup_append.mp (List.nodup_append.mp (List.nodup_append.mp hs.queued.nodup).1).1).2.1
    rw [(hperm.map PendingAfter.seq).nodup_iff, List.map_cons, List.nodup_cons] at hnodup
    exact hnodup.1 (hseq ▸ List.mem_map_of_mem hq)

/-- What an iteration executes once it has reached a deadline. -/
theorem dispatchDue_sound {s : Runner χ ε κ} (hs : s.Sound E) (hunfinished : s.Unfinished)
    {deadline : Duration} (hreached : deadline ≤ s.reached)
    (hfresh : ∀ seq name, (match s.dueFixed deadline with
        | some ev => some (ev.seq, ev.name)
        | none => (s.pendingAfter.find? (s.isDue deadline)).map fun p => (p.seq, p.name)) =
          some (seq, name) →
      ∀ p ∈ s.pendingAfter, p.seq ≠ seq → name = some p.anchor →
        ∀ y ∈ s.log, y.name ≠ some p.anchor) :
    (s.dispatchDue E deadline).Sound E := by
  unfold dispatchDue
  cases hdue : s.dueFixed deadline with
  | some ev =>
    rw [hdue] at hfresh
    refine dispatchFixed_sound hs hunfinished hreached hdue fun p hp hname => ?_
    refine hfresh ev.seq ev.name rfl p hp (fun hseq => ?_) hname
    obtain ⟨hhead, _⟩ := Option.filter_eq_some_iff.mp hdue
    have hev : ev.seq ∈ s.fixed.map TimedEvent.seq := List.mem_map_of_mem (List.mem_of_head? hhead)
    have hnodup := (List.nodup_append.mp (List.nodup_append.mp hs.queued.nodup).1).1
    exact (List.nodup_append.mp hnodup).2.2 ev.seq hev p.seq (List.mem_map_of_mem hp) hseq.symm
  | none =>
    rw [hdue] at hfresh
    dsimp only
    split
    · exact hs
    · rename_i p hfind
      split
      · rename_i hnofire
        exfalso
        have hdue' : s.isDue deadline p = true := List.find?_some hfind
        have hnofire' : s.fireAt p = none := hnofire
        rw [isDue, hnofire'] at hdue'
        cases hdue'
      · rename_i time hfire
        refine dispatchAfter_sound hs hunfinished hreached hdue hfind hfire fun q hq hseq hname => ?_
        exact hfresh p.seq p.name (by rw [hfind, Option.map_some]) q hq hseq hname

/-! ### Iterations -/

/-- Clauses leave the queue of those that wait. -/
theorem Sound.takeWhens {s : Runner χ ε κ} (hs : s.Sound E) {fired remaining : List (WhenEvent χ κ)}
    (hperm : (fired ++ remaining).Perm s.pendingWhen) :
    ({ s with pendingWhen := remaining } : Runner χ ε κ).Sound E ∧
      (fired.map WhenEvent.seq ++
        ({ s with pendingWhen := remaining } : Runner χ ε κ).seqs).Nodup := by
  have hseqs : (fired.map WhenEvent.seq ++
      ({ s with pendingWhen := remaining } : Runner χ ε κ).seqs).Perm s.seqs := by
    have hwhen := hperm.map WhenEvent.seq
    rw [List.map_append] at hwhen
    rw [seqs, seqs]
    dsimp only
    rw [← List.append_assoc, ← List.append_assoc]
    refine List.Perm.append_right _ ?_
    refine (List.Perm.append_right _ List.perm_append_comm).trans ?_
    rw [List.append_assoc]
    exact hwhen.append_left _
  have hnodup := hseqs.nodup_iff.mpr hs.queued.nodup
  refine ⟨⟨⟨⟨(List.nodup_append.mp hnodup).2.1, hs.queued.fixedPlanned, hs.queued.afterPlanned,
    fun w hw => hs.queued.whenPlanned w (hperm.mem_iff.mp (List.mem_append_right _ hw)),
    hs.queued.logPlanned⟩, hs.queued.complete⟩, ⟨hs.timely.sorted, hs.timely.fixedLate,
    hs.timely.afterLate, hs.timely.logEarly, hs.timely.ordered⟩, ⟨hs.sourced.recorded,
    hs.sourced.anchored⟩, ⟨hs.awaited.known, hs.awaited.drained⟩⟩, hnodup⟩

theorem Sound.iterate {s : Runner χ ε κ} (hs : s.Sound E) (hrunning : s.status = .running)
    (hkept : s.AnchorsKept E .iterate) : (s.iterate E).Sound E := by
  have hunfinished : s.Unfinished := fun result h => by rw [hrunning] at h; cases h
  unfold Runner.iterate
  split
  · have hall : (s.pendingWhen ++ []).Perm s.pendingWhen := by rw [List.append_nil]
    obtain ⟨htaken, _⟩ := hs.takeWhens hall
    exact (SameQueues.stop _ _).sound htaken nofun
  · rename_i fired remaining hfire
    obtain ⟨hnone, hfresh⟩ := hkept (fired, remaining) (by rw [clauses, hrunning, hfire]; rfl)
    obtain ⟨htaken, hnodup⟩ := hs.takeWhens (fireReadyWhenClauses_perm hfire)
    dsimp only
    split
    · rename_i hempty
      split
      · rename_i hdone
        exact (finish_spec { s with pendingWhen := remaining } hunfinished).sound htaken fun _ _ =>
          nextDeadline_none (s := { s with pendingWhen := remaining }) hdone
      · rename_i deadline hdeadline
        have hreach := reach_sound htaken hunfinished hdeadline
        split
        · refine dispatchDue_sound hreach hunfinished (le_max_right _ _) fun seq name hnext => ?_
          exact hfresh hempty (seq, name) (by rw [nextTimed, hdeadline]; exact hnext)
        · exact hreach
    · refine executeFired_sound htaken hunfinished hnodup (fun w hw t => ?_) hnone
      exact hs.queued.whenPlanned w
        ((fireReadyWhenClauses_perm hfire).mem_iff.mp (List.mem_append_left _ hw)) t

theorem Sound.step {s : Runner χ ε κ} (hs : s.Sound E) (op : Op ε) (hkept : s.AnchorsKept E op) :
    (Dsl.step E s op).Sound E := by
  cases op with
  | elsewhere engine now =>
    exact (SameQueues.elsewhere engine now s).sound hs hs.awaited.drained
  | iterate =>
    rw [Dsl.step]
    split
    · rename_i hrunning
      exact hs.iterate hrunning hkept
    · exact hs

/-! ### Indexing -/

/-- What holds once the events before the `i`-th are indexed. -/
structure Indexed (E : ScenarioEngine χ ε κ) (i : ℕ) (s : Runner χ ε κ) : Prop where
  fresh : s.status = .running ∧ s.log = [] ∧ s.reached.1 = 0
  bound : ∀ k ∈ s.seqs, k < i
  placed : s.Placed E
  recorded : ∀ name t, s.namedAnchors name = some t →
    ∃ e ∈ s.fixed, e.name = some name ∧ e.deadline = t
  complete : ∀ j < i, ∀ ev, s.scenario.events[j]? = some ev → ∀ anchor delay, ev.Waits E anchor delay →
    ∃ p ∈ s.pendingAfter, p.seq = j ∧ p.anchor = anchor ∧ p.delay = delay

theorem indexed_new (scenario : Scenario κ) (engine : ε) (now : Duration) :
    (Runner.new scenario engine now : Runner χ ε κ).Indexed E 0 where
  fresh := ⟨rfl, rfl, rfl⟩
  bound := nofun
  placed := ⟨List.nodup_nil, nofun, nofun, nofun, nofun⟩
  recorded := nofun
  complete := nofun

theorem Indexed.nodup_cons {i : ℕ} {s : Runner χ ε κ} (hs : s.Indexed E i) {l : List ℕ}
    (hperm : l.Perm (i :: s.seqs)) : l.Nodup ∧ ∀ k ∈ l, k < i + 1 := by
  constructor
  · refine hperm.nodup_iff.mpr (List.nodup_cons.mpr ⟨fun h => ?_, hs.placed.nodup⟩)
    exact absurd (hs.bound i h) (lt_irrefl i)
  · intro k hk
    rcases List.mem_cons.mp (hperm.mem_iff.mp hk) with rfl | hk
    · exact Nat.lt_succ_self _
    · exact Nat.lt_succ_of_lt (hs.bound k hk)

theorem perm_singleton_middle (i : ℕ) (a b : List ℕ) : (a ++ [i] ++ b).Perm (i :: (a ++ b)) := by
  rw [List.append_assoc]
  exact List.perm_middle

/-- An event that does not wait adds nothing that is to be waited for. -/
theorem Indexed.complete_succ {i : ℕ} {s : Runner χ ε κ} (hs : s.Indexed E i) {ev : ScenarioEvent κ}
    (hev : s.scenario.events[i]? = some ev) (hnot : ∀ anchor delay, ¬ ev.Waits E anchor delay) :
    ∀ j < i + 1, ∀ ev', s.scenario.events[j]? = some ev' → ∀ anchor delay, ev'.Waits E anchor delay →
      ∃ p ∈ s.pendingAfter, p.seq = j ∧ p.anchor = anchor ∧ p.delay = delay := by
  intro j hj ev' hev' anchor delay hwaits
  rcases Nat.lt_succ_iff_lt_or_eq.mp hj with hj | rfl
  · exact hs.complete j hj ev' hev' anchor delay hwaits
  · obtain rfl : ev = ev' := Option.some.inj (hev.symm.trans hev')
    exact absurd hwaits (hnot anchor delay)

theorem Indexed.pushFixed {i : ℕ} {s : Runner χ ε κ} (hs : s.Indexed E i) {ev : ScenarioEvent κ}
    (hev : s.scenario.events[i]? = some ev) {text : String} (hat : ev.atTime = some text)
    {deadline : Duration} (hparse : E.parseDuration text = .ok deadline) :
    ({ s.recordAnchor ev.named deadline with
      fixed := s.fixed ++ [⟨deadline, ev.named, ev.verb, i⟩] } : Runner χ ε κ).Indexed E (i + 1) := by
  have hlast : (⟨deadline, ev.named, ev.verb, i⟩ : TimedEvent κ) ∈
      s.fixed ++ [⟨deadline, ev.named, ev.verb, i⟩] :=
    List.mem_append_right _ (List.mem_singleton_self _)
  have hperm : ({ s.recordAnchor ev.named deadline with
      fixed := s.fixed ++ [⟨deadline, ev.named, ev.verb, i⟩] } : Runner χ ε κ).seqs.Perm
        (i :: s.seqs) := by
    have hmiddle := perm_singleton_middle i (s.fixed.map TimedEvent.seq)
      (s.pendingAfter.map PendingAfter.seq ++ s.pendingWhen.map WhenEvent.seq ++ s.log.map Executed.seq)
    simpa only [seqs, recordAnchor, List.map_append, List.map_cons, List.map_nil, List.append_assoc]
      using hmiddle
  obtain ⟨hnodup, hbound⟩ := hs.nodup_cons hperm
  refine ⟨hs.fresh, hbound, ⟨hnodup, fun e he => ?_, hs.placed.afterPlanned, hs.placed.whenPlanned,
    hs.placed.logPlanned⟩, fun name t hrec => ?_, hs.complete_succ hev fun anchor delay hwaits => ?_⟩
  · rcases List.mem_append.mp he with he | he
    · exact hs.placed.fixedPlanned e he
    · cases List.mem_singleton.mp he
      exact ⟨ev, hev, rfl, text, hat, hparse⟩
  · have hrec' := (namedAnchors_recordAnchor ev.named deadline s name).symm.trans hrec
    split at hrec'
    · rename_i hname
      cases hrec'
      exact ⟨_, hlast, hname, rfl⟩
    · obtain ⟨e, he, hrest⟩ := hs.recorded name t hrec'
      exact ⟨e, List.mem_append_left _ he, hrest⟩
  · rw [hwaits.1] at hat
    cases hat

theorem Indexed.pushAfter {i : ℕ} {s : Runner χ ε κ} (hs : s.Indexed E i) {ev : ScenarioEvent κ}
    (hev : s.scenario.events[i]? = some ev) {anchor : String} {delay : Duration}
    (hwaits : ev.Waits E anchor delay) :
    ({ s with pendingAfter := s.pendingAfter ++ [⟨anchor, delay, ev.named, ev.verb, i⟩] } :
      Runner χ ε κ).Indexed E (i + 1) := by
  have hperm : ({ s with
      pendingAfter := s.pendingAfter ++ [⟨anchor, delay, ev.named, ev.verb, i⟩] } :
        Runner χ ε κ).seqs.Perm (i :: s.seqs) := by
    have hmiddle := perm_singleton_middle i
      (s.fixed.map TimedEvent.seq ++ s.pendingAfter.map PendingAfter.seq)
      (s.pendingWhen.map WhenEvent.seq ++ s.log.map Executed.seq)
    simpa only [seqs, List.map_append, List.map_cons, List.map_nil, List.append_assoc] using hmiddle
  obtain ⟨hnodup, hbound⟩ := hs.nodup_cons hperm
  refine ⟨hs.fresh, hbound, ⟨hnodup, hs.placed.fixedPlanned, fun p hp t => ?_, hs.placed.whenPlanned,
    hs.placed.logPlanned⟩, hs.recorded, fun j hj ev' hev' anchor' delay' hwaits' => ?_⟩
  · rcases List.mem_append.mp hp with hp | hp
    · exact hs.placed.afterPlanned p hp t
    · cases List.mem_singleton.mp hp
      exact ⟨ev, hev, rfl, hwaits⟩
  · rcases Nat.lt_succ_iff_lt_or_eq.mp hj with hj | rfl
    · obtain ⟨p, hp, hrest⟩ := hs.complete j hj ev' hev' anchor' delay' hwaits'
      exact ⟨p, List.mem_append_left _ hp, hrest⟩
    · obtain rfl : ev = ev' := Option.some.inj (hev.symm.trans hev')
      obtain ⟨_, hafter, text, hdelay, hparse⟩ := hwaits
      obtain ⟨_, hafter', text', hdelay', hparse'⟩ := hwaits'
      cases hafter.symm.trans hafter'
      cases hdelay.symm.trans hdelay'
      cases hparse.symm.trans hparse'
      exact ⟨_, List.mem_append_right _ (List.mem_singleton_self _), rfl, rfl, rfl⟩

theorem Indexed.pushWhen {i : ℕ} {s : Runner χ ε κ} (hs : s.Indexed E i) {ev : ScenarioEvent κ}
    (hev : s.scenario.events[i]? = some ev) {source : String} (hat : ev.atTime = none)
    (hafter : ev.after = none) (hwhen : ev.whenCond = some source) (expr : χ) :
    ({ s with pendingWhen := s.pendingWhen ++ [⟨expr, source, ev.named, ev.verb, i⟩] } :
      Runner χ ε κ).Indexed E (i + 1) := by
  have hperm : ({ s with pendingWhen := s.pendingWhen ++ [⟨expr, source, ev.named, ev.verb, i⟩] } :
      Runner χ ε κ).seqs.Perm (i :: s.seqs) := by
    have hmiddle := perm_singleton_middle i (s.fixed.map TimedEvent.seq ++
      s.pendingAfter.map PendingAfter.seq ++ s.pendingWhen.map WhenEvent.seq) (s.log.map Executed.seq)
    simpa only [seqs, List.map_append, List.map_cons, List.map_nil, List.append_assoc] using hmiddle
  obtain ⟨hnodup, hbound⟩ := hs.nodup_cons hperm
  refine ⟨hs.fresh, hbound, ⟨hnodup, hs.placed.fixedPlanned, hs.placed.afterPlanned, fun w hw t => ?_,
    hs.placed.logPlanned⟩, hs.recorded, hs.complete_succ hev fun anchor delay hwaits => ?_⟩
  · rcases List.mem_append.mp hw with hw | hw
    · exact hs.placed.whenPlanned w hw t
    · cases List.mem_singleton.mp hw
      exact ⟨ev, hev, rfl, hat, hafter, by rw [hwhen]; rfl⟩
  · cases hafter.symm.trans hwaits.2.1

theorem Indexed.indexEvent {i : ℕ} {s s' : Runner χ ε κ} (hs : s.Indexed E i) {ev : ScenarioEvent κ}
    (hev : s.scenario.events[i]? = some ev) (h : s.indexEvent E i ev = .ok s') :
    s'.scenario = s.scenario ∧ s'.Indexed E (i + 1) := by
  rw [Runner.indexEvent] at h
  cases hat : ev.atTime with
  | some text =>
    simp only [hat] at h
    cases hparse : E.parseDuration text with
    | error err => simp only [hparse] at h; cases h
    | ok deadline =>
      simp only [hparse, Except.ok.injEq] at h
      exact h ▸ ⟨rfl, hs.pushFixed hev hat hparse⟩
  | none =>
    cases hafter : ev.after with
    | some anchor =>
      simp only [hat, hafter] at h
      cases hdelay : ev.delay with
      | none => simp only [hdelay] at h; cases h
      | some text =>
        simp only [hdelay] at h
        cases hparse : E.parseDuration text with
        | error err => simp only [hparse] at h; cases h
        | ok delay =>
          simp only [hparse, Except.ok.injEq] at h
          exact h ▸ ⟨rfl, hs.pushAfter hev ⟨hat, hafter, text, hdelay, hparse⟩⟩
    | none =>
      cases hwhen : ev.whenCond with
      | some source =>
        simp only [hat, hafter, hwhen] at h
        cases hparse : E.parse source with
        | error err => simp only [hparse] at h; cases h
        | ok expr =>
          simp only [hparse, Except.ok.injEq] at h
          exact h ▸ ⟨rfl, hs.pushWhen hev hat hafter hwhen expr⟩
      | none =>
        simp only [hat, hafter, hwhen, Except.ok.injEq] at h
        subst h
        refine ⟨rfl, hs.fresh, fun k hk => Nat.lt_succ_of_lt (hs.bound k hk), hs.placed, hs.recorded,
          hs.complete_succ hev fun anchor delay hwaits => ?_⟩
        cases hafter.symm.trans hwaits.2.1

theorem Indexed.indexFrom {events : List (ScenarioEvent κ)} {i : ℕ} {s s' : Runner χ ε κ}
    (hs : s.Indexed E i) (hi : i ≤ s.scenario.events.length)
    (hevents : s.scenario.events.drop i = events)
    (h : indexFrom E i events s = .ok s') : s'.scenario = s.scenario ∧
      s'.Indexed E s.scenario.events.length := by
  induction events generalizing i s with
  | nil =>
    cases h
    have hlast := le_antisymm hi (List.drop_eq_nil_iff.mp hevents)
    exact ⟨rfl, hlast ▸ hs⟩
  | cons ev events ih =>
    have hlt : i < s.scenario.events.length := by
      by_contra hge
      rw [List.drop_eq_nil_of_le (Nat.le_of_not_lt hge)] at hevents
      cases hevents
    have hcons := (List.drop_eq_getElem_cons hlt).symm.trans hevents
    have hev : s.scenario.events[i]? = some ev := by
      rw [List.getElem?_eq_getElem hlt, (List.cons.inj hcons).1]
    rw [Runner.indexFrom] at h
    cases hone : s.indexEvent E i ev with
    | error err => simp only [hone] at h; cases h
    | ok s₁ =>
      simp only [hone] at h
      obtain ⟨hscenario, hs₁⟩ := hs.indexEvent hev hone
      rw [← hscenario]
      refine ih hs₁ ?_ ?_ h
      · rw [hscenario]
        exact hlt
      · rw [hscenario]
        exact (List.cons.inj hcons).2

/-- Sorting puts the fixed events in the order of their deadlines. -/
theorem sorted_fixedOrder (l : List (TimedEvent κ)) :
    (l.mergeSort fixedOrder).Pairwise fun a b => a.deadline ≤ b.deadline := by
  have hsorted : (l.mergeSort fixedOrder).Pairwise fun a b => fixedOrder a b = true := by
    refine List.pairwise_mergeSort (fun a b c hab hbc => ?_) (fun a b => ?_) l
    · simp only [fixedOrder, decide_eq_true_eq] at hab hbc ⊢
      rcases hab with hab | ⟨hab, hseq⟩
      · rcases hbc with hbc | ⟨hbc, _⟩
        · exact Or.inl (hab.trans hbc)
        · exact Or.inl (hbc ▸ hab)
      · rcases hbc with hbc | ⟨hbc, hseq'⟩
        · exact Or.inl (hab ▸ hbc)
        · exact Or.inr ⟨hab.trans hbc, hseq.trans hseq'⟩
    · simp only [fixedOrder, Bool.or_eq_true, decide_eq_true_eq]
      rcases lt_trichotomy a.deadline b.deadline with h | h | h
      · exact Or.inl (Or.inl h)
      · rcases le_total a.seq b.seq with hseq | hseq
        · exact Or.inl (Or.inr ⟨h, hseq⟩)
        · exact Or.inr (Or.inr ⟨h.symm, hseq⟩)
      · exact Or.inr (Or.inl h)
  refine hsorted.imp fun {a b} h => ?_
  simp only [fixedOrder, decide_eq_true_eq] at h
  exact h.elim le_of_lt fun h => h.1.le

/-- The runner enters the loop soundly if its events could be indexed. -/
theorem sound_indexEvents {scenario : Scenario κ} {engine : ε} {now : Duration} {s : Runner χ ε κ}
    (h : (Runner.new scenario engine now : Runner χ ε κ).indexEvents E = .ok s) : s.Sound E := by
  rw [indexEvents] at h
  cases hindex : indexFrom E 0 (Runner.new scenario engine now : Runner χ ε κ).scenario.events
      (Runner.new scenario engine now) with
  | error err => simp only [hindex] at h; cases h
  | ok s₁ =>
    simp only [hindex, Except.ok.injEq] at h
    subst h
    obtain ⟨hscenario, hs⟩ := (indexed_new scenario engine now).indexFrom (Nat.zero_le _) rfl hindex
    obtain ⟨hrunning, hlog, hreached⟩ := hs.fresh
    have hperm : (s₁.fixed.mergeSort fixedOrder).Perm s₁.fixed := List.mergeSort_perm _ _
    have hnolog : ∀ x, x ∉ s₁.log := fun x hx => by rw [hlog] at hx; cases hx
    have hzero : ∀ t : Duration, s₁.reached ≤ t := fun t => by
      change s₁.reached.1 ≤ t.1
      rw [hreached]
      exact Nat.zero_le _
    refine ⟨⟨⟨?_, fun e he => hs.placed.fixedPlanned e (hperm.mem_iff.mp he), hs.placed.afterPlanned,
      hs.placed.whenPlanned, hs.placed.logPlanned⟩, fun i ev hev anchor delay hwaits => Or.inl ?_⟩,
      ⟨sorted_fixedOrder _, fun e _ => hzero _, fun _ _ t _ => hzero t,
        fun x hx => absurd hx (hnolog x),
        ?_⟩, ⟨fun name t hrec => Or.inl ?_, fun pre x hpre => ?_⟩,
      ⟨fun _ _ y hy => absurd hy (hnolog y), fun result hover => ?_⟩⟩
    · refine (List.Perm.nodup_iff ?_).mp hs.placed.nodup
      exact (((hperm.map TimedEvent.seq).symm.append_right _).append_right _).append_right _
    · refine hs.complete i ?_ ev hev anchor delay hwaits
      rw [← hscenario]
      exact (List.getElem?_eq_some_iff.mp hev).1
    · rw [hlog]
      exact List.Pairwise.nil
    · obtain ⟨e, he, hrest⟩ := hs.recorded name t hrec
      exact ⟨e, hperm.mem_iff.mpr he, hrest⟩
    · exact absurd (hpre.subset (List.mem_append_right _ (List.mem_singleton_self x))) (hnolog x)
    · exact absurd (hrunning.symm.trans hover) nofun

/-- A runner that was stopped before it executed anything keeps to its schedule. -/
theorem onSchedule_of_stopped {s : Runner χ ε κ} (hlog : s.log = []) : s.OnSchedule E := by
  have hnolog : ∀ x, x ∉ s.log := fun x hx => by rw [hlog] at hx; cases hx
  refine ⟨by rw [hlog]; exact List.nodup_nil, fun x hx => absurd hx (hnolog x),
    by rw [hlog]; exact List.Pairwise.nil, fun pre x hpre => ?_,
    fun _ _ _ _ _ _ y hy => absurd hy (hnolog y)⟩
  exact absurd (hpre.subset (List.mem_append_right _ (List.mem_singleton_self x))) (hnolog x)

end Runner

open Runner in
/-- In every run in which no fired `when:` event has the name of an anchor that is waited for, and no
    anchor that is waited for is executed twice, the runner keeps to the schedule. -/
theorem on_schedule_of_anchorsKept {χ ε κ : Type*} (E : ScenarioEngine χ ε κ) (scenario : Scenario κ)
    (engine : ε) (now : Duration) (ops : List (Op ε))
    (h : AllSteps (step E) (AnchorsKept E) (start E scenario engine now) ops) :
    AllStates (step E) (OnSchedule E) (start E scenario engine now) ops := by
  unfold start at h ⊢
  cases hindex : (Runner.new scenario engine now : Runner χ ε κ).indexEvents E with
  | error err =>
    -- Nothing is ever executed.
    have hkept : ∀ (s : Runner χ ε κ) (op : Op ε), (s.log = [] ∧ s.status = .stopped err) →
        (step E s op).log = [] ∧ (step E s op).status = .stopped err := by
      rintro s op ⟨hlog, hstatus⟩
      cases op with
      | elsewhere engine now => exact ⟨hlog, hstatus⟩
      | iterate =>
        rw [step, hstatus]
        exact ⟨hlog, hstatus⟩
    intro pre _
    exact onSchedule_of_stopped (inv_run (I := fun s => s.log = [] ∧ s.status = .stopped err) (step E)
      hkept ⟨rfl, rfl⟩ pre).1
  | ok s =>
    simp only [hindex] at h ⊢
    have hsound : AllStates (step E) (Sound E) s ops :=
      allStates_of_allSteps (I := fun _ => True) (step E) (fun _ _ _ => trivial)
        (fun _ op _ hs hkept => hs.step op hkept) trivial (sound_indexEvents hindex) h
    exact fun pre hpre => (hsound pre hpre).onSchedule

/-- An engine that does nothing, and the part of the language that the scenarios below are written
    in. -/
def idleEngine : ScenarioEngine Bool Unit Unit where
  parseDuration
    | "1s" => .ok ⟨1000000000, by decide⟩
    | "2s" => .ok ⟨2000000000, by decide⟩
    | text => .error text
  parse
    | "true" => .ok true
    | "false" => .ok false
    | text => .error text
  eval b _ := .value (some b)
  tickDurationTo _ := id
  advanceFills _ := id
  nextFillDeadline _ := none
  accept _ _ := id
  recordSleep _ := id
  recordAssert _ _ _ := id
  recordCompleted := id

/-- A chain of `after:` events, declared before the events that they wait for. -/
def chainScenario : Scenario Unit where
  name := "chain"
  events := [⟨none, some "b", some "1s", none, none, .other ()⟩,
    ⟨none, some "a", some "1s", none, some "b", .other ()⟩,
    ⟨some "2s", none, none, none, some "a", .other ()⟩]
  asserts := []

theorem on_schedule_chain :
    AllStates (step idleEngine) (Runner.OnSchedule idleEngine)
      (Runner.start idleEngine chainScenario () ⟨0, Nat.zero_le _⟩)
      [.iterate, .iterate, .iterate, .iterate] := by
  refine on_schedule_of_anchorsKept idleEngine chainScenario () ⟨0, Nat.zero_le _⟩ _ ?_
  simp only [allSteps_cons, allSteps_nil]
  decide +kernel

/-- An `after:` event waits for a `when:` event. That one is executed and not recorded as an anchor, so
    the run ends without the other. -/
theorem after_when_never_executed :
    ¬ ∀ (χ ε κ : Type) (E : ScenarioEngine χ ε κ) (scenario : Scenario κ) (engine : ε) (now : Duration)
      (ops : List (Op ε)),
      AllStates (step E) (Runner.OnSchedule E) (Runner.start E scenario engine now) ops := by
  intro h
  let waiting : ScenarioEvent Unit := ⟨none, some "filled", some "1s", none, none, .other ()⟩
  let scenario : Scenario Unit :=
    ⟨"when", [⟨none, none, none, some "true", some "filled", .other ()⟩, waiting], []⟩
  have hrun := (h Bool Unit Unit idleEngine scenario () ⟨0, Nat.zero_le _⟩ [.iterate, .iterate]).last
  have hexecuted := hrun.executed 1 waiting (by decide +kernel) "filled" ⟨1000000000, by decide⟩
    ⟨rfl, rfl, "1s", rfl, rfl⟩ ⟨0, some "filled", .pattern, ⟨0, Nat.zero_le _⟩⟩ (by decide +kernel) rfl
    (Or.inl ⟨.ok ⟨1, 1, 0, "when"⟩, by decide +kernel⟩)
  revert hexecuted
  decide +kernel

end Midas.Dsl
