import Mathlib.Data.List.ReduceOption
import Mathlib.Logic.Function.Basic
import HandOfMidas.Core.Duration

/-! The scenario runner (`scenario/runner.rs`): it indexes the events of a scenario by their timing
    and then loops. An iteration of the loop executes the `when:` events whose condition is true, or
    else advances the clock to the next deadline and executes at most one event that is due. The
    engine and the expression language are parameters. -/

namespace Midas.Dsl

/-- `RunnerError`. -/
inductive RunnerError where
  | badTiming (text message : String)
  | expressionParse (src err : String)
  | expressionEval (src err : String)
  | unknownAnchor (name : String)
  | assertFailed (cond message : String)
  deriving DecidableEq

/-- `Verb`: the verbs that concern the runner. The others (`κ`) only have the engine do something. -/
inductive Verb (κ : Type*) where
  | sleep (duration : String)
  | assert (cond : String) (message : Option String)
  | other (command : κ)
  deriving DecidableEq

/-- `ScenarioEvent`: its timing (`at:`, `after:` with `delay:`, `when:`), its name and its verb. -/
structure ScenarioEvent (κ : Type*) where
  atTime : Option String
  after : Option String
  delay : Option String
  whenCond : Option String
  named : Option String
  verb : Verb κ
  deriving DecidableEq

/-- `ScenarioAssert`. -/
structure ScenarioAssert where
  cond : String
  message : Option String

structure Scenario (κ : Type*) where
  name : String
  events : List (ScenarioEvent κ)
  asserts : List ScenarioAssert

/-- What an expression is evaluated to: a value, which may be no Boolean, a path that does not resolve
    yet, or an error of the expression. -/
inductive Evaluated where
  | value (asBool : Option Bool)
  | pathResolve (err : String)
  | failed (err : String)

/-- `ScenarioEngine` with states `ε` and commands `κ`, and the expression language with expressions
    `χ`. -/
structure ScenarioEngine (χ ε κ : Type*) where
  parseDuration : String → Except String Duration
  parse : String → Except String χ
  eval : χ → ε → Evaluated
  tickDurationTo : Duration → ε → ε
  advanceFills : Duration → ε → ε
  nextFillDeadline : ε → Option Duration
  accept : κ → Option String → ε → ε
  recordSleep : String → ε → ε
  recordAssert : String → Bool → Option String → ε → ε
  recordCompleted : ε → ε

/-- A fixed event. `seq` is the event's place in the scenario, here and below. -/
structure TimedEvent (κ : Type*) where
  deadline : Duration
  name : Option String
  verb : Verb κ
  seq : ℕ

structure WhenEvent (χ κ : Type*) where
  expr : χ
  source : String
  name : Option String
  verb : Verb κ
  seq : ℕ

structure PendingAfter (κ : Type*) where
  anchor : String
  delay : Duration
  name : Option String
  verb : Verb κ
  seq : ℕ

/-- Why an event was executed. -/
inductive Cause where
  | fixed
  | pattern
  | after (anchor : String) (delay : Duration)
  deriving DecidableEq

/-- An event that was executed: when its deadline was, or what the clock showed as it fired. -/
structure Executed where
  seq : ℕ
  name : Option String
  cause : Cause
  time : Duration
  deriving DecidableEq

/-- `ScenarioResult`. -/
structure ScenarioResult where
  stepsExecuted : ℕ
  whenClausesFired : ℕ
  assertCount : ℕ
  scenarioName : String
  deriving DecidableEq

/-- The loop goes on, was left with an error, or is over; then the final asserts give the result. -/
inductive Status where
  | running
  | stopped (err : RunnerError)
  | finished (result : Except RunnerError ScenarioResult)
  deriving DecidableEq

/-- `ScenarioRunner` with its clock. `reached` is the latest deadline that the loop has advanced to,
    `log` the events executed so far. -/
structure Runner (χ ε κ : Type*) where
  scenario : Scenario κ
  now : Duration
  engine : ε
  namedAnchors : String → Option Duration
  fixed : List (TimedEvent κ)
  pendingAfter : List (PendingAfter κ)
  pendingWhen : List (WhenEvent χ κ)
  steps : ℕ
  whenFires : ℕ
  assertCount : ℕ
  status : Status
  reached : Duration
  log : List Executed

namespace Runner

variable {χ ε κ : Type*} (E : ScenarioEngine χ ε κ)

def new (scenario : Scenario κ) (engine : ε) (now : Duration) : Runner χ ε κ where
  scenario := scenario
  now := now
  engine := engine
  namedAnchors := fun _ => none
  fixed := []
  pendingAfter := []
  pendingWhen := []
  steps := 0
  whenFires := 0
  assertCount := 0
  status := .running
  reached := ⟨0, Nat.zero_le _⟩
  log := []

def stop (err : RunnerError) (s : Runner χ ε κ) : Runner χ ε κ := { s with status := .stopped err }

/-- Record the time of an event under its name, if it has one. -/
def recordAnchor (name : Option String) (time : Duration) (s : Runner χ ε κ) : Runner χ ε κ :=
  { s with
    namedAnchors :=
      match name with
      | some name => Function.update s.namedAnchors name (some time)
      | none => s.namedAnchors }

/-! ### Indexing -/

/-- Put one event into the queue that its timing names. -/
def indexEvent (i : ℕ) (ev : ScenarioEvent κ) (s : Runner χ ε κ) : Except RunnerError (Runner χ ε κ) :=
  match ev.atTime, ev.after, ev.whenCond with
  | some text, _, _ =>
    match E.parseDuration text with
    | .error err => .error (.badTiming text err)
    | .ok deadline =>
      let s := s.recordAnchor ev.named deadline
      .ok { s with fixed := s.fixed ++ [⟨deadline, ev.named, ev.verb, i⟩] }
  | none, some anchor, _ =>
    match ev.delay with
    | none => .error (.badTiming anchor "missing delay")
    | some text =>
      match E.parseDuration text with
      | .error err => .error (.badTiming text err)
      | .ok delay =>
        .ok { s with pendingAfter := s.pendingAfter ++ [⟨anchor, delay, ev.named, ev.verb, i⟩] }
  | none, none, some source =>
    match E.parse source with
    | .error err => .error (.expressionParse source err)
    | .ok expr =>
      .ok { s with pendingWhen := s.pendingWhen ++ [⟨expr, source, ev.named, ev.verb, i⟩] }
  | none, none, none => .ok s

def indexFrom (i : ℕ) : List (ScenarioEvent κ) → Runner χ ε κ → Except RunnerError (Runner χ ε κ)
  | [], s => .ok s
  | ev :: events, s =>
    match s.indexEvent E i ev with
    | .error err => .error err
    | .ok s => indexFrom (i + 1) events s

/-- Fixed events go by their deadlines, those of one deadline in the order of their declaration. -/
def fixedOrder (a b : TimedEvent κ) : Bool :=
  decide (a.deadline < b.deadline ∨ a.deadline = b.deadline ∧ a.seq ≤ b.seq)

/-- `index_events`. -/
def indexEvents (s : Runner χ ε κ) : Except RunnerError (Runner χ ε κ) :=
  match indexFrom E 0 s.scenario.events s with
  | .error err => .error err
  | .ok s => .ok { s with fixed := s.fixed.mergeSort fixedOrder }

/-- The runner as it enters the loop. -/
def start (scenario : Scenario κ) (engine : ε) (now : Duration) : Runner χ ε κ :=
  match (new scenario engine now).indexEvents E with
  | .error err => (new scenario engine now).stop err
  | .ok s => s

/-! ### Executing -/

/-- `run_assert`, and the body of `run_final_asserts`. -/
def runAssert (cond : String) (message : Option String) (s : Runner χ ε κ) : Runner χ ε κ :=
  match E.parse cond with
  | .error err => s.stop (.expressionParse cond err)
  | .ok expr =>
    match E.eval expr s.engine with
    | .pathResolve err | .failed err => s.stop (.expressionEval cond err)
    | .value asBool =>
      let passed := asBool.getD false
      let s := { s with
        assertCount := s.assertCount + 1
        engine := E.recordAssert cond passed message s.engine }
      if passed then s else s.stop (.assertFailed cond (message.getD ""))

/-- The clock and the engine go on to an instant. -/
def advanceTo (target : Duration) (s : Runner χ ε κ) : Runner χ ε κ :=
  { s with
    now := max s.now target
    engine := E.advanceFills target (E.tickDurationTo target s.engine) }

/-- `execute_verb`. -/
def executeVerb (verb : Verb κ) (name : Option String) (s : Runner χ ε κ) : Runner χ ε κ :=
  match verb with
  | .sleep duration =>
    match E.parseDuration duration with
    | .error err => s.stop (.badTiming duration err)
    | .ok d =>
      let s := s.advanceTo E (saturatingAdd s.now d)
      { s with engine := E.recordSleep duration s.engine }
  | .assert cond message => s.runAssert E cond message
  | .other command => { s with engine := E.accept command name s.engine }

/-- Execute an event. An error leaves the loop before the step is counted. -/
def execute (seq : ℕ) (name : Option String) (cause : Cause) (time : Duration) (verb : Verb κ)
    (s : Runner χ ε κ) : Runner χ ε κ :=
  let s := ({ s with log := s.log ++ [⟨seq, name, cause, time⟩] } : Runner χ ε κ).executeVerb E verb name
  match s.status with
  | .running => { s with steps := s.steps + 1 }
  | _ => s

/-! ### The loop -/

/-- `fire_ready_when_clauses`: the clauses that are true now, and those that stay. A path that does not
    resolve is not true yet. -/
def fireReadyWhenClauses (engine : ε) :
    List (WhenEvent χ κ) → Except RunnerError (List (WhenEvent χ κ) × List (WhenEvent χ κ))
  | [] => .ok ([], [])
  | w :: ws =>
    match E.eval w.expr engine with
    | .failed err => .error (.expressionEval w.source err)
    | .pathResolve _ => (fireReadyWhenClauses engine ws).map fun r => (r.1, w :: r.2)
    | .value asBool => (fireReadyWhenClauses engine ws).map fun r =>
        if asBool.getD false then (w :: r.1, r.2) else (r.1, w :: r.2)

/-- Execute the clauses that fired, one after the other. -/
def executeFired : List (WhenEvent χ κ) → Runner χ ε κ → Runner χ ε κ
  | [], s => s
  | w :: ws, s =>
    let s := s.execute E w.seq w.name .pattern s.now w.verb
    match s.status with
    | .running => executeFired ws { s with whenFires := s.whenFires + 1 }
    | _ => s

/-- The deadline of an `after:` event, once its anchor is recorded. -/
def fireAt (s : Runner χ ε κ) (p : PendingAfter κ) : Option Duration :=
  (s.namedAnchors p.anchor).map fun anchor => saturatingAdd anchor p.delay

def earliestAfter (s : Runner χ ε κ) : Option Duration := (s.pendingAfter.filterMap s.fireAt).min?

/-- The earliest pending deadline. The deadlines of fills count while `when:` clauses are pending. -/
def nextDeadline (s : Runner χ ε κ) : Option Duration :=
  let nextFixed := s.fixed.head?.map TimedEvent.deadline
  let nextFill := if s.pendingWhen.isEmpty then none else E.nextFillDeadline s.engine
  [nextFixed, s.earliestAfter, nextFill].reduceOption.min?

/-- Is a fixed or an `after:` event due at this deadline? -/
def anyDue (deadline : Duration) (s : Runner χ ε κ) : Bool :=
  (s.fixed.head?.map TimedEvent.deadline).any (fun d => decide (d ≤ deadline)) ||
    s.earliestAfter.any fun d => decide (d ≤ deadline)

/-- The fixed event that is due. -/
def dueFixed (deadline : Duration) (s : Runner χ ε κ) : Option (TimedEvent κ) :=
  s.fixed.head?.filter fun first => decide (first.deadline ≤ deadline)

/-- Is this `after:` event due? -/
def isDue (s : Runner χ ε κ) (deadline : Duration) (p : PendingAfter κ) : Bool :=
  ((s.fireAt p).map fun time => decide (time ≤ deadline)).getD false

/-- `dispatch_due`: execute a fixed event that is due, or else the first `after:` event that is. -/
def dispatchDue (deadline : Duration) (s : Runner χ ε κ) : Runner χ ε κ :=
  match s.dueFixed deadline with
  | some ev =>
    (({ s with fixed := s.fixed.tail } : Runner χ ε κ).recordAnchor ev.name ev.deadline).execute E ev.seq
      ev.name .fixed ev.deadline ev.verb
  | none =>
    match s.pendingAfter.find? (s.isDue deadline) with
    | none => s
    | some p =>
      let s := { s with pendingAfter := s.pendingAfter.eraseP (s.isDue deadline) }
      match s.fireAt p with
      | none => s.stop (.unknownAnchor p.anchor)
      | some time =>
        (s.recordAnchor p.name time).execute E p.seq p.name (.after p.anchor p.delay) time p.verb

/-- `run_final_asserts`. -/
def runFinalAsserts (s : Runner χ ε κ) : Runner χ ε κ :=
  s.scenario.asserts.foldl
    (fun s a =>
      match s.status with
      | .running => s.runAssert E a.cond a.message
      | _ => s) s

/-- After the loop: flush the fills that are pending and check the final asserts. -/
def finish (s : Runner χ ε κ) : Runner χ ε κ :=
  let s :=
    match E.nextFillDeadline s.engine with
    | some deadline => s.advanceTo E deadline
    | none => s
  let s := s.runFinalAsserts E
  match s.status with
  | .stopped err => { s with status := .finished (.error err) }
  | _ => { s with
    engine := E.recordCompleted s.engine
    status := .finished (.ok ⟨s.steps, s.whenFires, s.assertCount, s.scenario.name⟩) }

/-- One iteration of the loop of `run`. -/
def iterate (s : Runner χ ε κ) : Runner χ ε κ :=
  match fireReadyWhenClauses E s.engine s.pendingWhen with
  | .error err => ({ s with pendingWhen := [] } : Runner χ ε κ).stop err
  | .ok (fired, remaining) =>
    let s := { s with pendingWhen := remaining }
    if fired.isEmpty then
      match s.nextDeadline E with
      | none => s.finish E
      | some deadline =>
        let s := { s.advanceTo E deadline with reached := max s.reached deadline }
        if s.anyDue deadline then s.dispatchDue E deadline else s
    else s.executeFired E fired

end Runner

/-- What can happen: the loop goes through an iteration, or the engine and the clock go on elsewhere. -/
inductive Op (ε : Type*) where
  | iterate
  | elsewhere (engine : ε) (now : Duration)

def step {χ ε κ : Type*} (E : ScenarioEngine χ ε κ) (s : Runner χ ε κ) : Op ε → Runner χ ε κ
  | .iterate =>
    match s.status with
    | .running => s.iterate E
    | _ => s
  | .elsewhere engine now => { s with engine := engine, now := now }

end Midas.Dsl
