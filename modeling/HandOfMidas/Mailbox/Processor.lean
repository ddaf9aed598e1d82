import HandOfMidas.Lib.Linearization
import HandOfMidas.Lib.Run
import Mathlib.Data.List.Nodup

/-! The mailbox processor: a loop that owns a state and takes messages from one bounded channel. `send`
    puts a message with a reply channel of its own and waits for the reply, `fire_and_forget` puts one
    with none. A run interleaves the callers, the loop and the handler in any order; futures may be
    dropped and the loop may die at any time. The calls of every run are explained by the order in which
    the channel took the messages. -/

namespace Midas.Mailbox

/-- `MailboxProcessorError`. -/
structure MailboxProcessorError where
  msg : String
  deriving DecidableEq

def mailboxClosed : MailboxProcessorError := ⟨"the mailbox channel is closed"⟩

def responseClosed : MailboxProcessorError :=
  ⟨"the response channel is closed (did you mean to call fire_and_forget()?)"⟩

/-- `(Msg, Option<Sender<ReplyMsg>>)`. The reply channel belongs to the call that made it, so only
    whether there is one is kept. -/
structure Envelope (μ : Type*) where
  msg : μ
  replyChannel : Bool

/-- What `send` (a reply) and `fire_and_forget` (nothing) return. -/
abbrev Outcome (ρ : Type*) := Except MailboxProcessorError (Option ρ)

/-- What a handler does with a message: what it sends on the reply channel, if it is given one, and the
    next state, or none if it panics. -/
structure Reaction (σ ρ : Type*) where
  reply : Option ρ
  next : Option σ

/-- `message_processing_function`, or the `handler` of the blocking loop. It lets go of the reply channel
    before it returns. -/
abbrev Handler (μ σ ρ : Type*) := μ → σ → Bool → Reaction σ ρ

/-- Where the future of a call stands. -/
inductive Call (μ ρ : Type*) where
  /-- in `message_sender.send(..).await` -/
  | sending (e : Envelope μ)
  /-- in `r.recv().await`, with what its reply channel holds -/
  | receiving (e : Envelope μ) (reply : Option ρ)
  /-- returned, or dropped by its caller -/
  | done

/-- The handler's `reply_channel.send(..)`, if it sends; nobody sees it when the call is gone. -/
def Call.deliver {μ ρ : Type*} (reply : Option ρ) : Call μ ρ → Call μ ρ
  | .receiving e slot => .receiving e (reply.or slot)
  | c => c

/-- How far a call has come. -/
def Call.stage {μ ρ : Type*} : Call μ ρ → Option (Envelope μ × Bool)
  | .sending e => some (e, false)
  | .receiving e _ => some (e, true)
  | .done => none

@[simp] theorem Call.stage_deliver {μ ρ : Type*} (reply : Option ρ) (c : Call μ ρ) :
    (c.deliver reply).stage = c.stage := by
  cases c <;> rfl

/-- The channel, the loop that reads it and the calls, numbered as they are made. `history` is what the
    callers saw, `accepted` what the channel took and `handled` what the loop is through with. -/
structure MailboxProcessor (μ σ ρ : Type*) where
  bufferSize : ℕ
  state : σ
  alive : Bool
  current : Option (ℕ × Envelope μ)
  replyHeld : Bool
  queue : List (ℕ × Envelope μ)
  calls : List (Call μ ρ)
  history : List (CallEvent (Envelope μ) (Outcome ρ))
  accepted : List (ℕ × Envelope μ)
  handled : List (ℕ × Envelope μ)

/-- One step of the callers, the loop or the handler. -/
inductive Act (μ : Type*) where
  /-- `send` or `fire_and_forget` is called -/
  | call (e : Envelope μ)
  /-- the future of a call is polled -/
  | poll (i : ℕ)
  /-- the future of a call is dropped -/
  | drop (i : ℕ)
  /-- `r.recv()` gives the loop the oldest message -/
  | recv
  /-- the handler sends its reply, or drops the reply channel -/
  | answer
  /-- the handler returns the next state, or panics -/
  | finish
  /-- the loop ends at any time: the runtime dropped it -/
  | stop

/-- The loop's own steps. -/
def Act.ofLoop {μ : Type*} : Act μ → Bool
  | .recv | .answer | .finish => true
  | _ => false

/-- The handler as an object that does one message at a time. Only a loop that has stopped may leave a
    message without the reply that the handler gives it. -/
def sequential {μ σ ρ : Type*} (handler : Handler μ σ ρ) (alive : Bool) :
    Sequential σ (Envelope μ) (Outcome ρ) where
  next e s := (handler e.msg s e.replyChannel).next.getD s
  answers e s
    | .ok (some reply) => e.replyChannel = true ∧ (handler e.msg s true).reply = some reply
    | .ok none => e.replyChannel = false
    | .error err => e.replyChannel = true ∧ err = responseClosed ∧
        (alive = true → (handler e.msg s true).reply = none)
  refused result := result = .error mailboxClosed

namespace MailboxProcessor

variable {μ σ ρ : Type*}

/-- `new` and `new_blocking`. -/
def new (bufferSize : Option ℕ) (initialState : σ) : MailboxProcessor μ σ ρ where
  bufferSize := bufferSize.getD 1000
  state := initialState
  alive := true
  current := none
  replyHeld := false
  queue := []
  calls := []
  history := []
  accepted := []
  handled := []

/-- Somebody still has the sending half of the reply channel of call `i`. -/
def Holds (m : MailboxProcessor μ σ ρ) (i : ℕ) : Prop :=
  i ∈ m.queue.map Prod.fst ∨ m.replyHeld = true ∧ m.current.map Prod.fst = some i

instance (m : MailboxProcessor μ σ ρ) (i : ℕ) : Decidable (m.Holds i) :=
  inferInstanceAs (Decidable (_ ∨ _))

/-- Call `i` returns. -/
def resolve (m : MailboxProcessor μ σ ρ) (i : ℕ) (result : Outcome ρ) : MailboxProcessor μ σ ρ :=
  { m with calls := m.calls.set i .done, history := m.history ++ [.returned i result] }

/-- The channel takes the message of call `i`. -/
def enqueue (m : MailboxProcessor μ σ ρ) (i : ℕ) (e : Envelope μ) (c : Call μ ρ) :
    MailboxProcessor μ σ ρ :=
  { m with queue := m.queue ++ [(i, e)], accepted := m.accepted ++ [(i, e)], calls := m.calls.set i c }

/-- The bodies of `send` and `fire_and_forget`, from one `await` to the next. -/
def poll (m : MailboxProcessor μ σ ρ) (i : ℕ) : MailboxProcessor μ σ ρ :=
  match m.calls[i]? with
  | some (.sending e) =>
    if !m.alive then m.resolve i (.error mailboxClosed)
    else if m.queue.length < m.bufferSize then
      if e.replyChannel then m.enqueue i e (.receiving e none)
      else (m.enqueue i e .done).resolve i (.ok none)
    else m
  | some (.receiving _ (some reply)) => m.resolve i (.ok (some reply))
  | some (.receiving _ none) => if m.Holds i then m else m.resolve i (.error responseClosed)
  | _ => m

/-- The head of the loop. -/
def recv (m : MailboxProcessor μ σ ρ) : MailboxProcessor μ σ ρ :=
  match m.current, m.queue with
  | none, q :: queue => { m with current := some q, replyHeld := q.2.replyChannel, queue := queue }
  | _, _ => m

/-- The handler's use of its `reply_channel`. -/
def answer (handler : Handler μ σ ρ) (m : MailboxProcessor μ σ ρ) : MailboxProcessor μ σ ρ :=
  match m.current with
  | some (i, e) =>
    if m.replyHeld then
      { m with
        replyHeld := false
        calls := m.calls.modify i (Call.deliver (handler e.msg m.state true).reply) }
    else m
  | none => m

/-- The receiver is dropped, and every message in it. -/
def stop (m : MailboxProcessor μ σ ρ) : MailboxProcessor μ σ ρ :=
  { m with alive := false, current := none, replyHeld := false, queue := [] }

/-- `state = message_processing_function(msg, state, reply_channel).await`. A panic ends the loop. -/
def finish (handler : Handler μ σ ρ) (m : MailboxProcessor μ σ ρ) : MailboxProcessor μ σ ρ :=
  match m.current with
  | some (i, e) =>
    if m.replyHeld then m
    else
      match (handler e.msg m.state e.replyChannel).next with
      | some state => { m with state := state, current := none, handled := m.handled ++ [(i, e)] }
      | none => m.stop
  | none => m

def step (handler : Handler μ σ ρ) (m : MailboxProcessor μ σ ρ) : Act μ → MailboxProcessor μ σ ρ
  | .call e =>
    { m with calls := m.calls ++ [.sending e], history := m.history ++ [.called m.calls.length e] }
  | .poll i => m.poll i
  | .drop i => { m with calls := m.calls.set i .done }
  | .recv => m.recv
  | .answer => m.answer handler
  | .finish => m.finish handler
  | .stop => m.stop

/-- The processor after a run. -/
def runFrom (handler : Handler μ σ ρ) (bufferSize : Option ℕ) (initialState : σ) (acts : List (Act μ)) :
    MailboxProcessor μ σ ρ :=
  run (step handler) (new bufferSize initialState) acts

/-- What holds between steps. -/
structure Inv (handler : Handler μ σ ρ) (initial : σ) (m : MailboxProcessor μ σ ρ) : Prop where
  linearizes : (sequential handler m.alive).Linearizes initial m.history m.accepted
  made : ∀ i e, .called i e ∈ m.history → i < m.calls.length
  once : ∀ i e e', .called i e ∈ m.history → .called i e' ∈ m.history → e = e'
  returned : ∀ i result, .returned i result ∈ m.history → m.calls[i]? = some .done
  sending : ∀ i e, m.calls[i]? = some (.sending e) →
    .called i e ∈ m.history ∧ i ∉ m.accepted.map Prod.fst
  receiving : ∀ i e slot, m.calls[i]? = some (.receiving e slot) →
    (i, e) ∈ m.accepted ∧ e.replyChannel = true
  replied : ∀ i e reply, m.calls[i]? = some (.receiving e (some reply)) →
    ∃ before, before ++ [(i, e)] <+: m.accepted ∧
      (handler e.msg ((sequential handler m.alive).after initial before) true).reply = some reply
  unanswered : m.alive = true → ∀ i e, m.calls[i]? = some (.receiving e none) → ¬m.Holds i →
    ∃ before, before ++ [(i, e)] <+: m.accepted ∧
      (handler e.msg ((sequential handler m.alive).after initial before) true).reply = none
  refused : ∀ i, .returned i (.error mailboxClosed) ∈ m.history → m.alive = false
  running : m.alive = true →
    m.accepted = m.handled ++ (m.current.toList ++ m.queue) ∧
      m.state = (sequential handler m.alive).after initial m.handled
  stopped : m.alive = false → m.current = none ∧ m.queue = []
  room : m.queue.length ≤ m.bufferSize

/-! ### What a step does to the calls -/

theorem calls_set {l : List (Call μ ρ)} {i j : ℕ} {c c' : Call μ ρ} (h : (l.set i c)[j]? = some c') :
    (j = i ∧ c' = c) ∨ j ≠ i ∧ l[j]? = some c' := by
  by_cases hj : i = j
  · subst hj
    rw [List.getElem?_set_self'] at h
    cases hl : l[i]? with
    | none => simp [hl] at h
    | some a => exact Or.inl ⟨rfl, by simpa [hl] using h.symm⟩
  · rw [List.getElem?_set_ne hj] at h
    exact Or.inr ⟨Ne.symm hj, h⟩

theorem of_calls_set {l : List (Call μ ρ)} {i j : ℕ} {c c' : Call μ ρ} (h : (l.set i c)[j]? = some c')
    (hne : c' ≠ c) : l[j]? = some c' :=
  ((calls_set h).resolve_left fun heq => hne heq.2).2

theorem calls_concat {l : List (Call μ ρ)} {j : ℕ} {c c' : Call μ ρ} (h : (l ++ [c])[j]? = some c') :
    l[j]? = some c' ∨ j = l.length ∧ c' = c := by
  rcases Nat.lt_trichotomy j l.length with hj | rfl | hj
  · rw [List.getElem?_append_left hj] at h
    exact Or.inl h
  · exact Or.inr ⟨rfl, by simpa using h.symm⟩
  · rw [List.getElem?_eq_none (by rw [List.length_append, List.length_singleton]; exact hj)] at h
    cases h

theorem of_calls_concat {l : List (Call μ ρ)} {j : ℕ} {c c' : Call μ ρ} (h : (l ++ [c])[j]? = some c')
    (hne : c' ≠ c) : l[j]? = some c' :=
  (calls_concat h).resolve_right fun heq => hne heq.2

/-- A reply goes to the call that is waiting for it. -/
theorem calls_deliver {l : List (Call μ ρ)} {i j : ℕ} {reply slot : Option ρ} {e : Envelope μ}
    (h : (l.modify i (Call.deliver reply))[j]? = some (.receiving e slot)) :
    (j ≠ i ∧ l[j]? = some (.receiving e slot)) ∨
      ∃ slot', j = i ∧ l[j]? = some (.receiving e slot') ∧ slot = reply.or slot' := by
  rw [List.getElem?_modify] at h
  cases hl : l[j]? with
  | none => simp [hl] at h
  | some c =>
    rw [hl] at h
    by_cases hj : i = j
    · cases c with
      | receiving e' slot' =>
        simp only [hj, if_true, Option.map_eq_map, Option.map_some, Call.deliver, Option.some.injEq,
          Call.receiving.injEq] at h
        obtain ⟨rfl, rfl⟩ := h
        exact Or.inr ⟨slot', hj.symm, rfl, rfl⟩
      | sending e' => simp [hj, Call.deliver] at h
      | done => simp [hj, Call.deliver] at h
    · simp only [hj, if_false, Option.map_eq_map, Option.map_some, Option.some.injEq] at h
      exact Or.inl ⟨Ne.symm hj, congrArg some h⟩

theorem calls_deliver_of_not_receiving {l : List (Call μ ρ)} {i j : ℕ} {reply : Option ρ} {c : Call μ ρ}
    (hc : ∀ e slot, c ≠ .receiving e slot) :
    (l.modify i (Call.deliver reply))[j]? = some c ↔ l[j]? = some c := by
  rw [List.getElem?_modify]
  cases hl : l[j]? with
  | none => simp
  | some a =>
    by_cases hj : i = j
    · cases a with
      | receiving e slot =>
        have h := hc e slot
        have h' := hc e (reply.or slot)
        simp only [hj, if_true, Option.map_eq_map, Option.map_some, Call.deliver, Option.some.injEq]
        exact ⟨fun heq => absurd heq.symm h', fun heq => absurd heq.symm h⟩
      | sending e => simp [hj, Call.deliver]
      | done => simp [hj, Call.deliver]
    · simp [hj]

namespace Inv

variable {handler : Handler μ σ ρ} {initial : σ} {m : MailboxProcessor μ σ ρ} {i : ℕ} {e : Envelope μ}

theorem new (bufferSize : Option ℕ) : Inv handler initial (new bufferSize initial) where
  linearizes := Sequential.linearizes_nil _ initial
  made _ _ h := absurd h List.not_mem_nil
  once _ _ _ h := absurd h List.not_mem_nil
  returned _ _ h := absurd h List.not_mem_nil
  sending _ _ h := by simp [MailboxProcessor.new] at h
  receiving _ _ _ h := by simp [MailboxProcessor.new] at h
  replied _ _ _ h := by simp [MailboxProcessor.new] at h
  unanswered _ _ _ h := by simp [MailboxProcessor.new] at h
  refused _ h := absurd h List.not_mem_nil
  running _ := ⟨rfl, rfl⟩
  stopped h := by simp [MailboxProcessor.new] at h
  room := Nat.zero_le _

theorem unique (H : Inv handler initial m) {e' : Envelope μ} (h : (i, e) ∈ m.accepted)
    (h' : (i, e') ∈ m.accepted) : e = e' := by
  have := List.inj_on_of_nodup_map H.linearizes.once h h' rfl
  exact congrArg Prod.snd this

theorem lt_of_accepted (H : Inv handler initial m) (hi : i ∈ m.accepted.map Prod.fst) :
    i < m.calls.length := by
  obtain ⟨o, ho, rfl⟩ := List.mem_map.mp hi
  exact H.made _ _ (H.linearizes.called o ho)

/-- A new call. -/
theorem call (H : Inv handler initial m) (e : Envelope μ) :
    Inv handler initial (step handler m (.call e)) :=
  { H with
    linearizes := H.linearizes.call e fun hi => Nat.lt_irrefl _ (H.lt_of_accepted hi)
    made j e' hmem := by
      simp only [step, List.length_append, List.length_singleton]
      rcases List.mem_append.mp hmem with hmem | hmem
      · have := H.made j e' hmem
        omega
      · cases List.mem_singleton.mp hmem
        omega
    once j e₁ e₂ h₁ h₂ := by
      rcases List.mem_append.mp h₁ with h₁ | h₁ <;> rcases List.mem_append.mp h₂ with h₂ | h₂
      · exact H.once j e₁ e₂ h₁ h₂
      · cases List.mem_singleton.mp h₂
        exact absurd (H.made _ _ h₁) (Nat.lt_irrefl _)
      · cases List.mem_singleton.mp h₁
        exact absurd (H.made _ _ h₂) (Nat.lt_irrefl _)
      · cases List.mem_singleton.mp h₁
        cases List.mem_singleton.mp h₂
        rfl
    returned j result hmem := by
      have hdone := H.returned j result (returned_of_concat hmem)
      exact (List.getElem?_append_left (List.getElem?_eq_some_iff.mp hdone).1).trans hdone
    sending j e' hcall := by
      rcases calls_concat hcall with hcall | ⟨rfl, heq⟩
      · obtain ⟨hcalled, hj⟩ := H.sending j e' hcall
        exact ⟨List.mem_append_left _ hcalled, hj⟩
      · cases heq
        exact ⟨List.mem_append_right _ (List.mem_singleton_self _),
          fun hi => Nat.lt_irrefl _ (H.lt_of_accepted hi)⟩
    receiving j e' slot hcall := H.receiving j e' slot (of_calls_concat hcall (by simp))
    replied j e' reply hcall := H.replied j e' reply (of_calls_concat hcall (by simp))
    unanswered halive j e' hcall := H.unanswered halive j e' (of_calls_concat hcall (by simp))
    refused j hmem := H.refused j (returned_of_concat hmem) }

/-- A call is over. -/
theorem drop (H : Inv handler initial m) (i : ℕ) :
    Inv handler initial { m with calls := m.calls.set i .done } :=
  { H with
    made j e hmem := by
      rw [List.length_set]
      exact H.made j e hmem
    returned j result hmem := by
      have hdone := H.returned j result hmem
      rw [List.getElem?_set]
      split
      · rw [if_pos]
        subst i
        exact (List.getElem?_eq_some_iff.mp hdone).1
      · exact hdone
    sending j e hcall := H.sending j e (of_calls_set hcall (by simp))
    receiving j e slot hcall := H.receiving j e slot (of_calls_set hcall (by simp))
    replied j e reply hcall := H.replied j e reply (of_calls_set hcall (by simp))
    unanswered halive j e hcall := H.unanswered halive j e (of_calls_set hcall (by simp)) }

/-- A call that is over returns a result. -/
theorem ret (H : Inv handler initial m) {result : Outcome ρ} (hdone : m.calls[i]? = some .done)
    (hresult : (result = .error mailboxClosed ∧ m.alive = false ∧ i ∉ m.accepted.map Prod.fst) ∨
      ∃ before op, before ++ [(i, op)] <+: m.accepted ∧ (sequential handler m.alive).answers op
        ((sequential handler m.alive).after initial before) result) :
    Inv handler initial { m with history := m.history ++ [.returned i result] } :=
  { H with
    linearizes := H.linearizes.ret (hresult.imp_left fun h => ⟨h.1, h.2.2⟩)
    made j e hmem := H.made j e (called_of_concat hmem)
    once j e₁ e₂ h₁ h₂ := H.once j e₁ e₂ (called_of_concat h₁) (called_of_concat h₂)
    returned j result' hmem := by
      rcases List.mem_append.mp hmem with hmem | hmem
      · exact H.returned j result' hmem
      · cases List.mem_singleton.mp hmem
        exact hdone
    sending j e hcall := by
      obtain ⟨hcalled, hj⟩ := H.sending j e hcall
      exact ⟨List.mem_append_left _ hcalled, hj⟩
    refused j hmem := by
      rcases List.mem_append.mp hmem with hmem | hmem
      · exact H.refused j hmem
      · cases List.mem_singleton.mp hmem
        rcases hresult with ⟨-, hdead, -⟩ | ⟨before, op, -, -, hclosed, -⟩
        · exact hdead
        · exact absurd hclosed (by decide) }

theorem resolve (H : Inv handler initial m) {result : Outcome ρ} (hi : i < m.calls.length)
    (hresult : (result = .error mailboxClosed ∧ m.alive = false ∧ i ∉ m.accepted.map Prod.fst) ∨
      ∃ before op, before ++ [(i, op)] <+: m.accepted ∧ (sequential handler m.alive).answers op
        ((sequential handler m.alive).after initial before) result) :
    Inv handler initial (m.resolve i result) :=
  (H.drop i).ret (List.getElem?_set_self hi) hresult

/-- The message of a call that has not returned goes into the channel. -/
theorem put (H : Inv handler initial m) (halive : m.alive = true)
    (hroom : m.queue.length < m.bufferSize) (hdone : m.calls[i]? = some .done)
    (hcalled : .called i e ∈ m.history) (hreturned : ∀ result, .returned i result ∉ m.history)
    (hi : i ∉ m.accepted.map Prod.fst) :
    Inv handler initial
      { m with queue := m.queue ++ [(i, e)], accepted := m.accepted ++ [(i, e)] } :=
  { H with
    linearizes := H.linearizes.take hcalled hreturned hi
    sending j e' hcall := by
      obtain ⟨hcalled', hj⟩ := H.sending j e' hcall
      refine ⟨hcalled', fun hmem => ?_⟩
      rw [List.map_append, List.mem_append] at hmem
      rcases hmem with hmem | hmem
      · exact hj hmem
      · obtain rfl : j = i := by simpa using hmem
        rw [hdone] at hcall
        cases hcall
    receiving j e' slot hcall := by
      obtain ⟨hmem, hreply⟩ := H.receiving j e' slot hcall
      exact ⟨List.mem_append_left _ hmem, hreply⟩
    replied j e' reply hcall := by
      obtain ⟨before, hbefore, hreply⟩ := H.replied j e' reply hcall
      exact ⟨before, hbefore.trans (List.prefix_append _ _), hreply⟩
    unanswered _ j e' hcall hheld := by
      obtain ⟨before, hbefore, hreply⟩ := H.unanswered halive j e' hcall fun hj => hheld <| by
        rcases hj with hj | hj
        · exact Or.inl (by rw [List.map_append]; exact List.mem_append_left _ hj)
        · exact Or.inr hj
      exact ⟨before, hbefore.trans (List.prefix_append _ _), hreply⟩
    running _ := by
      obtain ⟨haccepted, hstate⟩ := H.running halive
      exact ⟨by simp only [haccepted, List.append_assoc], hstate⟩
    stopped h := by simp [halive] at h
    room := by
      simp only [List.length_append, List.length_singleton]
      exact hroom }

/-- `send` goes on to wait for its reply. -/
theorem await (H : Inv handler initial m) (hmem : (i, e) ∈ m.accepted) (hreply : e.replyChannel = true)
    (hreturned : ∀ result, .returned i result ∉ m.history) (hheld : m.Holds i) :
    Inv handler initial { m with calls := m.calls.set i (.receiving e none) } :=
  { H with
    made j e' hcalled := by
      rw [List.length_set]
      exact H.made j e' hcalled
    returned j result h := by
      have hj : i ≠ j := by
        rintro rfl
        exact hreturned result h
      rw [List.getElem?_set_ne hj]
      exact H.returned j result h
    sending j e' hcall := H.sending j e' (of_calls_set hcall (by simp))
    receiving j e' slot hcall := by
      rcases calls_set hcall with ⟨rfl, heq⟩ | ⟨-, hcall⟩
      · cases heq
        exact ⟨hmem, hreply⟩
      · exact H.receiving j e' slot hcall
    replied j e' reply hcall := H.replied j e' reply (of_calls_set hcall (by simp))
    unanswered halive j e' hcall hj := by
      rcases calls_set hcall with ⟨rfl, -⟩ | ⟨-, hcall⟩
      · exact absurd hheld hj
      · exact H.unanswered halive j e' hcall hj }

/-! ### What each step keeps -/

theorem lt_of_getElem? {c : Call μ ρ} (hcall : m.calls[i]? = some c) : i < m.calls.length :=
  (List.getElem?_eq_some_iff.mp hcall).1

/-- A call that is under way has not returned. -/
theorem not_returned (H : Inv handler initial m) {c : Call μ ρ} (hcall : m.calls[i]? = some c)
    (hc : c ≠ .done) (result : Outcome ρ) : .returned i result ∉ m.history := by
  intro hmem
  rw [H.returned i result hmem] at hcall
  exact hc (Option.some.inj hcall).symm

/-- What the channel took, with the message the loop is at in the middle. -/
theorem accepted_of_current (H : Inv handler initial m) {q : ℕ × Envelope μ}
    (hcurrent : m.current = some q) :
    m.alive = true ∧ m.accepted = m.handled ++ [q] ++ m.queue ∧
      m.state = (sequential handler m.alive).after initial m.handled := by
  have halive : m.alive = true := by
    cases h : m.alive with
    | true => rfl
    | false =>
      have := (H.stopped h).1
      rw [hcurrent] at this
      cases this
  obtain ⟨haccepted, hstate⟩ := H.running halive
  refine ⟨halive, ?_, hstate⟩
  rw [haccepted, hcurrent, Option.toList_some, List.append_assoc]

theorem poll (H : Inv handler initial m) (i : ℕ) : Inv handler initial (m.poll i) := by
  unfold MailboxProcessor.poll
  split
  case h_1 e hcall =>
    obtain ⟨hcalled, hi⟩ := H.sending i e hcall
    have hreturned := H.not_returned hcall (by simp)
    split_ifs with halive hroom hreply
    · exact H.resolve (lt_of_getElem? hcall) (Or.inl ⟨rfl, by simpa using halive, hi⟩)
    all_goals try exact H
    -- The channel takes the message: the call is over first, then waits again or returns.
    all_goals
      have hput := (H.drop i).put (e := e) (by simpa using halive) hroom
        (List.getElem?_set_self (lt_of_getElem? hcall)) hcalled hreturned hi
    · have hwait := hput.await (List.mem_append_right _ (List.mem_singleton_self _)) hreply hreturned
        (Or.inl (by simp))
      rwa [List.set_set] at hwait
    · refine hput.resolve (by simpa using lt_of_getElem? hcall) (Or.inr ⟨m.accepted, e, ?_, ?_⟩)
      · exact List.prefix_rfl
      · simpa [sequential] using hreply
  case h_2 e reply hcall =>
    obtain ⟨before, hbefore, hreply⟩ := H.replied i e reply hcall
    exact H.resolve (lt_of_getElem? hcall)
      (Or.inr ⟨before, e, hbefore, (H.receiving i e _ hcall).2, hreply⟩)
  case h_3 e hcall =>
    split_ifs with hheld
    · exact H
    · obtain ⟨hmem, hreply⟩ := H.receiving i e none hcall
      refine H.resolve (lt_of_getElem? hcall) (Or.inr ?_)
      cases halive : m.alive with
      | true =>
        obtain ⟨before, hbefore, hnone⟩ := H.unanswered halive i e hcall hheld
        rw [halive] at hnone
        exact ⟨before, e, hbefore, hreply, rfl, fun _ => hnone⟩
      | false =>
        obtain ⟨before, rest, hsplit⟩ := List.append_of_mem hmem
        refine ⟨before, e, ⟨rest, ?_⟩, hreply, rfl, fun h => by cases h⟩
        rw [hsplit, List.append_assoc, List.singleton_append]
  case h_4 => exact H

theorem recv (H : Inv handler initial m) : Inv handler initial m.recv := by
  unfold MailboxProcessor.recv
  split
  case h_2 => exact H
  case h_1 q queue hcurrent hqueue =>
    have halive : m.alive = true := by
      cases h : m.alive with
      | true => rfl
      | false =>
        have := (H.stopped h).2
        rw [hqueue] at this
        cases this
    obtain ⟨haccepted, hstate⟩ := H.running halive
    rw [hcurrent, hqueue, Option.toList_none, List.nil_append] at haccepted
    exact { H with
      unanswered := by
        intro _ i e hcall hheld
        refine H.unanswered halive i e hcall fun hi => hheld ?_
        rcases hi with hi | ⟨-, hi⟩
        · rw [hqueue, List.map_cons, List.mem_cons] at hi
          rcases hi with rfl | hi
          · -- It is the message that the loop took, and its envelope has the reply channel.
            obtain ⟨hmem, hreply⟩ := H.receiving q.1 e none hcall
            have hq : (q.1, q.2) ∈ m.accepted := by
              rw [haccepted]
              exact List.mem_append_right _ List.mem_cons_self
            exact Or.inr ⟨H.unique hmem hq ▸ hreply, rfl⟩
          · exact Or.inl hi
        · rw [hcurrent] at hi
          cases hi
      running := fun _ => ⟨haccepted, hstate⟩
      stopped := fun h => by simp [halive] at h
      room := by
        have := H.room
        rw [hqueue, List.length_cons] at this
        exact Nat.le_of_succ_le this }

theorem answer (H : Inv handler initial m) : Inv handler initial (m.answer handler) := by
  unfold MailboxProcessor.answer
  split
  case h_2 => exact H
  case h_1 i e hcurrent =>
    split_ifs with hheld
    swap
    · exact H
    obtain ⟨halive, haccepted, hstate⟩ := H.accepted_of_current hcurrent
    have hprefix : m.handled ++ [(i, e)] <+: m.accepted := ⟨m.queue, haccepted.symm⟩
    have hmem : (i, e) ∈ m.accepted := hprefix.subset (by simp)
    exact { H with
      made := by
        intro j e' hcalled
        rw [List.length_modify]
        exact H.made j e' hcalled
      returned := fun j result h =>
        (calls_deliver_of_not_receiving (by simp)).mpr (H.returned j result h)
      sending := fun j e' hcall =>
        H.sending j e' ((calls_deliver_of_not_receiving (by simp)).mp hcall)
      receiving := by
        intro j e' slot hcall
        rcases calls_deliver hcall with ⟨-, hcall⟩ | ⟨slot', -, hcall, -⟩
        · exact H.receiving j e' slot hcall
        · exact H.receiving j e' slot' hcall
      replied := by
        intro j e' reply hcall
        rcases calls_deliver hcall with ⟨-, hcall⟩ | ⟨slot, rfl, hcall, hslot⟩
        · exact H.replied j e' reply hcall
        · obtain rfl : e = e' := H.unique hmem (H.receiving j e' slot hcall).1
          cases hreply : (handler e.msg m.state true).reply with
          | some r =>
            rw [hreply, Option.some_or, Option.some.injEq] at hslot
            exact ⟨m.handled, hprefix, by rw [← hstate, hreply, hslot]⟩
          | none =>
            rw [hreply, Option.none_or] at hslot
            exact H.replied j e reply (hslot ▸ hcall)
      unanswered := by
        intro _ j e' hcall hj
        rcases calls_deliver hcall with ⟨hji, hcall⟩ | ⟨slot, rfl, hcall, hslot⟩
        · refine H.unanswered halive j e' hcall fun h => hj ?_
          rcases h with h | ⟨-, h⟩
          · exact Or.inl h
          · rw [hcurrent] at h
            exact absurd (Option.some.inj h).symm hji
        · obtain rfl : e = e' := H.unique hmem (H.receiving j e' slot hcall).1
          refine ⟨m.handled, hprefix, ?_⟩
          rw [← hstate]
          exact (Option.or_eq_none_iff.mp hslot.symm).1 }

theorem stop (H : Inv handler initial m) : Inv handler initial m.stop :=
  { H with
    linearizes := by
      refine H.linearizes.mono rfl (fun _ h => h) fun op s result h => ?_
      rcases result with err | reply | reply
      · exact ⟨h.1, h.2.1, fun hfalse => by cases hfalse⟩
      · exact h
      · exact h
    unanswered h := by cases h
    refused _ _ := rfl
    running h := by cases h
    stopped _ := ⟨rfl, rfl⟩
    room := Nat.zero_le _ }

theorem finish (H : Inv handler initial m) : Inv handler initial (m.finish handler) := by
  unfold MailboxProcessor.finish
  split
  case h_2 => exact H
  case h_1 i e hcurrent =>
    split_ifs with hheld
    · exact H
    split
    case h_2 => exact H.stop
    case h_1 state hnext =>
      obtain ⟨halive, haccepted, hstate⟩ := H.accepted_of_current hcurrent
      exact { H with
        unanswered := by
          intro _ j e' hcall hj
          refine H.unanswered halive j e' hcall fun h => hj ?_
          rcases h with h | ⟨h, -⟩
          · exact Or.inl h
          · exact absurd h hheld
        running := by
          refine fun _ => ⟨haccepted, ?_⟩
          rw [Sequential.after_concat, ← hstate]
          exact (congrArg (·.getD m.state) hnext).symm
        stopped := fun h => by simp [halive] at h }

theorem step (H : Inv handler initial m) (act : Act μ) :
    Inv handler initial (m.step handler act) := by
  cases act with
  | call e => exact H.call e
  | poll i => exact H.poll i
  | drop i => exact H.drop i
  | recv => exact H.recv
  | answer => exact H.answer
  | finish => exact H.finish
  | stop => exact H.stop

end Inv

variable (handler : Handler μ σ ρ) (bufferSize : Option ℕ) (initialState : σ) (acts : List (Act μ))

theorem inv_runFrom : Inv handler initialState (runFrom handler bufferSize initialState acts) :=
  inv_run (step handler) (fun _ act H => H.step act) (Inv.new bufferSize) acts

theorem bufferSize_step (m : MailboxProcessor μ σ ρ) (act : Act μ) :
    (m.step handler act).bufferSize = m.bufferSize := by
  cases act with
  | poll i =>
    simp only [step, poll]
    split
    · split_ifs <;> rfl
    · rfl
    · split_ifs <;> rfl
    · rfl
  | recv =>
    simp only [step, recv]
    split <;> rfl
  | answer =>
    simp only [step, answer]
    split
    · split_ifs <;> rfl
    · rfl
  | finish =>
    simp only [step, finish]
    split
    · split_ifs
      · rfl
      · split <;> rfl
    · rfl
  | call e => rfl
  | drop i => rfl
  | stop => rfl

theorem bufferSize_runFrom :
    (runFrom handler bufferSize initialState acts).bufferSize = bufferSize.getD 1000 :=
  inv_run (step handler) (I := fun m => m.bufferSize = bufferSize.getD 1000)
    (fun m act h => (bufferSize_step handler m act).trans h) rfl acts

/-- The order in which the channel took the messages explains what the callers saw. While the loop runs,
    the messages it is through with are the first of them and its state is what they lead to, one after
    the other. -/
structure Linearizable (initialState : σ) (m : MailboxProcessor μ σ ρ) : Prop where
  explains : (sequential handler m.alive).Linearizes initialState m.history m.accepted
  refused : ∀ i, .returned i (.error mailboxClosed) ∈ m.history → m.alive = false
  inOrder : m.alive = true → m.accepted = m.handled ++ (m.current.toList ++ m.queue)
  state : m.alive = true → m.state = (sequential handler true).after initialState m.handled
  room : m.queue.length ≤ m.bufferSize

theorem linearizable :
    (runFrom handler bufferSize initialState acts).bufferSize = bufferSize.getD 1000 ∧
      Linearizable handler initialState (runFrom handler bufferSize initialState acts) := by
  have H := inv_runFrom handler bufferSize initialState acts
  exact ⟨bufferSize_runFrom handler bufferSize initialState acts,
    H.linearizes, H.refused, fun h => (H.running h).1, fun h => (H.running h).2, H.room⟩

/-- A reply is what the handler gives at the place of its call. -/
theorem reply_at {i : ℕ} {e : Envelope μ} {reply : ρ}
    (hcalled : .called i e ∈ (runFrom handler bufferSize initialState acts).history)
    (hreturned : .returned i (.ok (some reply)) ∈
      (runFrom handler bufferSize initialState acts).history) :
    ∃ before, before ++ [(i, e)] <+: (runFrom handler bufferSize initialState acts).accepted ∧
      (handler e.msg ((sequential handler true).after initialState before) true).reply = some reply := by
  have H := inv_runFrom handler bufferSize initialState acts
  obtain ⟨before, op, hbefore, -, hreply⟩ :=
    (H.linearizes.explained i _ hreturned).resolve_left fun h => by cases h.1
  obtain rfl : op = e :=
    H.once i _ _ (H.linearizes.called (i, op) (hbefore.subset (by simp))) hcalled
  exact ⟨before, hbefore, hreply⟩

/-- A reply is made on a state that has the effect of every message whose call had returned before: a
    caller that waits for `Ok` is never answered from before its own message. -/
theorem reply_sees_returned {i j : ℕ} {r : Option ρ} {reply : ρ}
    (hprecedes : Precedes (runFrom handler bufferSize initialState acts).history i j)
    (hi : .returned i (.ok r) ∈ (runFrom handler bufferSize initialState acts).history)
    (hj : .returned j (.ok (some reply)) ∈ (runFrom handler bufferSize initialState acts).history) :
    ∃ before e, before ++ [(j, e)] <+: (runFrom handler bufferSize initialState acts).accepted ∧
      i ∈ before.map Prod.fst ∧
      (handler e.msg ((sequential handler true).after initialState before) true).reply = some reply := by
  have H := (inv_runFrom handler bufferSize initialState acts).linearizes
  obtain ⟨before, e, hbefore, -, hreply⟩ := (H.explained j _ hj).resolve_left fun h => by cases h.1
  have hmem : i ∈ (runFrom handler bufferSize initialState acts).accepted.map Prod.fst := by
    obtain ⟨before, e, hbefore, -⟩ := (H.explained i _ hi).resolve_left fun h => by cases h.1
    exact List.mem_map_of_mem (hbefore.subset (a := (i, e)) (by simp))
  exact ⟨before, e, hbefore, H.mem_before hmem hbefore hprecedes, hreply⟩

/-! ### No call is stuck -/

/-- What the loop's own steps leave as it is. -/
structure Quiet (m m' : MailboxProcessor μ σ ρ) : Prop where
  bufferSize : m'.bufferSize = m.bufferSize
  stages : m'.calls.map Call.stage = m.calls.map Call.stage

namespace Quiet

variable {m m' m'' : MailboxProcessor μ σ ρ}

theorem trans (h : Quiet m m') (h' : Quiet m' m'') : Quiet m m'' :=
  ⟨h'.bufferSize.trans h.bufferSize, h'.stages.trans h.stages⟩

theorem recv (m : MailboxProcessor μ σ ρ) : Quiet m m.recv := by
  unfold MailboxProcessor.recv
  split <;> exact ⟨rfl, rfl⟩

theorem answer (handler : Handler μ σ ρ) (m : MailboxProcessor μ σ ρ) : Quiet m (m.answer handler) := by
  unfold MailboxProcessor.answer
  split
  case h_2 => exact ⟨rfl, rfl⟩
  case h_1 i e _ =>
    split_ifs
    · refine ⟨rfl, List.ext_getElem? fun j => ?_⟩
      simp only [List.getElem?_map, List.getElem?_modify]
      cases m.calls[j]? with
      | none => rfl
      | some c => by_cases hj : i = j <;> simp [hj]
    · exact ⟨rfl, rfl⟩

theorem finish (handler : Handler μ σ ρ) (m : MailboxProcessor μ σ ρ) : Quiet m (m.finish handler) := by
  unfold MailboxProcessor.finish
  split
  · split_ifs
    · exact ⟨rfl, rfl⟩
    · split <;> exact ⟨rfl, rfl⟩
  · exact ⟨rfl, rfl⟩

/-- A call that is under way stays where it is. -/
theorem stage_eq (h : Quiet m m') {i : ℕ} {c : Call μ ρ} (hcall : m.calls[i]? = some c) :
    ∃ c', m'.calls[i]? = some c' ∧ c'.stage = c.stage := by
  have hstage := congrArg (fun l => l[i]?) h.stages
  simp only [List.getElem?_map, hcall, Option.map_some] at hstage
  obtain ⟨c', hc', heq⟩ := Option.map_eq_some_iff.mp hstage
  exact ⟨c', hc', heq⟩

end Quiet

/-- The handler gets through with its message, or panics. -/
theorem answer_finish (m : MailboxProcessor μ σ ρ) :
    ((m.answer handler).finish handler).current = none ∧
      (((m.answer handler).finish handler).queue = m.queue ∨
        ((m.answer handler).finish handler).queue = []) := by
  unfold answer finish
  cases hcurrent : m.current with
  | none => simp [hcurrent]
  | some q =>
    cases hheld : m.replyHeld with
    | false =>
      cases hnext : (handler q.2.msg m.state q.2.replyChannel).next <;>
        simp [hcurrent, hheld, hnext, stop]
    | true =>
      cases hnext : (handler q.2.msg m.state q.2.replyChannel).next <;> simp [hnext, stop]

/-- Left to itself the loop empties the channel. -/
theorem settles (m : MailboxProcessor μ σ ρ) :
    ∃ acts, (∀ act ∈ acts, Act.ofLoop act) ∧ Quiet m (run (step handler) m acts) ∧
      (run (step handler) m acts).queue = [] ∧ (run (step handler) m acts).current = none := by
  obtain ⟨hcurrent, hqueue⟩ := answer_finish handler m
  have hquiet := (Quiet.answer handler m).trans (Quiet.finish handler _)
  have hend (hempty : ((m.answer handler).finish handler).queue = []) :
      ∃ acts, (∀ act ∈ acts, Act.ofLoop act) ∧ Quiet m (run (step handler) m acts) ∧
        (run (step handler) m acts).queue = [] ∧ (run (step handler) m acts).current = none :=
    ⟨[.answer, .finish], by simp [Act.ofLoop], hquiet, hempty, hcurrent⟩
  induction hq : m.queue generalizing m with
  | nil => exact hend (hqueue.elim (·.trans hq) id)
  | cons q queue ih =>
    rcases hqueue with hqueue | hempty
    swap
    · exact hend hempty
    set m' := ((m.answer handler).finish handler).recv with hm'
    have hqueue' : m'.queue = queue := by
      rw [hm', recv, hcurrent, hqueue, hq]
    obtain ⟨hcurrent', hcases⟩ := answer_finish handler m'
    have hquiet' := (Quiet.answer handler m').trans (Quiet.finish handler _)
    obtain ⟨acts, hloop, hrest, hempty⟩ := ih m' hcurrent' hcases hquiet'
      (fun hempty => ⟨[.answer, .finish], by simp [Act.ofLoop], hquiet', hempty, hcurrent'⟩) hqueue'
    refine ⟨.answer :: .finish :: .recv :: acts, ?_, (hquiet.trans (Quiet.recv _)).trans hrest, hempty⟩
    simpa [Act.ofLoop] using hloop

/-- A call that waits for its reply returns once the loop is through. -/
theorem returns_of_receiving {m : MailboxProcessor μ σ ρ} {i : ℕ} {e : Envelope μ} {slot : Option ρ}
    (hcall : m.calls[i]? = some (.receiving e slot)) :
    ∃ more, (∀ act ∈ more, act = .poll i ∨ Act.ofLoop act) ∧
      ∃ result, .returned i result ∈ (run (step handler) m more).history := by
  obtain ⟨acts, hloop, hquiet, hqueue, hcurrent⟩ := settles handler m
  refine ⟨acts ++ [.poll i], ?_, ?_⟩
  · intro act hact
    rcases List.mem_append.mp hact with hact | hact
    · exact Or.inr (hloop act hact)
    · exact Or.inl (List.mem_singleton.mp hact)
  rw [run_concat]
  obtain ⟨c, hcall', hstage⟩ := hquiet.stage_eq hcall
  have hheld : ¬(run (step handler) m acts).Holds i := by simp [Holds, hqueue, hcurrent]
  rcases c with e' | ⟨e', slot'⟩ | _
  · simp [Call.stage] at hstage
  · cases slot' with
    | none => exact ⟨.error responseClosed, by simp [step, poll, hcall', hheld, resolve]⟩
    | some reply => exact ⟨.ok (some reply), by simp [step, poll, hcall', resolve]⟩
  · simp [Call.stage] at hstage

/-- A call whose message is not in the channel gets it in when the channel is empty. -/
theorem poll_sending {m : MailboxProcessor μ σ ρ} {i : ℕ} {e : Envelope μ}
    (hcall : m.calls[i]? = some (.sending e)) (hqueue : m.queue = []) (hsize : 0 < m.bufferSize) :
    (∃ result, .returned i result ∈ (m.poll i).history) ∨
      (m.poll i).calls[i]? = some (.receiving e none) := by
  have hi := (List.getElem?_eq_some_iff.mp hcall).1
  cases halive : m.alive with
  | false => exact Or.inl ⟨.error mailboxClosed, by simp [poll, hcall, halive, resolve]⟩
  | true =>
    cases hreply : e.replyChannel with
    | false =>
      exact Or.inl ⟨.ok none, by simp [poll, hcall, halive, hqueue, hsize, hreply, resolve]⟩
    | true => exact Or.inr (by
      simp [poll, hcall, halive, hqueue, hsize, hreply, enqueue, List.getElem?_set_self hi])

end MailboxProcessor

/-! ### A counter -/

inductive SendMessageTypes where
  | increment (x : ℤ)
  | getCurrentCount
  | decrement (x : ℤ)

/-- A count that every message is answered with. -/
def counter : Handler SendMessageTypes ℤ ℤ
  | .increment x, state, _ => ⟨some (state + x), some (state + x)⟩
  | .getCurrentCount, state, _ => ⟨some state, some state⟩
  | .decrement x, state, _ => ⟨some (state - x), some (state - x)⟩

/-- `fire_and_forget(Increment(55))`, and `send(GetCurrentCount)` once that has returned. -/
def countedRun : List (Act SendMessageTypes) :=
  [.call ⟨.increment 55, false⟩, .poll 0, .call ⟨.getCurrentCount, true⟩, .recv, .poll 1, .finish,
    .recv, .answer, .poll 1, .finish]

theorem countedRun_history :
    (MailboxProcessor.runFrom counter none 0 countedRun).history =
      [.called 0 ⟨.increment 55, false⟩, .returned 0 (.ok none), .called 1 ⟨.getCurrentCount, true⟩,
        .returned 1 (.ok (some 55))] := rfl

theorem reply_sees_returned_counter :
    ∃ before e, before ++ [(1, e)] <+: (MailboxProcessor.runFrom counter none 0 countedRun).accepted ∧
      0 ∈ before.map Prod.fst ∧
      (counter e.msg ((sequential counter true).after 0 before) true).reply = some 55 :=
  MailboxProcessor.reply_sees_returned counter none 0 countedRun
    ⟨.ok none, ⟨.getCurrentCount, true⟩, by rw [countedRun_history]; simp⟩
    (r := none) (by rw [countedRun_history]; simp) (by rw [countedRun_history]; simp)

end Midas.Mailbox
