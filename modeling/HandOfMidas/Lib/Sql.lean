import Mathlib.Data.Nat.Notation
import Mathlib.Data.List.Basic
import Mathlib.Logic.Basic
import Mathlib.Algebra.GroupWithZero.Nat

/-! Programs over one connection to a transactional store of tables `τ`. Every statement may fail,
    and a failed statement has no effect; which statements fail is a schedule indexed by how many
    were issued before. `BEGIN` inside an open transaction and `COMMIT` outside one are refused.
    A program of statements succeeds exactly when the schedule is quiet for its length and the
    tables satisfy what it needs (`Effect`), and `transaction` runs such a body between `BEGIN` and
    `COMMIT`, with an early return at the first error and no `ROLLBACK`. -/

namespace Midas

inductive SqlError where
  | failed | nestedTransaction | noTransaction | constraint
  deriving DecidableEq, Repr

/-- A connection: the tables it reads, what they were at `BEGIN` while a transaction is open, and
    the number of statements issued so far. -/
structure Conn (τ : Type) where
  tables : τ
  saved : Option τ := none
  issued : ℕ := 0

/-- A program over a connection. -/
def Sql (τ α : Type) : Type := Conn τ → Except SqlError α × Conn τ

namespace Sql

variable {τ α β : Type}

/-- Go on with the value of a program that succeeded; `?` returns early from one that failed. -/
def andThen (m : Sql τ α) (f : α → Sql τ β) : Sql τ β := fun c =>
  match m c with
  | (.ok a, c') => f a c'
  | (.error e, c') => (.error e, c')

instance : Monad (Sql τ) where
  pure a := fun c => (.ok a, c)
  bind := andThen

theorem run_bind_of_ok {m : Sql τ α} {f : α → Sql τ β} {c c' : Conn τ} {a : α}
    (h : m c = (.ok a, c')) : (m >>= f) c = f a c' := by
  show andThen m f c = _
  rw [andThen, h]

theorem run_bind_of_error {m : Sql τ α} {f : α → Sql τ β} {c c' : Conn τ} {e : SqlError}
    (h : m c = (.error e, c')) : (m >>= f) c = (.error e, c') := by
  show andThen m f c = _
  rw [andThen, h]

variable (fails : ℕ → Bool)

/-- One statement: it fails as scheduled, or reads and writes the tables. -/
def statement (f : τ → Except SqlError (α × τ)) : Sql τ α := fun c =>
  if fails c.issued then (.error .failed, { c with issued := c.issued + 1 })
  else
    match f c.tables with
    | .ok (a, t) => (.ok a, { c with tables := t, issued := c.issued + 1 })
    | .error e => (.error e, { c with issued := c.issued + 1 })

/-- A statement the tables refuse changes nothing. -/
theorem statement_refused {f : τ → Except SqlError (α × τ)} {c : Conn τ} {e : SqlError}
    (h : f c.tables = .error e) :
    ∃ e', statement fails f c = (.error e', { c with issued := c.issued + 1 }) := by
  unfold statement
  cases fails c.issued with
  | true => exact ⟨.failed, rfl⟩
  | false => exact ⟨e, by simp [h]⟩

/-- `BEGIN`. -/
def begin : Sql τ Unit := fun c =>
  if fails c.issued then (.error .failed, { c with issued := c.issued + 1 })
  else if c.saved.isSome then (.error .nestedTransaction, { c with issued := c.issued + 1 })
  else (.ok (), { c with saved := some c.tables, issued := c.issued + 1 })

/-- `COMMIT`. -/
def commit : Sql τ Unit := fun c =>
  if fails c.issued then (.error .failed, { c with issued := c.issued + 1 })
  else if c.saved.isNone then (.error .noTransaction, { c with issued := c.issued + 1 })
  else (.ok (), { c with saved := none, issued := c.issued + 1 })

/-- A body between `BEGIN` and `COMMIT`. Whatever fails, the program returns at once. -/
def transaction (body : Sql τ Unit) : Sql τ Unit := do
  begin fails
  body
  commit fails

/-- Run a program once for each element of a list. -/
def forEach {ι : Type} (m : ι → Sql τ Unit) : List ι → Sql τ Unit
  | [] => pure ()
  | i :: is => do
    m i
    forEach m is

/-! ### Programs that stay inside the transaction they find -/

/-- The program neither opens nor closes a transaction. -/
def InPlace (m : Sql τ α) : Prop := ∀ c, (m c).2.saved = c.saved

theorem InPlace.pure (a : α) : InPlace (Pure.pure a : Sql τ α) := fun _ => rfl

theorem InPlace.bind {m : Sql τ α} {f : α → Sql τ β} (hm : InPlace m) (hf : ∀ a, InPlace (f a)) :
    InPlace (m >>= f) := by
  intro c
  have hc := hm c
  cases h : m c with
  | mk r c' =>
    rw [h] at hc
    cases r with
    | ok a => rw [run_bind_of_ok h, hf a c', hc]
    | error e => rw [run_bind_of_error h, hc]

theorem InPlace.statement (f : τ → Except SqlError (α × τ)) : InPlace (statement fails f) := by
  intro c
  unfold Sql.statement
  split
  · rfl
  · split <;> rfl

theorem InPlace.forEach {ι : Type} {m : ι → Sql τ Unit} (hm : ∀ i, InPlace (m i)) :
    ∀ is, InPlace (forEach m is)
  | [] => InPlace.pure ()
  | i :: is => InPlace.bind (hm i) fun _ => InPlace.forEach hm is

/-- What a pass over a list needs: each element finds what it needs in what the earlier ones left. -/
def Passes {ι : Type} (pre : ι → τ → Prop) (eff : ι → τ → τ) : List ι → τ → Prop
  | [], _ => True
  | i :: is, t => pre i t ∧ Passes pre eff is (eff i t)

/-! ### What a program does when nothing fails -/

/-- None of the `n` statements from number `start` on fails. -/
def Quiet (start n : ℕ) : Prop := ∀ i < n, fails (start + i) = false

theorem quiet_one {start : ℕ} : Quiet fails start 1 ↔ fails start = false := by
  constructor
  · intro h
    exact h 0 Nat.one_pos
  · intro h i hi
    obtain rfl : i = 0 := by omega
    exact h

theorem quiet_add {start m n : ℕ} :
    Quiet fails start (m + n) ↔ Quiet fails start m ∧ Quiet fails (start + m) n := by
  constructor
  · intro h
    refine ⟨fun i hi => h i (by omega), fun i hi => ?_⟩
    rw [Nat.add_assoc]
    exact h (m + i) (by omega)
  · rintro ⟨hm, hn⟩ i hi
    by_cases him : i < m
    · exact hm i him
    · have := hn (i - m) (by omega)
      rwa [show start + m + (i - m) = start + i by omega] at this

variable {fails}

/-- The program succeeds exactly when its `n` statements are quiet and the tables satisfy `pre`, and
    then it issues `n` statements and applies `eff`. -/
structure Effect (fails : ℕ → Bool) (m : Sql τ α) (n : ℕ) (pre : τ → Prop) (eff : τ → τ) :
    Prop where
  ready : ∀ c a, (m c).1 = .ok a → Quiet fails c.issued n ∧ pre c.tables
  run : ∀ c, Quiet fails c.issued n → pre c.tables →
    ∃ a, m c = (.ok a, { c with tables := eff c.tables, issued := c.issued + n })

namespace Effect

variable {n n' : ℕ} {pre pre' : τ → Prop} {eff eff' : τ → τ}

theorem pure (a : α) :
    Effect fails (Pure.pure a : Sql τ α) 0 (fun _ => True) (fun t => t) where
  ready _ _ _ := ⟨fun i hi => absurd hi (Nat.not_lt_zero i), trivial⟩
  run _ _ _ := ⟨a, rfl⟩

theorem bind {m : Sql τ α} {f : α → Sql τ β} (h : Effect fails m n pre eff)
    (h' : ∀ a, Effect fails (f a) n' pre' eff') :
    Effect fails (m >>= f) (n + n') (fun t => pre t ∧ pre' (eff t)) (fun t => eff' (eff t)) := by
  refine ⟨fun c b hok => ?_, fun c hq hp => ?_⟩
  · cases hm : m c with
    | mk r c1 =>
      cases r with
      | error e =>
        rw [run_bind_of_error hm] at hok
        cases hok
      | ok a =>
        obtain ⟨hq, hp⟩ := h.ready c a (by rw [hm])
        obtain ⟨a', hrun⟩ := h.run c hq hp
        rw [run_bind_of_ok hrun] at hok
        obtain ⟨hq', hp'⟩ := (h' a').ready _ b hok
        exact ⟨(quiet_add fails).mpr ⟨hq, hq'⟩, hp, hp'⟩
  · obtain ⟨hq, hq'⟩ := (quiet_add fails).mp hq
    obtain ⟨a, hrun⟩ := h.run c hq hp.1
    obtain ⟨b, hrun'⟩ := (h' a).run
      { c with tables := eff c.tables, issued := c.issued + n } hq' hp.2
    refine ⟨b, ?_⟩
    rw [run_bind_of_ok hrun, hrun']
    simp only [Nat.add_assoc]

theorem statement {f : τ → Except SqlError (α × τ)}
    (heff : ∀ t a t', f t = .ok (a, t') → eff t = t') :
    Effect fails (Sql.statement fails f) 1 (fun t => ∃ r, f t = .ok r) eff := by
  refine ⟨fun c a hok => ?_, fun c hq hp => ?_⟩
  · rw [quiet_one]
    unfold Sql.statement at hok
    cases hb : fails c.issued with
    | true =>
      rw [hb] at hok
      cases hok
    | false =>
      cases hf : f c.tables with
      | ok r => exact ⟨rfl, r, rfl⟩
      | error e =>
        simp only [hb, hf] at hok
        cases hok
  · obtain ⟨⟨a, t'⟩, hf⟩ := hp
    refine ⟨a, ?_⟩
    simp only [Sql.statement, (quiet_one fails).mp hq, hf, heff _ a t' hf]
    rfl

/-- A statement that no table can refuse. -/
theorem statement_total (f : τ → α × τ) :
    Effect fails (Sql.statement fails fun t => .ok (f t)) 1 (fun _ => True) (fun t => (f t).2) := by
  have h : Effect fails (Sql.statement fails fun t => .ok (f t)) 1
      (fun t => ∃ r, (Except.ok (f t) : Except SqlError (α × τ)) = .ok r) (fun t => (f t).2) :=
    statement fun t a t' ht => by rw [Except.ok.inj ht]
  exact ⟨fun c a hok => ⟨(h.ready c a hok).1, trivial⟩, fun c hq _ => h.run c hq ⟨_, rfl⟩⟩

theorem congr {m : Sql τ α} (h : Effect fails m n pre eff) (hpre : ∀ t, pre t ↔ pre' t)
    (heff : ∀ t, eff t = eff' t) : Effect fails m n pre' eff' := by
  obtain rfl : pre = pre' := funext fun t => propext (hpre t)
  obtain rfl : eff = eff' := funext heff
  exact h

theorem forEach {ι : Type} {m : ι → Sql τ Unit} {n : ι → ℕ} {pre : ι → τ → Prop}
    {eff : ι → τ → τ} (h : ∀ i, Effect fails (m i) (n i) (pre i) (eff i)) :
    ∀ is, Effect fails (Sql.forEach m is) (is.map n).sum (Passes pre eff is)
      (fun t => is.foldl (fun t i => eff i t) t)
  | [] => Effect.pure ()
  | i :: is => by
    rw [List.map_cons, List.sum_cons]
    exact (h i).bind fun _ => forEach h is

end Effect

/-! ### A body between `BEGIN` and `COMMIT` -/

section Transaction

variable {body : Sql τ Unit} {c : Conn τ}

/-- The connection after a `BEGIN` that is accepted. -/
def opened (c : Conn τ) : Conn τ :=
  { c with saved := some c.tables, issued := c.issued + 1 }

theorem begin_of_ready (hb : fails c.issued = false) (hs : c.saved = none) :
    begin fails c = (.ok (), (opened c)) := by
  simp [begin, hb, hs, opened]

variable (body) in
/-- A `BEGIN` that is refused changes nothing. -/
theorem transaction_refused (h : fails c.issued = true ∨ c.saved.isSome = true) :
    ∃ e, transaction fails body c = (.error e, { c with issued := c.issued + 1 }) := by
  have hbegin : ∃ e, begin fails c = (.error e, { c with issued := c.issued + 1 }) := by
    cases hb : fails c.issued with
    | true => exact ⟨.failed, by simp [begin, hb]⟩
    | false =>
      have hs : c.saved.isSome = true := by simpa [hb] using h
      exact ⟨.nestedTransaction, by simp [begin, hb, hs]⟩
  obtain ⟨e, he⟩ := hbegin
  exact ⟨e, run_bind_of_error he⟩

/-- Once `BEGIN` is accepted, a failure of the body or of `COMMIT` leaves the transaction open. -/
theorem transaction_left_open (hin : InPlace body) (hb : fails c.issued = false)
    (hs : c.saved = none) {e : SqlError} (h : (transaction fails body c).1 = .error e) :
    (transaction fails body c).2.saved = some c.tables := by
  have hrun : transaction fails body c = (do body; commit fails) (opened c) :=
    run_bind_of_ok (begin_of_ready hb hs)
  rw [hrun] at h ⊢
  have hin' := hin (opened c)
  cases hbody : body (opened c) with
  | mk r c' =>
    rw [hbody] at hin'
    have hsaved : c'.saved = some c.tables := hin'
    cases r with
    | error e' => rw [run_bind_of_error hbody, hsaved]
    | ok _ =>
      rw [run_bind_of_ok hbody] at h ⊢
      unfold commit at h ⊢
      split at h
      · rename_i hf
        rw [if_pos hf, hsaved]
      · simp [hsaved] at h

/-- A transaction whose body stops before it wrote anything writes nothing. -/
theorem transaction_tables_of_error {e : SqlError} {c' : Conn τ} (h : body (opened c) = (.error e, c'))
    (ht : c'.tables = c.tables) : (transaction fails body c).2.tables = c.tables := by
  by_cases href : fails c.issued = true ∨ c.saved.isSome = true
  · obtain ⟨e', he'⟩ := transaction_refused body href
    rw [he']
  · rw [not_or, Bool.not_eq_true, Bool.not_eq_true, Option.isSome_eq_false_iff,
      Option.isNone_iff_eq_none] at href
    have hrun : transaction fails body c = (do body; commit fails) (opened c) :=
      run_bind_of_ok (begin_of_ready href.1 href.2)
    rw [hrun, run_bind_of_error h, ht]

/-- A transaction whose statements are all quiet does what its body does. -/
theorem transaction_of_quiet {n : ℕ} {pre : τ → Prop} {eff : τ → τ}
    (he : Effect fails body n pre eff) (hs : c.saved = none) (hq : Quiet fails c.issued (n + 2))
    (hp : pre c.tables) : transaction fails body c =
      (.ok (), { tables := eff c.tables, saved := none, issued := c.issued + (n + 2) }) := by
  rw [show n + 2 = 1 + (n + 1) by omega, quiet_add, quiet_one, quiet_add, quiet_one] at hq
  obtain ⟨hb, hbody, hcommit⟩ := hq
  obtain ⟨_, hdone⟩ := he.run (opened c) hbody hp
  have hrun : transaction fails body c = (do body; commit fails) (opened c) :=
    run_bind_of_ok (begin_of_ready hb hs)
  rw [hrun, run_bind_of_ok hdone]
  simp only [commit, opened, hcommit]
  simp [show n + 2 = 1 + n + 1 by omega, Nat.add_assoc]

/-- A transaction succeeds exactly when none is open, every statement of it is quiet and the tables
    satisfy what the body needs. -/
theorem transaction_ok_iff {n : ℕ} {pre : τ → Prop} {eff : τ → τ}
    (he : Effect fails body n pre eff) : (transaction fails body c).1 = .ok () ↔
      c.saved = none ∧ Quiet fails c.issued (n + 2) ∧ pre c.tables := by
  constructor
  · intro h
    have hready : fails c.issued = false ∧ c.saved = none := by
      by_contra hne
      have href : fails c.issued = true ∨ c.saved.isSome = true := by
        cases hb : fails c.issued with
        | true => exact Or.inl rfl
        | false =>
          cases hs : c.saved with
          | none => exact absurd ⟨hb, hs⟩ hne
          | some t => exact Or.inr rfl
      obtain ⟨e, he'⟩ := transaction_refused body href
      rw [he'] at h
      cases h
    obtain ⟨hb, hs⟩ := hready
    have hrun : transaction fails body c = (do body; commit fails) (opened c) :=
      run_bind_of_ok (begin_of_ready hb hs)
    rw [hrun] at h
    obtain ⟨hq, hp⟩ : Quiet fails (c.issued + 1) n ∧ pre c.tables := by
      cases hm : body (opened c) with
      | mk r c' =>
        cases r with
        | ok _ => exact he.ready (opened c) () (by rw [hm])
        | error e =>
          rw [run_bind_of_error hm] at h
          cases h
    obtain ⟨_, hdone⟩ := he.run (opened c) hq hp
    rw [run_bind_of_ok hdone] at h
    have hcommit : fails (c.issued + 1 + n) = false := by
      cases hf : fails (c.issued + 1 + n) with
      | false => rfl
      | true =>
        simp only [commit, opened, hf] at h
        cases h
    refine ⟨hs, ?_, hp⟩
    rw [show n + 2 = 1 + (n + 1) by omega, quiet_add, quiet_one, quiet_add, quiet_one]
    exact ⟨hb, hq, hcommit⟩
  · rintro ⟨hs, hq, hp⟩
    rw [transaction_of_quiet he hs hq hp]

end Transaction

/-! ### A body between `BEGIN` and `COMMIT`, rolled back when it fails -/

section Guarded

variable (fails) (ends : ℕ → Bool)

/-- A `COMMIT` or `ROLLBACK` that fails. The store may leave the transaction open, or give it up. -/
def unfinished (c : Conn τ) : Conn τ :=
  match c.saved with
  | none => { c with issued := c.issued + 1 }
  | some t =>
    if ends c.issued then { tables := t, issued := c.issued + 1 } else { c with issued := c.issued + 1 }

/-- `COMMIT`, where a failed one may give the transaction up. -/
def commitOr : Sql τ Unit := fun c =>
  if fails c.issued then (.error .failed, unfinished ends c)
  else if c.saved.isNone then (.error .noTransaction, { c with issued := c.issued + 1 })
  else (.ok (), { c with saved := none, issued := c.issued + 1 })

/-- `ROLLBACK`. -/
def rollback : Sql τ Unit := fun c =>
  if fails c.issued then (.error .failed, unfinished ends c)
  else
    match c.saved with
    | none => (.error .noTransaction, { c with issued := c.issued + 1 })
    | some t => (.ok (), { tables := t, issued := c.issued + 1 })

/-- What follows the body: `COMMIT` if it succeeded, `ROLLBACK`, whatever comes of it, if it failed. -/
def finish (body : Sql τ α) : Sql τ α := fun c =>
  match body c with
  | (.ok a, c') =>
    match commitOr fails ends c' with
    | (.ok _, c'') => (.ok a, c'')
    | (.error e, c'') => (.error e, c'')
  | (.error e, c') => (.error e, (rollback fails ends c').2)

def guarded (body : Sql τ α) : Sql τ α := do
  begin fails
  finish fails ends body

/-- The `COMMIT` or `ROLLBACK` of a body of `n` statements fails and leaves the transaction open. -/
def Dangles (start n : ℕ) : Prop :=
  fails start = false ∧ ∃ k, fails k = true ∧ ends k = false ∧
    (Quiet fails (start + 1) n ∧ k = start + 1 + n ∨
      ∃ j < n, Quiet fails (start + 1) j ∧ fails (start + 1 + j) = true ∧ k = start + 1 + j + 1)

/-- A program of `n` statements that the tables do not refuse stops at the first one that fails. -/
def Stops (m : Sql τ α) (n : ℕ) (pre : τ → Prop) : Prop :=
  ∀ c e c', pre c.tables → m c = (.error e, c') →
    ∃ j < n, Quiet fails c.issued j ∧ fails (c.issued + j) = true ∧ c'.issued = c.issued + j + 1

variable {fails} {ends}

namespace Stops

variable {n n' : ℕ} {pre pre' : τ → Prop} {eff : τ → τ}

theorem pure (a : α) : Stops fails (Pure.pure a : Sql τ α) 0 (fun _ => True) :=
  fun _ _ _ _ h => by cases h

theorem statement (f : τ → Except SqlError (α × τ)) :
    Stops fails (Sql.statement fails f) 1 (fun t => ∃ r, f t = .ok r) := by
  rintro c e c' ⟨⟨a, t⟩, hf⟩ h
  unfold Sql.statement at h
  cases hb : fails c.issued with
  | true =>
    rw [hb] at h
    cases h
    exact ⟨0, Nat.one_pos, fun i hi => absurd hi (Nat.not_lt_zero i), hb, rfl⟩
  | false =>
    simp only [hb, hf] at h
    cases h

theorem statement_total (f : τ → α × τ) :
    Stops fails (Sql.statement fails fun t => .ok (f t)) 1 (fun _ => True) :=
  fun c e c' _ h => statement _ c e c' ⟨_, rfl⟩ h

theorem bind {m : Sql τ α} {f : α → Sql τ β} (hm : Stops fails m n pre)
    (he : Effect fails m n pre eff) (hf : ∀ a, Stops fails (f a) n' pre') :
    Stops fails (m >>= f) (n + n') (fun t => pre t ∧ pre' (eff t)) := by
  rintro c e c' ⟨hp, hp'⟩ h
  cases hrun : m c with
  | mk r c1 =>
    cases r with
    | error e' =>
      rw [run_bind_of_error hrun] at h
      cases h
      obtain ⟨j, hj, hstop⟩ := hm c _ _ hp hrun
      exact ⟨j, by omega, hstop⟩
    | ok a =>
      obtain ⟨hquiet, -⟩ := he.ready c a (by rw [hrun])
      obtain ⟨a', hdone⟩ := he.run c hquiet hp
      rw [run_bind_of_ok hdone] at h
      obtain ⟨j, hj, hq, hfail, hissued⟩ := hf a' _ _ _ hp' h
      refine ⟨n + j, by omega, (quiet_add fails).mpr ⟨hquiet, hq⟩, ?_, ?_⟩
      · rw [← Nat.add_assoc]
        exact hfail
      · rw [hissued, Nat.add_assoc c.issued n j]

theorem congr {m : Sql τ α} (h : Stops fails m n pre) (hpre : ∀ t, pre' t → pre t) :
    Stops fails m n pre' := fun c e c' hp hrun => h c e c' (hpre _ hp) hrun

end Stops

/-- What is known of a program that runs inside a transaction: what it does when nothing fails, where it
    stops when something does, and that the transaction stays open meanwhile. -/
structure Block (fails : ℕ → Bool) (m : Sql τ α) (n : ℕ) (pre : τ → Prop) (eff : τ → τ) : Prop where
  effect : Effect fails m n pre eff
  stops : Stops fails m n pre
  inPlace : InPlace m

namespace Block

variable {n n' : ℕ} {pre pre' : τ → Prop} {eff eff' : τ → τ}

theorem pure (a : α) : Block fails (Pure.pure a : Sql τ α) 0 (fun _ => True) (fun t => t) :=
  ⟨.pure a, .pure a, .pure a⟩

theorem statement {f : τ → Except SqlError (α × τ)} (heff : ∀ t a t', f t = .ok (a, t') → eff t = t') :
    Block fails (Sql.statement fails f) 1 (fun t => ∃ r, f t = .ok r) eff :=
  ⟨.statement heff, .statement f, .statement fails f⟩

theorem statement_total (f : τ → α × τ) :
    Block fails (Sql.statement fails fun t => .ok (f t)) 1 (fun _ => True) (fun t => (f t).2) :=
  ⟨.statement_total f, .statement_total f, .statement fails _⟩

theorem bind {m : Sql τ α} {f : α → Sql τ β} (h : Block fails m n pre eff)
    (h' : ∀ a, Block fails (f a) n' pre' eff') :
    Block fails (m >>= f) (n + n') (fun t => pre t ∧ pre' (eff t)) (fun t => eff' (eff t)) :=
  ⟨h.effect.bind fun a => (h' a).effect, h.stops.bind h.effect fun a => (h' a).stops,
    h.inPlace.bind fun a => (h' a).inPlace⟩

theorem congr {m : Sql τ α} (h : Block fails m n pre eff) (hn : n = n') (hpre : ∀ t, pre t ↔ pre' t)
    (heff : ∀ t, eff t = eff' t) : Block fails m n' pre' eff' := by
  subst hn
  exact ⟨h.effect.congr hpre heff, h.stops.congr fun t => (hpre t).mpr, h.inPlace⟩

theorem forEach {ι : Type} {m : ι → Sql τ Unit} {n : ι → ℕ} {pre : ι → τ → Prop}
    {eff : ι → τ → τ} (h : ∀ i, Block fails (m i) (n i) (pre i) (eff i)) :
    ∀ is, Block fails (Sql.forEach m is) (is.map n).sum (Passes pre eff is)
      (fun t => is.foldl (fun t i => eff i t) t)
  | [] => pure ()
  | i :: is => by
    rw [List.map_cons, List.sum_cons]
    exact (h i).bind fun _ => forEach h is

end Block

variable {body : Sql τ α} {c : Conn τ} {n : ℕ} {pre : τ → Prop} {eff : τ → τ}

theorem unfinished_of_open {t : τ} (h : c.saved = some t) : unfinished ends c =
    if ends c.issued then { tables := t, issued := c.issued + 1 }
    else { c with issued := c.issued + 1 } := by
  unfold unfinished
  rw [h]

/-- There is one first statement that fails. -/
theorem eq_of_first {start i j : ℕ} (hi : Quiet fails start i) (hfi : fails (start + i) = true)
    (hj : Quiet fails start j) (hfj : fails (start + j) = true) : i = j := by
  rcases Nat.lt_trichotomy i j with h | h | h
  · rw [hj i h] at hfi
    cases hfi
  · exact h
  · rw [hi j h] at hfj
    cases hfj

/-- Where the body ran to its end, it is its `COMMIT` that may leave the transaction open. -/
theorem dangles_of_quiet {start : ℕ} (hb : fails start = false) (hq : Quiet fails (start + 1) n) :
    Dangles fails ends start n ↔ fails (start + 1 + n) = true ∧ ends (start + 1 + n) = false := by
  constructor
  · rintro ⟨-, k, hk, hends, ⟨-, rfl⟩ | ⟨j, hj, -, hfail, -⟩⟩
    · exact ⟨hk, hends⟩
    · rw [hq j hj] at hfail
      cases hfail
  · rintro ⟨hk, hends⟩
    exact ⟨hb, _, hk, hends, .inl ⟨hq, rfl⟩⟩

/-- Where the body stopped, it is the `ROLLBACK` behind the statement that failed. -/
theorem dangles_of_stop {start j : ℕ} (hb : fails start = false) (hj : j < n)
    (hq : Quiet fails (start + 1) j) (hfail : fails (start + 1 + j) = true) :
    Dangles fails ends start n ↔
      fails (start + 1 + j + 1) = true ∧ ends (start + 1 + j + 1) = false := by
  constructor
  · rintro ⟨-, k, hk, hends, ⟨hquiet, -⟩ | ⟨i, -, hqi, hfi, rfl⟩⟩
    · rw [hquiet j hj] at hfail
      cases hfail
    · obtain rfl := eq_of_first hqi hfi hq hfail
      exact ⟨hk, hends⟩
  · rintro ⟨hk, hends⟩
    exact ⟨hb, _, hk, hends, .inr ⟨j, hj, hq, hfail, rfl⟩⟩

/-- What a transaction that is rolled back on failure comes to: unless it is left open, all of its body
    or nothing. -/
structure Outcome (fails ends : ℕ → Bool) (c : Conn τ) (n : ℕ) (eff : τ → τ)
    (r : Except SqlError α × Conn τ) : Prop where
  closed : r.2.saved = none ↔ ¬Dangles fails ends c.issued n
  whole : r.2.saved = none →
    (∃ a, r.1 = .ok a) ∧ Quiet fails c.issued (n + 2) ∧ r.2.tables = eff c.tables ∨
      (∃ e, r.1 = .error e) ∧ ¬Quiet fails c.issued (n + 2) ∧ r.2.tables = c.tables

theorem finish_of_ok {c' : Conn τ} {a : α} (hb : fails c.issued = false)
    (hbody : body (opened c) = (.ok a, c')) (hq : Quiet fails (c.issued + 1) n)
    (hsaved : c'.saved = some c.tables) (htables : c'.tables = eff c.tables)
    (hissued : c'.issued = c.issued + 1 + n) :
    Outcome fails ends c n eff (finish fails ends body (opened c)) := by
  have hquiet : Quiet fails c.issued (n + 2) ↔ fails (c.issued + 1 + n) = false := by
    rw [show n + 2 = 1 + (n + 1) by omega, quiet_add, quiet_one, quiet_add, quiet_one]
    exact ⟨fun h => h.2.2, fun h => ⟨hb, hq, h⟩⟩
  unfold finish commitOr
  rw [hbody]
  dsimp only
  cases hf : fails c'.issued with
  | false =>
    rw [if_neg Bool.false_ne_true, hsaved]
    rw [hissued] at hf
    refine ⟨⟨fun _ => ?_, fun _ => rfl⟩, fun _ => .inl ⟨⟨a, rfl⟩, hquiet.mpr hf, htables⟩⟩
    rw [dangles_of_quiet hb hq, hf]
    exact fun h => Bool.false_ne_true h.1
  | true =>
    rw [if_pos rfl]
    dsimp only
    rw [unfinished_of_open hsaved]
    rw [hissued] at hf ⊢
    have hnot : ¬Quiet fails c.issued (n + 2) := by
      rw [hquiet, hf]
      exact fun h => Bool.false_ne_true h.symm
    cases he : ends (c.issued + 1 + n) with
    | true =>
      rw [if_pos rfl]
      refine ⟨⟨fun _ => ?_, fun _ => rfl⟩, fun _ => .inr ⟨⟨_, rfl⟩, hnot, rfl⟩⟩
      rw [dangles_of_quiet hb hq, he]
      exact fun h => Bool.false_ne_true h.2.symm
    | false =>
      rw [if_neg Bool.false_ne_true]
      refine ⟨⟨fun h => ?_, fun h => ?_⟩, fun h => ?_⟩
      · exact absurd (hsaved.symm.trans h) (Option.some_ne_none _)
      · exact absurd ((dangles_of_quiet hb hq).mpr ⟨hf, he⟩) h
      · exact absurd (hsaved.symm.trans h) (Option.some_ne_none _)

theorem finish_of_error {c' : Conn τ} {e : SqlError} {j : ℕ} (hb : fails c.issued = false)
    (hbody : body (opened c) = (.error e, c')) (hj : j < n) (hq : Quiet fails (c.issued + 1) j)
    (hfail : fails (c.issued + 1 + j) = true) (hsaved : c'.saved = some c.tables)
    (hissued : c'.issued = c.issued + 1 + j + 1) :
    Outcome fails ends c n eff (finish fails ends body (opened c)) := by
  have hnot : ¬Quiet fails c.issued (n + 2) := by
    rw [show n + 2 = 1 + (n + 1) by omega, quiet_add, quiet_add]
    rintro ⟨-, hquiet, -⟩
    rw [hquiet j hj] at hfail
    cases hfail
  unfold finish rollback
  rw [hbody]
  dsimp only
  cases hf : fails c'.issued with
  | false =>
    rw [if_neg Bool.false_ne_true, hsaved]
    rw [hissued] at hf
    refine ⟨⟨fun _ => ?_, fun _ => rfl⟩, fun _ => .inr ⟨⟨e, rfl⟩, hnot, rfl⟩⟩
    rw [dangles_of_stop hb hj hq hfail, hf]
    exact fun h => Bool.false_ne_true h.1
  | true =>
    rw [if_pos rfl, unfinished_of_open hsaved]
    rw [hissued] at hf ⊢
    cases he : ends (c.issued + 1 + j + 1) with
    | true =>
      rw [if_pos rfl]
      refine ⟨⟨fun _ => ?_, fun _ => rfl⟩, fun _ => .inr ⟨⟨e, rfl⟩, hnot, rfl⟩⟩
      rw [dangles_of_stop hb hj hq hfail, he]
      exact fun h => Bool.false_ne_true h.2.symm
    | false =>
      rw [if_neg Bool.false_ne_true]
      refine ⟨⟨fun h => ?_, fun h => ?_⟩, fun h => ?_⟩
      · exact absurd (hsaved.symm.trans h) (Option.some_ne_none _)
      · exact absurd ((dangles_of_stop hb hj hq hfail).mpr ⟨hf, he⟩) h
      · exact absurd (hsaved.symm.trans h) (Option.some_ne_none _)

theorem guarded_outcome (h : Block fails body n pre eff) (hs : c.saved = none) (hp : pre c.tables) :
    Outcome fails ends c n eff (guarded fails ends body c) := by
  cases hb : fails c.issued with
  | true =>
    have hbegin : begin fails c = (.error .failed, { c with issued := c.issued + 1 }) := by
      simp [begin, hb]
    have hrun : guarded fails ends body c = (.error .failed, { c with issued := c.issued + 1 }) :=
      run_bind_of_error hbegin
    have hnot : ¬Quiet fails c.issued (n + 2) := by
      intro hq
      have := hq 0 (by omega)
      rw [Nat.add_zero, hb] at this
      cases this
    rw [hrun]
    refine ⟨⟨fun _ => ?_, fun _ => hs⟩, fun _ => .inr ⟨⟨_, rfl⟩, hnot, rfl⟩⟩
    rintro ⟨hfalse, -⟩
    rw [hb] at hfalse
    cases hfalse
  | false =>
    have hrun : guarded fails ends body c = finish fails ends body (opened c) :=
      run_bind_of_ok (begin_of_ready hb hs)
    have hsaved := h.inPlace (opened c)
    rw [hrun]
    cases hbody : body (opened c) with
    | mk r c' =>
      rw [hbody] at hsaved
      cases r with
      | ok a =>
        obtain ⟨hq, -⟩ := h.effect.ready (opened c) a (by rw [hbody])
        obtain ⟨a', hdone⟩ := h.effect.run (opened c) hq hp
        rw [hbody] at hdone
        obtain ⟨-, rfl⟩ := Prod.mk.inj hdone
        exact finish_of_ok hb hbody hq rfl rfl rfl
      | error e =>
        obtain ⟨j, hj, hq, hfail, hissued⟩ := h.stops (opened c) e c' hp hbody
        exact finish_of_error hb hbody hj hq hfail hsaved hissued

/-- A transaction that succeeded has done what its body does. -/
theorem tables_of_guarded_ok (he : Effect fails body n pre eff) {a : α}
    (hok : (guarded fails ends body c).1 = .ok a) :
    pre c.tables ∧ (guarded fails ends body c).2.tables = eff c.tables := by
  cases hb : begin fails c with
  | mk r c' =>
    cases r with
    | error e =>
      rw [guarded, run_bind_of_error hb] at hok
      cases hok
    | ok _ =>
      obtain rfl : opened c = c' := by
        unfold begin at hb
        split at hb
        · cases hb
        · split at hb
          · cases hb
          · exact (Prod.mk.inj hb).2
      rw [guarded, run_bind_of_ok hb] at hok ⊢
      unfold finish at hok ⊢
      cases hbody : body (opened c) with
      | mk r c' =>
        rw [hbody] at hok
        cases r with
        | error e => cases hok
        | ok a' =>
          obtain ⟨hq, hp⟩ := he.ready (opened c) a' (by rw [hbody])
          obtain ⟨a'', hdone⟩ := he.run (opened c) hq hp
          rw [hbody] at hdone
          obtain ⟨-, rfl⟩ := Prod.mk.inj hdone
          refine ⟨hp, ?_⟩
          unfold commitOr at hok ⊢
          dsimp only at hok ⊢
          cases hf : fails ((opened c).issued + n) with
          | true =>
            rw [hf] at hok
            cases hok
          | false => rfl

end Guarded

end Sql

end Midas
