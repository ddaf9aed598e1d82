import HandOfMidas.Core.Duration
import HandOfMidas.Lib.Heap
import HandOfMidas.Lib.Run
import Mathlib.Data.Finset.Insert
import Mathlib.Data.Prod.Lex
import Mathlib.Order.Lattice

/-! The virtual clock of the IB simulator (`engine/clock.rs`). A sleeper whose deadline is still to
    come waits in a heap, by deadline and then by registration; `advance` wakes all that are due,
    `advance_to_next_event` the first one. Beside the clock stand the sleepers: which were ever
    parked, which gave up waiting, and which were woken, in the order in which they were. -/

namespace Midas.Clock

/-- `VirtualInstant`: the duration since the session started. -/
abbrev VirtualInstant := Duration

/-- `Waiter`. Its channel belongs to the sleeper registered with number `seq`. -/
structure Waiter where
  deadline : VirtualInstant
  seq : ℕ
  deriving DecidableEq

/-- Waiters are ordered by deadline, and those of one deadline by registration. -/
def Waiter.key (w : Waiter) : ℕ ×ₗ ℕ := toLex (w.deadline.1, w.seq)

theorem Waiter.key_injective : Function.Injective Waiter.key := by
  rintro ⟨⟨d, hd⟩, n⟩ ⟨⟨d', hd'⟩, n'⟩ h
  obtain ⟨rfl, rfl⟩ := Prod.mk.inj (toLex.injective h)
  rfl

instance : LinearOrder Waiter := LinearOrder.lift' Waiter.key Waiter.key_injective

theorem Waiter.lt_iff {v w : Waiter} :
    v < w ↔ v.deadline < w.deadline ∨ v.deadline = w.deadline ∧ v.seq < w.seq := by
  rw [← Subtype.coe_lt_coe, Subtype.ext_iff]
  exact Prod.Lex.lt_iff

theorem Waiter.le_iff {v w : Waiter} :
    v ≤ w ↔ v.deadline < w.deadline ∨ v.deadline = w.deadline ∧ v.seq ≤ w.seq := by
  rw [← Subtype.coe_lt_coe, Subtype.ext_iff]
  exact Prod.Lex.le_iff

theorem Waiter.deadline_le {v w : Waiter} (h : v ≤ w) : v.deadline ≤ w.deadline := by
  rcases Waiter.le_iff.mp h with h | ⟨h, _⟩
  · exact h.le
  · exact h.le

/-- `VirtualClockState`. -/
structure VirtualClock where
  now : VirtualInstant
  waiters : Heap Waiter
  nextSeq : ℕ

namespace VirtualClock

def new : VirtualClock := ⟨⟨0, Nat.zero_le _⟩, .empty, 0⟩

/-- `advance`: the waiters on whose channels it sends, in order, and the clock it leaves. Time goes
    from one deadline to the next, and at the end to `target`. -/
def advance (target : VirtualInstant) (c : VirtualClock) : List Waiter × VirtualClock :=
  let popped := c.waiters.popWhile fun top => decide (top.deadline ≤ target)
  let now := popped.1.foldl (fun _ waiter => waiter.deadline) c.now
  (popped.1, { c with now := if now < target then target else now, waiters := popped.2 })

def advanceToNextEvent (c : VirtualClock) : List Waiter × VirtualClock :=
  match c.waiters.pop with
  | some (waiter, rest) => ([waiter], { c with now := waiter.deadline, waiters := rest })
  | none => ([], c)

/-- `sleep_until`: the waiter it parks, if the deadline is still to come. -/
def sleepUntil (deadline : VirtualInstant) (c : VirtualClock) : Option Waiter × VirtualClock :=
  if deadline ≤ c.now then (none, c)
  else
    let waiter : Waiter := ⟨deadline, c.nextSeq⟩
    (some waiter, { c with nextSeq := c.nextSeq + 1, waiters := c.waiters.push waiter })

/-- `sleep`, when no other call comes between its two locks: else it is `sleepUntil` with the
    deadline that it has read. -/
def sleep (duration : Duration) (c : VirtualClock) : Option Waiter × VirtualClock :=
  c.sleepUntil (saturatingAdd c.now duration)

end VirtualClock

/-! ### The clock and its sleepers -/

/-- What can happen to the clock: a task goes to sleep, the task of a sleeper is dropped, and the
    test driver moves time. -/
inductive Op where
  | sleepUntil (deadline : VirtualInstant)
  | sleep (duration : Duration)
  | drop (sleeper : ℕ)
  | advance (target : VirtualInstant)
  | advanceToNextEvent

/-- The clock, and what became of its sleepers: all that were parked, those dropped while they
    waited, those woken, and those whose turn came by `advance_to_next_event`. -/
structure Watched where
  clock : VirtualClock
  parked : List Waiter
  dropped : Finset ℕ
  woken : List Waiter
  singled : List Waiter

namespace Watched

def new : Watched := ⟨.new, [], ∅, [], []⟩

/-- The waiters in the heap. -/
def waiting (s : Watched) : List Waiter := s.clock.waiters.items

def register (s : Watched) (done : Option Waiter × VirtualClock) : Watched :=
  { s with clock := done.2, parked := s.parked ++ done.1.toList }

/-- A send reaches the sleeper if its task is still there. -/
def fire (s : Watched) (done : List Waiter × VirtualClock) : Watched :=
  { s with clock := done.2, woken := s.woken ++ done.1.filter fun w => w.seq ∉ s.dropped }

end Watched

def step (s : Watched) : Op → Watched
  | .sleepUntil deadline => s.register (s.clock.sleepUntil deadline)
  | .sleep duration => s.register (s.clock.sleep duration)
  | .drop sleeper =>
    if ∃ w ∈ s.waiting, w.seq = sleeper then { s with dropped := insert sleeper s.dropped } else s
  | .advance target => s.fire (s.clock.advance target)
  | .advanceToNextEvent =>
    { s.fire s.clock.advanceToNextEvent with singled := s.singled ++ s.clock.advanceToNextEvent.1 }

example : ((run step .new [.sleepUntil ⟨7, by decide⟩, .sleepUntil ⟨5, by decide⟩,
    .advance ⟨9, by decide⟩]).woken.map Waiter.seq) = [1, 0] := by decide +kernel

end Midas.Clock
