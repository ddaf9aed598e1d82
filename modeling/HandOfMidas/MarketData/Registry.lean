import HandOfMidas.MarketData.Aggregator
import HandOfMidas.MarketData.Router

/-! The registry of aggregators (`aggregator/registry.rs`): one entry and one task for each symbol and
    timeframe, handles whose drop spawns a decrement, and a lock on the map that a subscriber holds from
    its lookup until it has its handle. The tasks wake up in between. Entries are numbered in the order
    of their creation. -/

namespace Midas.MarketData.Registry

open Aggregator

abbrev Key := SymbolKey × Timeframe

abbrev EntryId := ℕ

/-- `AggregatorEntry`, its task included. An entry that is dropped aborts its task, which is cancelled
    where it next waits. -/
structure Entry where
  key : Key
  refcount : ℕ
  task : Loop
  endReason : Option EndReason
  dropped : Bool
  cancelled : Bool

/-- A `SubscriptionHandle` given out, with the key that its guard names. -/
structure Handle where
  entry : EntryId
  key : Key
  live : Bool
  deriving DecidableEq

/-- The registry with its entries, handles, and the decrements that have been spawned. `lock` is the
    entry that the subscriber who holds the lock has found or inserted. -/
structure BarAggregatorRegistry where
  aggregators : Key → Option EntryId
  entries : EntryId → Entry
  nextEntry : EntryId
  handles : List Handle
  pending : List Key
  lock : Option EntryId

/-- Whether the router can still be reached, and opens an upstream when asked. -/
structure Answer where
  upgrades : Bool
  opens : Bool

namespace BarAggregatorRegistry

/-- There is no task behind an entry that does not exist yet. -/
def new : BarAggregatorRegistry where
  aggregators := fun _ => none
  entries := fun _ => ⟨(⟨0, ""⟩, .s5), 0, { Loop.new with returned := true }, none, false, false⟩
  nextEntry := 0
  handles := []
  pending := []
  lock := none

def onEntry (e : EntryId) (f : Entry → Entry) (s : BarAggregatorRegistry) : BarAggregatorRegistry :=
  { s with entries := Function.update s.entries e (f (s.entries e)) }

/-- A new entry in the map, its task spawned. -/
def insertEntry (key : Key) (s : BarAggregatorRegistry) : BarAggregatorRegistry :=
  { s with
    aggregators := Function.update s.aggregators key (some s.nextEntry)
    entries := Function.update s.entries s.nextEntry ⟨key, 0, Loop.new, none, false, false⟩
    nextEntry := s.nextEntry + 1 }

/-- `subscribe`, up to the entry. What is refused leaves nothing behind. -/
def subscribe (symbol : SymbolKey) (tf : Timeframe) (answer : Answer) (s : BarAggregatorRegistry) :
    BarAggregatorRegistry :=
  if s.lock.isSome then s
  else if isUnsupportedTf tf || !answer.upgrades then s
  else
    match s.aggregators (symbol, tf) with
    | some e => { s with lock := some e }
    | none =>
      if answer.opens then { s.insertEntry (symbol, tf) with lock := some s.nextEntry } else s

/-- The rest of `subscribe`: count the handle, release the lock and give the handle out. -/
def attach (s : BarAggregatorRegistry) : BarAggregatorRegistry :=
  match s.lock with
  | none => s
  | some e =>
    { s.onEntry e fun x => { x with refcount := x.refcount + 1 } with
      handles := s.handles ++ [⟨e, (s.entries e).key, true⟩]
      lock := none }

/-- Drop a live handle: `AggGuard::drop` spawns a decrement, if there is a runtime to spawn it on. -/
def dropHandle (i : ℕ) (runtime : Bool) (s : BarAggregatorRegistry) : BarAggregatorRegistry :=
  match s.handles[i]? with
  | none => s
  | some x =>
    if x.live then
      { s with
        handles := s.handles.set i { x with live := false }
        pending := if runtime then s.pending ++ [x.key] else s.pending }
    else s

/-- Take an entry out of the map, which drops it. -/
def removeEntry (key : Key) (e : EntryId) (s : BarAggregatorRegistry) : BarAggregatorRegistry :=
  { s.onEntry e fun x => { x with dropped := true } with
    aggregators := Function.update s.aggregators key none }

/-- A spawned decrement gets the lock. -/
def decrement (j : ℕ) (s : BarAggregatorRegistry) : BarAggregatorRegistry :=
  if s.lock.isSome then s
  else
    match s.pending[j]? with
    | none => s
    | some key =>
      let s := { s with pending := s.pending.eraseIdx j }
      match s.aggregators key with
      | none => s
      | some e =>
        let prev := (s.entries e).refcount
        let s := s.onEntry e fun x => { x with refcount := prev - 1 }
        if prev = 1 then s.removeEntry key e else s

/-- The live handles that hang on an entry. -/
def served (s : BarAggregatorRegistry) (e : EntryId) : ℕ :=
  s.handles.countP fun x => x.entry = e && x.live

/-- What a task sees when it wakes up: at a tick the handles of its entry, and receivers that hang on
    no handle. -/
def sees (s : BarAggregatorRegistry) (e : EntryId) : Event → Event
  | .tick others => .tick (s.served e + others)
  | event => event

/-- A task wakes up. -/
def wake (e : EntryId) (event : Event) (s : BarAggregatorRegistry) : BarAggregatorRegistry :=
  if (s.entries e).cancelled then s
  else
    s.onEntry e fun x => { x with task := Aggregator.step x.key.2 x.task (s.sees e event) }

/-- An aborted task is cancelled. -/
def cancel (e : EntryId) (s : BarAggregatorRegistry) : BarAggregatorRegistry :=
  if (s.entries e).dropped then s.onEntry e fun x => { x with cancelled := true } else s

end BarAggregatorRegistry

inductive Op where
  | subscribe (symbol : SymbolKey) (tf : Timeframe) (answer : Answer)
  | attach
  | drop (i : ℕ) (runtime : Bool)
  | decrement (j : ℕ)
  | wake (e : EntryId) (event : Event)
  | cancel (e : EntryId)

def step (s : BarAggregatorRegistry) : Op → BarAggregatorRegistry
  | .subscribe symbol tf answer => s.subscribe symbol tf answer
  | .attach => s.attach
  | .drop i runtime => s.dropHandle i runtime
  | .decrement j => s.decrement j
  | .wake e event => s.wake e event
  | .cancel e => s.cancel e

namespace BarAggregatorRegistry

/-! ### What holds in every run -/

/-- Entries in the map are under their own key and count at least their live handles and the decrements
    to come; live handles have theirs in the map, and so has the subscriber who holds the lock. -/
structure Sound (s : BarAggregatorRegistry) : Prop where
  mapped : ∀ key e, s.aggregators key = some e →
    e < s.nextEntry ∧ (s.entries e).key = key ∧ (s.entries e).dropped = false
  cancelled : ∀ e, (s.entries e).cancelled = true → (s.entries e).dropped = true
  handle : ∀ x ∈ s.handles, x.live = true → s.aggregators x.key = some x.entry
  counted : ∀ key e, s.aggregators key = some e →
    s.served e + s.pending.count key ≤ (s.entries e).refcount
  unmapped : ∀ key, s.aggregators key = none → s.pending.count key = 0
  lock : ∀ e, s.lock = some e → s.aggregators (s.entries e).key = some e
  endReason : ∀ e, (s.entries e).endReason = none

theorem sound_new : BarAggregatorRegistry.new.Sound :=
  ⟨nofun, nofun, nofun, nofun, fun _ _ => rfl, nofun, fun _ => rfl⟩

variable {s : BarAggregatorRegistry}

theorem served_eq_zero {e : EntryId} : s.served e = 0 ↔
    ∀ x ∈ s.handles, x.live = true → x.entry ≠ e := by
  rw [served, List.countP_eq_zero]
  constructor
  · intro h x hx hlive heq
    exact h x hx (by simp [hlive, heq])
  · intro h x hx hon
    simp only [Bool.and_eq_true, decide_eq_true_eq] at hon
    exact h x hx hon.2 hon.1

/-- A change of one entry that keeps its key, whether it is dropped, its count and its end reason. -/
theorem Sound.onEntry (hs : s.Sound) (e : EntryId) {f : Entry → Entry}
    (hkey : (f (s.entries e)).key = (s.entries e).key)
    (hdropped : (f (s.entries e)).dropped = (s.entries e).dropped)
    (hrefcount : (f (s.entries e)).refcount = (s.entries e).refcount)
    (hreason : (f (s.entries e)).endReason = (s.entries e).endReason)
    (hcancelled : (f (s.entries e)).cancelled = true → (s.entries e).dropped = true) :
    (s.onEntry e f).Sound := by
  have hentry : ∀ e', ((s.onEntry e f).entries e').key = (s.entries e').key ∧
      ((s.onEntry e f).entries e').dropped = (s.entries e').dropped ∧
      ((s.onEntry e f).entries e').refcount = (s.entries e').refcount ∧
      ((s.onEntry e f).entries e').endReason = (s.entries e').endReason ∧
      (((s.onEntry e f).entries e').cancelled = true → (s.entries e').dropped = true) := by
    intro e'
    rcases eq_or_ne e' e with rfl | hne
    · simp only [BarAggregatorRegistry.onEntry, Function.update_self]
      exact ⟨hkey, hdropped, hrefcount, hreason, hcancelled⟩
    · simpa [BarAggregatorRegistry.onEntry, hne] using hs.cancelled e'
  refine ⟨fun key e' hmap => ?_, fun e' h => ?_, hs.handle, fun key e' hmap => ?_, hs.unmapped,
    fun e' hlock => ?_, fun e' => ?_⟩
  · rw [(hentry e').1, (hentry e').2.1]
    exact hs.mapped key e' hmap
  · rw [(hentry e').2.1]
    exact (hentry e').2.2.2.2 h
  · rw [(hentry e').2.2.1]
    exact hs.counted key e' hmap
  · rw [(hentry e').1]
    exact hs.lock e' hlock
  · rw [(hentry e').2.2.2.1]
    exact hs.endReason e'

theorem Sound.wake (hs : s.Sound) (e : EntryId) (event : Event) : (s.wake e event).Sound := by
  unfold BarAggregatorRegistry.wake
  split
  · exact hs
  · exact hs.onEntry e rfl rfl rfl rfl (hs.cancelled e)

theorem Sound.cancel (hs : s.Sound) (e : EntryId) : (s.cancel e).Sound := by
  unfold BarAggregatorRegistry.cancel
  split
  · rename_i hdropped
    exact hs.onEntry e rfl rfl rfl rfl fun _ => hdropped
  · exact hs

/-- A live handle hangs on an entry that exists. -/
theorem Sound.served_of_le (hs : s.Sound) {e : EntryId} (he : s.nextEntry ≤ e) : s.served e = 0 := by
  refine served_eq_zero.mpr fun x hx hlive heq => ?_
  exact absurd (heq ▸ (hs.mapped _ _ (hs.handle x hx hlive)).1) (not_lt.mpr he)

theorem Sound.insertEntry (hs : s.Sound) {key : Key} (hnone : s.aggregators key = none) :
    (s.insertEntry key).Sound := by
  have hmapped : ∀ key' e, (s.insertEntry key).aggregators key' = some e →
      key' = key ∧ e = s.nextEntry ∨ key' ≠ key ∧ s.aggregators key' = some e ∧ e ≠ s.nextEntry := by
    intro key' e hmap
    simp only [BarAggregatorRegistry.insertEntry] at hmap
    rcases eq_or_ne key' key with rfl | hne
    · rw [Function.update_self] at hmap
      exact Or.inl ⟨rfl, (Option.some.inj hmap).symm⟩
    · rw [Function.update_of_ne hne] at hmap
      exact Or.inr ⟨hne, hmap, (hs.mapped _ _ hmap).1.ne⟩
  have hkept : ∀ key' e, s.aggregators key' = some e →
      (s.insertEntry key).aggregators key' = some e := by
    intro key' e hmap
    have hne : key' ≠ key := by
      rintro rfl
      rw [hnone] at hmap
      cases hmap
    simpa [BarAggregatorRegistry.insertEntry, hne] using hmap
  have hnew : (s.insertEntry key).entries s.nextEntry = ⟨key, 0, Loop.new, none, false, false⟩ :=
    Function.update_self ..
  have hold : ∀ e, e ≠ s.nextEntry → (s.insertEntry key).entries e = s.entries e := fun e he =>
    Function.update_of_ne he ..
  refine ⟨fun key' e hmap => ?_, fun e h => ?_, fun x hx hlive => hkept _ _ (hs.handle x hx hlive),
    fun key' e hmap => ?_, fun key' hmap => ?_, fun e hlock => ?_, fun e => ?_⟩
  · rcases hmapped key' e hmap with ⟨rfl, rfl⟩ | ⟨-, hmap', hne⟩
    · rw [hnew]
      exact ⟨Nat.lt_succ_self _, rfl, rfl⟩
    · rw [hold e hne]
      exact ⟨(hs.mapped key' e hmap').1.trans (Nat.lt_succ_self _), (hs.mapped key' e hmap').2⟩
  · rcases eq_or_ne e s.nextEntry with rfl | hne
    · rw [hnew] at h
      cases h
    · rw [hold e hne] at h ⊢
      exact hs.cancelled e h
  · rcases hmapped key' e hmap with ⟨rfl, rfl⟩ | ⟨-, hmap', hne⟩
    · rw [hnew]
      have hserved : (s.insertEntry key').served s.nextEntry = 0 := hs.served_of_le le_rfl
      have hpending : (s.insertEntry key').pending.count key' = 0 := hs.unmapped key' hnone
      rw [hserved, hpending]
    · rw [hold e hne]
      exact hs.counted key' e hmap'
  · simp only [BarAggregatorRegistry.insertEntry] at hmap
    rcases eq_or_ne key' key with rfl | hne
    · rw [Function.update_self] at hmap
      cases hmap
    · rw [Function.update_of_ne hne] at hmap
      exact hs.unmapped key' hmap
  · have hlock' := hs.lock e hlock
    rw [hold e (hs.mapped _ _ hlock').1.ne]
    exact hkept _ _ hlock'
  · rcases eq_or_ne e s.nextEntry with rfl | hne
    · rw [hnew]
    · rw [hold e hne]
      exact hs.endReason e

/-- The lock goes to a subscriber who has an entry of the map. -/
theorem Sound.withLock (hs : s.Sound) {key : Key} {e : EntryId} (hmap : s.aggregators key = some e) :
    ({ s with lock := some e } : BarAggregatorRegistry).Sound :=
  { hs with
    lock := fun e' hlock => by
      obtain rfl : e = e' := Option.some.inj hlock
      have hkey := (hs.mapped key e hmap).2.1
      show s.aggregators (s.entries e).key = some e
      rw [hkey]
      exact hmap }

theorem Sound.subscribe (hs : s.Sound) (symbol : SymbolKey) (tf : Timeframe) (answer : Answer) :
    (s.subscribe symbol tf answer).Sound := by
  unfold BarAggregatorRegistry.subscribe
  split
  · exact hs
  split
  · exact hs
  split
  · rename_i e hmap
    exact hs.withLock hmap
  · rename_i hnone
    split
    · exact (hs.insertEntry hnone).withLock (Function.update_self (symbol, tf) _ _)
    · exact hs

/-- A handle that is dropped no longer hangs on its entry. -/
theorem served_set {i : ℕ} {x : Handle} (hi : s.handles[i]? = some x) (hlive : x.live = true)
    (e : EntryId) :
    (s.handles.set i { x with live := false }).countP (fun x => x.entry = e && x.live) +
      (if x.entry = e then 1 else 0) = s.served e := by
  obtain ⟨hlt, hget⟩ := List.getElem?_eq_some_iff.mp hi
  have hpos : x.entry = e → 0 < s.served e := by
    rintro rfl
    exact List.countP_pos_iff.mpr ⟨x, List.mem_of_getElem? hi, by simp [hlive]⟩
  rw [List.countP_set hlt, hget]
  simp only [hlive, Bool.and_true, Bool.and_false, Bool.false_eq_true, if_false, decide_eq_true_eq]
  rw [served] at hpos ⊢
  split
  · have := hpos ‹_›
    omega
  · omega

/-- A handle hands its place in the count over to its decrement. -/
theorem Sound.dropHandle (hs : s.Sound) (i : ℕ) (runtime : Bool) : (s.dropHandle i runtime).Sound := by
  unfold BarAggregatorRegistry.dropHandle
  split
  · exact hs
  rename_i x hi
  split
  · rename_i hlive
    have hmap := hs.handle x (List.mem_of_getElem? hi) hlive
    have hpending : ∀ key, (if runtime = true then s.pending ++ [x.key] else s.pending).count key ≤
        s.pending.count key + if x.key = key then 1 else 0 := by
      intro key
      split
      · rw [List.count_append, List.count_singleton]
        simp
      · exact Nat.le_add_right _ _
    refine ⟨hs.mapped, hs.cancelled, fun y hy hylive => ?_, fun key e hmap' => ?_, fun key hnone => ?_,
      hs.lock, hs.endReason⟩
    · rcases List.mem_or_eq_of_mem_set hy with hy | rfl
      · exact hs.handle y hy hylive
      · cases hylive
    · have hcount := hs.counted key e hmap'
      have hserved := served_set hi hlive e
      have hmore := hpending key
      have hsame : x.key = key → x.entry = e := by
        rintro rfl
        exact Option.some.inj (hmap.symm.trans hmap')
      dsimp only [served] at hcount hserved ⊢
      by_cases hkey : x.key = key
      · rw [if_pos (hsame hkey)] at hserved
        rw [if_pos hkey] at hmore
        omega
      · rw [if_neg hkey] at hmore
        omega
    · have hne : x.key ≠ key := by
        rintro rfl
        rw [hmap] at hnone
        cases hnone
      have hmore := hpending key
      rw [if_neg hne, hs.unmapped key hnone] at hmore
      exact Nat.eq_zero_of_le_zero hmore
  · exact hs

/-- A decrement that is taken out of those to come. -/
theorem count_eraseIdx {pending : List Key} {j : ℕ} {key : Key} (hj : pending[j]? = some key)
    (key' : Key) :
    pending.count key' = (pending.eraseIdx j).count key' + if key = key' then 1 else 0 := by
  obtain ⟨hlt, rfl⟩ := List.getElem?_eq_some_iff.mp hj
  rw [← (List.getElem_cons_eraseIdx_perm hlt).count_eq, List.count_cons]
  simp only [beq_iff_eq]

theorem Sound.takePending (hs : s.Sound) {pending : List Key}
    (hpending : ∀ key, pending.count key ≤ s.pending.count key) :
    ({ s with pending := pending } : BarAggregatorRegistry).Sound :=
  { hs with
    counted := fun key e hmap => (Nat.add_le_add_left (hpending key) _).trans (hs.counted key e hmap)
    unmapped := fun key hnone =>
      Nat.eq_zero_of_le_zero ((hpending key).trans (hs.unmapped key hnone).le) }

theorem Sound.recount (hs : s.Sound) {key : Key} {e : EntryId} (hmap : s.aggregators key = some e)
    {n : ℕ}
    (hn : s.served e + s.pending.count key ≤ n) :
    (s.onEntry e fun x => { x with refcount := n }).Sound := by
  have hentry : ∀ e', (s.onEntry e fun x => { x with refcount := n }).entries e' =
      { s.entries e' with refcount := if e' = e then n else (s.entries e').refcount } := by
    intro e'
    rcases eq_or_ne e' e with rfl | hne
    · simp [BarAggregatorRegistry.onEntry]
    · simp [BarAggregatorRegistry.onEntry, hne]
  refine ⟨fun key' e' hmap' => ?_, fun e' h => ?_, hs.handle, fun key' e' hmap' => ?_, hs.unmapped,
    fun e' hlock => ?_, fun e' => ?_⟩
  · rw [hentry]
    exact hs.mapped key' e' hmap'
  · rw [hentry] at h ⊢
    exact hs.cancelled e' h
  · rw [hentry]
    dsimp only
    split
    · rename_i heq
      subst heq
      obtain rfl : key' = key := (hs.mapped _ _ hmap').2.1.symm.trans (hs.mapped _ _ hmap).2.1
      exact hn
    · exact hs.counted key' e' hmap'
  · rw [hentry]
    exact hs.lock e' hlock
  · rw [hentry]
    exact hs.endReason e'

/-- A handle is given out where its entry counts it already. -/
theorem Sound.giveHandle (hs : s.Sound) {key : Key} {e : EntryId} (hmap : s.aggregators key = some e)
    (hcount : s.served e + 1 + s.pending.count key ≤ (s.entries e).refcount) :
    ({ s with
      handles := s.handles ++ [⟨e, key, true⟩], lock := none } : BarAggregatorRegistry).Sound := by
  refine { hs with handle := fun x hx hlive => ?_, counted := fun key' e' hmap' => ?_, lock := nofun }
  · rcases List.mem_append.mp hx with hx | hx
    · exact hs.handle x hx hlive
    · rw [List.mem_singleton.mp hx]
      exact hmap
  · have hold := hs.counted key' e' hmap'
    simp only [served, List.countP_append, List.countP_singleton, Bool.and_true, decide_eq_true_eq]
    split
    · rename_i heq
      subst heq
      obtain rfl : key' = key := (hs.mapped _ _ hmap').2.1.symm.trans (hs.mapped _ _ hmap).2.1
      exact hcount
    · exact hold

theorem Sound.attach (hs : s.Sound) : s.attach.Sound := by
  unfold BarAggregatorRegistry.attach
  split
  · exact hs
  rename_i e hlock
  have hmap := hs.lock e hlock
  have hle := hs.counted _ e hmap
  have hcounted := hs.recount hmap (Nat.le_succ_of_le hle)
  refine hcounted.giveHandle hmap ?_
  have hrefcount :
    ((s.onEntry e fun x => { x with refcount := (s.entries e).refcount + 1 }).entries e).refcount =
      (s.entries e).refcount + 1 := by
    simp [BarAggregatorRegistry.onEntry]
  rw [hrefcount]
  show s.served e + 1 + s.pending.count _ ≤ _
  omega

/-- An entry that counts nothing may go: no live handle hangs on it, and no decrement is to come. -/
theorem Sound.removeEntry (hs : s.Sound) {key : Key} {e : EntryId} (hmap : s.aggregators key = some e)
    (hzero : (s.entries e).refcount = 0) (hfree : s.lock = none) : (s.removeEntry key e).Sound := by
  have hcount := hs.counted key e hmap
  have hmapped : ∀ key' e', (s.removeEntry key e).aggregators key' = some e' →
      s.aggregators key' = some e' ∧ e' ≠ e := by
    intro key' e' hmap'
    simp only [BarAggregatorRegistry.removeEntry] at hmap'
    rcases eq_or_ne key' key with rfl | hne
    · rw [Function.update_self] at hmap'
      cases hmap'
    · rw [Function.update_of_ne hne] at hmap'
      refine ⟨hmap', ?_⟩
      rintro rfl
      exact hne ((hs.mapped _ _ hmap').2.1.symm.trans (hs.mapped _ _ hmap).2.1)
  have hold : ∀ e', e' ≠ e → (s.removeEntry key e).entries e' = s.entries e' := fun e' he =>
    Function.update_of_ne he ..
  have hgone : (s.removeEntry key e).entries e = { s.entries e with dropped := true } :=
    Function.update_self ..
  refine ⟨fun key' e' hmap' => ?_, fun e' h => ?_, fun x hx hlive => ?_, fun key' e' hmap' => ?_,
    fun key' hnone => ?_, fun e' hlock => ?_, fun e' => ?_⟩
  · obtain ⟨hmap', hne⟩ := hmapped key' e' hmap'
    rw [hold e' hne]
    exact hs.mapped key' e' hmap'
  · rcases eq_or_ne e' e with rfl | hne
    · rw [hgone]
    · rw [hold e' hne] at h ⊢
      exact hs.cancelled e' h
  · have hx' := hs.handle x hx hlive
    have hne : x.key ≠ key := by
      intro heq
      rw [heq, hmap] at hx'
      have hserved : s.served e = 0 := by omega
      exact served_eq_zero.mp hserved x hx hlive (Option.some.inj hx').symm
    simpa [BarAggregatorRegistry.removeEntry, hne] using hx'
  · obtain ⟨hmap', hne⟩ := hmapped key' e' hmap'
    rw [hold e' hne]
    exact hs.counted key' e' hmap'
  · rcases eq_or_ne key' key with rfl | hne
    · have hnothing : s.pending.count key' = 0 := by omega
      exact hnothing
    · refine hs.unmapped key' ?_
      simpa [BarAggregatorRegistry.removeEntry, hne] using hnone
  · have hlock : s.lock = some e' := hlock
    rw [hfree] at hlock
    cases hlock
  · rcases eq_or_ne e' e with rfl | hne
    · rw [hgone]
      exact hs.endReason e'
    · rw [hold e' hne]
      exact hs.endReason e'

/-- A decrement takes one of an entry's count, as it is one of those to come; the last one takes the
    entry out of the map. -/
theorem Sound.decrement (hs : s.Sound) (j : ℕ) : (s.decrement j).Sound := by
  unfold BarAggregatorRegistry.decrement
  split
  · exact hs
  rename_i hfree
  have hfree : s.lock = none := by simpa using hfree
  split
  · exact hs
  rename_i key hj
  have hcount := count_eraseIdx hj
  have htaken : ({ s with pending := s.pending.eraseIdx j } : BarAggregatorRegistry).Sound :=
    hs.takePending fun key' => (hcount key').symm ▸ Nat.le_add_right _ _
  cases hmap : s.aggregators key with
  | none => simpa only [hmap] using htaken
  | some e =>
    simp only [hmap]
    have hle := hs.counted key e hmap
    have hown := hcount key
    rw [if_pos rfl] at hown
    have hn : s.served e + (s.pending.eraseIdx j).count key ≤ (s.entries e).refcount - 1 := by omega
    have hcounted := htaken.recount hmap hn
    split
    · rename_i hone
      refine hcounted.removeEntry hmap ?_ hfree
      simp [BarAggregatorRegistry.onEntry, hone]
    · exact hcounted

theorem Sound.step (hs : s.Sound) (op : Op) : (Registry.step s op).Sound := by
  cases op with
  | subscribe symbol tf answer => exact hs.subscribe symbol tf answer
  | attach => exact hs.attach
  | drop i runtime => exact hs.dropHandle i runtime
  | decrement j => exact hs.decrement j
  | wake e event => exact hs.wake e event
  | cancel e => exact hs.cancel e

end BarAggregatorRegistry

end Midas.MarketData.Registry
