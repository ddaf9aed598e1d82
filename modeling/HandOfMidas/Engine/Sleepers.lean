import HandOfMidas.Engine.Clock

/-! What the virtual clock promises its sleepers, over every interleaving of sleepers and of the
    test driver. The heap is one queue for the whole run: whoever was woken came before all who
    wait, and the clock stands between them. The one exception to waiting for a later time is a
    tie: `advance_to_next_event` fires one waiter and leaves those of the same deadline behind. -/

namespace Midas.Clock

/-- An earlier sleeper with this deadline had its turn by `advance_to_next_event`. -/
def LeftBehind (singled : List Waiter) (w : Waiter) : Prop :=
  ∃ v ∈ singled, v.deadline = w.deadline ∧ v.seq < w.seq

/-- The sleepers of a run: where they wait, and who was woken. -/
structure Sound (s : Watched) : Prop where
  waits : ∀ w ∈ s.waiting,
    s.clock.now < w.deadline ∨ s.clock.now = w.deadline ∧ LeftBehind s.singled w
  nodup : s.waiting.Nodup
  fresh : ∀ w ∈ s.parked, w.seq < s.clock.nextSeq
  distinct : ∀ v ∈ s.parked, ∀ w ∈ s.parked, v.seq = w.seq → v = w
  accounted : ∀ w ∈ s.parked, w ∈ s.waiting ∨ w.seq ∈ s.dropped ∨ w ∈ s.woken
  waiting_parked : ∀ w ∈ s.waiting, w ∈ s.parked
  woken_parked : ∀ w ∈ s.woken, w ∈ s.parked
  woken_alive : ∀ w ∈ s.woken, w.seq ∉ s.dropped
  past : ∀ v ∈ s.woken, v.deadline ≤ s.clock.now
  before : ∀ v ∈ s.woken, ∀ w ∈ s.waiting, v < w
  order : s.woken.Pairwise (· < ·)

theorem sound_new : Sound .new where
  waits := fun _ h => absurd h List.not_mem_nil
  nodup := List.nodup_nil
  fresh := fun _ h => absurd h List.not_mem_nil
  distinct := fun _ h => absurd h List.not_mem_nil
  accounted := fun _ h => absurd h List.not_mem_nil
  waiting_parked := fun _ h => absurd h List.not_mem_nil
  woken_parked := fun _ h => absurd h List.not_mem_nil
  woken_alive := fun _ h => absurd h List.not_mem_nil
  past := fun _ h => absurd h List.not_mem_nil
  before := fun _ h => absurd h List.not_mem_nil
  order := .nil

variable {s : Watched}

theorem Sound.now_le (h : Sound s) {w : Waiter} (hw : w ∈ s.waiting) : s.clock.now ≤ w.deadline := by
  rcases h.waits w hw with hlt | ⟨heq, _⟩
  · exact hlt.le
  · exact heq.le

/-- The heap holds no waiter twice, so it is strictly sorted. -/
theorem Sound.strict (h : Sound s) : s.waiting.Pairwise (· < ·) :=
  (s.clock.waiters.sorted.and h.nodup).imp fun hvw => lt_of_le_of_ne hvw.1 hvw.2

/-! ### Firing -/

/-- A call fires the waiters it takes off the top of the heap, in order, and time goes to their
    deadlines or beyond. -/
structure Fires (c : VirtualClock) (done : List Waiter × VirtualClock) : Prop where
  split : done.1 ++ done.2.waiters.items = c.waiters.items
  nextSeq : done.2.nextSeq = c.nextSeq
  now_le : c.now ≤ done.2.now
  due : ∀ w ∈ done.1, w.deadline ≤ done.2.now

theorem foldl_deadline (ws : List Waiter) (now : VirtualInstant) :
    ws = [] ∧ ws.foldl (fun _ waiter => waiter.deadline) now = now ∨
      ∃ w ∈ ws, ws.foldl (fun _ waiter => waiter.deadline) now = w.deadline := by
  induction ws generalizing now with
  | nil => exact Or.inl ⟨rfl, rfl⟩
  | cons w ws ih =>
    rcases ih w.deadline with ⟨rfl, heq⟩ | ⟨v, hv, heq⟩
    · exact Or.inr ⟨w, List.mem_singleton_self w, heq⟩
    · exact Or.inr ⟨v, List.mem_cons_of_mem w hv, heq⟩

/-- Being due is closed downwards. -/
theorem due_closed (target : VirtualInstant) (v w : Waiter) (hvw : v ≤ w)
    (hw : decide (w.deadline ≤ target) = true) : decide (v.deadline ≤ target) = true :=
  decide_eq_true ((Waiter.deadline_le hvw).trans (of_decide_eq_true hw))

theorem mem_advance {c : VirtualClock} {target : VirtualInstant} {w : Waiter} :
    w ∈ (c.advance target).1 ↔ w ∈ c.waiters.items ∧ w.deadline ≤ target := by
  refine (Heap.mem_popped (due_closed target)).trans (and_congr_right fun _ => ?_)
  exact decide_eq_true_iff

theorem mem_left_of_advance {c : VirtualClock} {target : VirtualInstant} {w : Waiter} :
    w ∈ (c.advance target).2.waiters.items ↔ w ∈ c.waiters.items ∧ target < w.deadline := by
  refine (Heap.mem_left (due_closed target)).trans (and_congr_right fun _ => ?_)
  rw [decide_eq_false_iff_not, not_le]

/-- Time goes to `target`, and never back. -/
theorem now_advance {c : VirtualClock} (h : ∀ w ∈ c.waiters.items, c.now ≤ w.deadline)
    (target : VirtualInstant) : (c.advance target).2.now = max c.now target := by
  have hmem : ∀ w, w ∈ (c.advance target).1 ↔ w ∈ c.waiters.items ∧ w.deadline ≤ target :=
    fun w => mem_advance
  unfold VirtualClock.advance at hmem ⊢
  dsimp only at hmem ⊢
  rcases foldl_deadline (c.waiters.popWhile fun top => decide (top.deadline ≤ target)).1 c.now with
    ⟨_, heq⟩ | ⟨w, hw, heq⟩
  · rw [heq]
    split
    · rename_i hlt
      exact (max_eq_right hlt.le).symm
    · rename_i hlt
      exact (max_eq_left (not_lt.mp hlt)).symm
  · obtain ⟨hwaits, hdue⟩ := (hmem w).mp hw
    rw [heq, max_eq_right ((h w hwaits).trans hdue)]
    split
    · rfl
    · rename_i hlt
      exact le_antisymm hdue (not_lt.mp hlt)

theorem fires_advance {c : VirtualClock} (h : ∀ w ∈ c.waiters.items, c.now ≤ w.deadline)
    (target : VirtualInstant) : Fires c (c.advance target) := by
  refine ⟨Heap.popWhile_append _ _, rfl, ?_, fun w hw => ?_⟩
  · rw [now_advance h]
    exact le_max_left _ _
  · rw [now_advance h]
    exact (mem_advance.mp hw).2.trans (le_max_right _ _)

/-- The call takes the first waiter, if there is one. -/
theorem advanceToNextEvent_spec (c : VirtualClock) :
    c.waiters.items = [] ∧ c.advanceToNextEvent = ([], c) ∨
      ∃ w rest, c.waiters.items = w :: rest.items ∧ (∀ v ∈ rest.items, w ≤ v) ∧
        c.advanceToNextEvent = ([w], { c with now := w.deadline, waiters := rest }) := by
  unfold VirtualClock.advanceToNextEvent
  cases hp : c.waiters.pop with
  | none => exact Or.inl ⟨Heap.pop_eq_none.mp hp, rfl⟩
  | some r => exact Or.inr ⟨r.1, r.2, Heap.items_of_pop hp, Heap.le_of_pop hp, rfl⟩

theorem fires_advanceToNextEvent {c : VirtualClock}
    (h : ∀ w ∈ c.waiters.items, c.now ≤ w.deadline) : Fires c c.advanceToNextEvent := by
  rcases advanceToNextEvent_spec c with ⟨hnil, heq⟩ | ⟨w, rest, hitems, _, heq⟩
  · rw [heq]
    exact ⟨rfl, rfl, le_rfl, fun _ hw => absurd hw List.not_mem_nil⟩
  · rw [heq]
    refine ⟨hitems.symm, rfl, h w (hitems ▸ List.mem_cons_self), fun v hv => ?_⟩
    rw [List.mem_singleton.mp hv]

/-- A call that fires keeps the sleepers sound, if those who go on waiting wait for a later time. -/
theorem Sound.fire (h : Sound s) {done : List Waiter × VirtualClock} (hf : Fires s.clock done)
    {singled : List Waiter} (hwaits : ∀ w ∈ done.2.waiters.items,
      done.2.now < w.deadline ∨ done.2.now = w.deadline ∧ LeftBehind singled w) :
    Sound { s.fire done with singled := singled } := by
  have hmem : ∀ w, w ∈ s.waiting ↔ w ∈ done.1 ∨ w ∈ done.2.waiters.items := by
    intro w
    rw [Watched.waiting, ← hf.split, List.mem_append]
  have hstrict : (done.1 ++ done.2.waiters.items).Pairwise (· < ·) := by
    rw [hf.split]
    exact h.strict
  obtain ⟨hfired, _, hcross⟩ := List.pairwise_append.mp hstrict
  have hwoken : ∀ w, w ∈ s.woken ++ done.1.filter (fun w => w.seq ∉ s.dropped) ↔
      w ∈ s.woken ∨ w ∈ done.1 ∧ w.seq ∉ s.dropped := by simp
  constructor
  · exact hwaits
  · have hrest : (done.1 ++ done.2.waiters.items).Nodup := hf.split ▸ h.nodup
    exact hrest.sublist (List.sublist_append_right _ _)
  · exact fun w hw => hf.nextSeq ▸ h.fresh w hw
  · exact h.distinct
  · intro w hw
    rcases h.accounted w hw with hwait | hdropped | hwoke
    · rcases (hmem w).mp hwait with hdone | hleft
      · by_cases hd : w.seq ∈ s.dropped
        · exact Or.inr (Or.inl hd)
        · exact Or.inr (Or.inr ((hwoken w).mpr (Or.inr ⟨hdone, hd⟩)))
      · exact Or.inl hleft
    · exact Or.inr (Or.inl hdropped)
    · exact Or.inr (Or.inr ((hwoken w).mpr (Or.inl hwoke)))
  · exact fun w hw => h.waiting_parked w ((hmem w).mpr (Or.inr hw))
  · intro w hw
    rcases (hwoken w).mp hw with hw | ⟨hw, _⟩
    · exact h.woken_parked w hw
    · exact h.waiting_parked w ((hmem w).mpr (Or.inl hw))
  · intro w hw
    rcases (hwoken w).mp hw with hw | ⟨_, hd⟩
    · exact h.woken_alive w hw
    · exact hd
  · intro w hw
    rcases (hwoken w).mp hw with hw | ⟨hw, _⟩
    · exact (h.past w hw).trans hf.now_le
    · exact hf.due w hw
  · intro v hv w hw
    rcases (hwoken v).mp hv with hv | ⟨hv, _⟩
    · exact h.before v hv w ((hmem w).mpr (Or.inr hw))
    · exact hcross v hv w hw
  · refine List.pairwise_append.mpr ⟨h.order, hfired.sublist List.filter_sublist, ?_⟩
    intro v hv w hw
    exact h.before v hv w ((hmem w).mpr (Or.inl (List.mem_of_mem_filter hw)))

theorem Sound.advance (h : Sound s) (target : VirtualInstant) : Sound (step s (.advance target)) := by
  refine h.fire (fires_advance (fun _ => h.now_le) target) fun w hw => ?_
  obtain ⟨hwait, hlater⟩ := mem_left_of_advance.mp hw
  rw [now_advance fun _ => h.now_le]
  rcases h.waits w hwait with hlt | ⟨heq, hleft⟩
  · exact Or.inl (max_lt hlt hlater)
  · refine Or.inr ⟨?_, hleft⟩
    rw [max_eq_left (heq ▸ hlater.le), heq]

theorem Sound.advanceToNextEvent (h : Sound s) : Sound (step s .advanceToNextEvent) := by
  refine h.fire (fires_advanceToNextEvent fun _ => h.now_le) fun w hw => ?_
  rcases advanceToNextEvent_spec s.clock with ⟨hnil, heq⟩ | ⟨v, rest, hitems, hleast, heq⟩
  · rw [heq] at hw
    exact absurd (hnil ▸ hw) List.not_mem_nil
  · rw [heq] at hw ⊢
    have hne : v ≠ w := by
      have hnodup : (v :: rest.items).Nodup := hitems ▸ h.nodup
      rintro rfl
      exact (List.nodup_cons.mp hnodup).1 hw
    rcases Waiter.lt_iff.mp (lt_of_le_of_ne (hleast w hw) hne) with hlt | ⟨hdeadline, hseq⟩
    · exact Or.inl hlt
    · exact Or.inr ⟨hdeadline, v, List.mem_append_right _ (List.mem_singleton_self v), hdeadline, hseq⟩

/-! ### Going to sleep and giving up -/

theorem Sound.register (h : Sound s) (deadline : VirtualInstant) :
    Sound (s.register (s.clock.sleepUntil deadline)) := by
  unfold VirtualClock.sleepUntil
  split
  · refine { h with
      fresh := ?_, distinct := ?_, accounted := ?_, waiting_parked := ?_, woken_parked := ?_ }
    all_goals simp only [Watched.register, Option.toList_none, List.append_nil]
    · exact h.fresh
    · exact h.distinct
    · exact h.accounted
    · exact h.waiting_parked
    · exact h.woken_parked
  · rename_i hlater
    rw [not_le] at hlater
    have hpush : ∀ w, w ∈ (s.clock.waiters.push ⟨deadline, s.clock.nextSeq⟩).items ↔
        w = ⟨deadline, s.clock.nextSeq⟩ ∨ w ∈ s.waiting := fun w => Heap.mem_push
    have hparked : ∀ w, w ∈ s.parked ++ [(⟨deadline, s.clock.nextSeq⟩ : Waiter)] ↔
        w ∈ s.parked ∨ w = ⟨deadline, s.clock.nextSeq⟩ := by simp
    constructor
    · intro w hw
      rcases (hpush w).mp hw with rfl | hw
      · exact Or.inl hlater
      · exact h.waits w hw
    · refine (List.perm_orderedInsert _ _ _).nodup_iff.mpr
        (List.nodup_cons.mpr ⟨fun hmem => ?_, h.nodup⟩)
      exact absurd (h.fresh _ (h.waiting_parked _ hmem)) (lt_irrefl _)
    · intro w hw
      rcases (hparked w).mp hw with hw | rfl
      · exact Nat.lt_succ_of_lt (h.fresh w hw)
      · exact Nat.lt_succ_self _
    · intro v hv w hw hseq
      rcases (hparked v).mp hv with hv | rfl
      · rcases (hparked w).mp hw with hw | rfl
        · exact h.distinct v hv w hw hseq
        · exact absurd hseq (h.fresh v hv).ne
      · rcases (hparked w).mp hw with hw | rfl
        · exact absurd hseq.symm (h.fresh w hw).ne
        · rfl
    · intro w hw
      rcases (hparked w).mp hw with hw | rfl
      · exact (h.accounted w hw).imp (fun hwait => (hpush w).mpr (Or.inr hwait)) id
      · exact Or.inl ((hpush _).mpr (Or.inl rfl))
    · intro w hw
      rcases (hpush w).mp hw with rfl | hw
      · exact (hparked _).mpr (Or.inr rfl)
      · exact (hparked w).mpr (Or.inl (h.waiting_parked w hw))
    · exact fun w hw => (hparked w).mpr (Or.inl (h.woken_parked w hw))
    · exact h.woken_alive
    · exact h.past
    · intro v hv w hw
      rcases (hpush w).mp hw with rfl | hw
      · exact Waiter.lt_iff.mpr (Or.inl ((h.past v hv).trans_lt hlater))
      · exact h.before v hv w hw
    · exact h.order

theorem Sound.drop (h : Sound s) (sleeper : ℕ) : Sound (step s (.drop sleeper)) := by
  unfold step
  dsimp only
  split
  · rename_i hwaits
    obtain ⟨w, hw, rfl⟩ := hwaits
    refine { h with accounted := fun v hv => ?_, woken_alive := fun v hv hd => ?_ }
    · exact (h.accounted v hv).imp id (Or.imp (Finset.mem_insert_of_mem ·) id)
    · rcases Finset.mem_insert.mp hd with hseq | hd
      · -- A sleeper that was woken waits no more, so it is not the one dropped.
        have hvw := h.distinct v (h.woken_parked v hv) w (h.waiting_parked w hw) hseq
        exact absurd (hvw ▸ h.before v hv w hw) (lt_irrefl _)
      · exact h.woken_alive v hv hd
  · exact h

theorem sound_step (s : Watched) (op : Op) (h : Sound s) : Sound (step s op) := by
  cases op with
  | sleepUntil deadline => exact h.register deadline
  | sleep duration => exact h.register _
  | drop sleeper => exact h.drop sleeper
  | advance target => exact h.advance target
  | advanceToNextEvent => exact h.advanceToNextEvent

/-! ### The promise -/

/-- The turn of a sleeper that waits: the call takes the clock to its deadline or beyond, and where
    it takes one waiter only, this is the first one. -/
def Turn (s : Watched) (w : Waiter) : Op → Prop
  | .advance target => w.deadline ≤ target
  | .advanceToNextEvent => ∀ v ∈ s.waiting, w ≤ v
  | _ => False

/-- What the clock promises in a state and for the next call. -/
structure Faithful (s : Watched) (op : Op) : Prop where
  monotone : s.clock.now ≤ (step s op).clock.now
  later : ∀ w ∈ s.waiting,
    s.clock.now < w.deadline ∨ s.clock.now = w.deadline ∧ LeftBehind s.singled w
  once : ∀ w ∈ s.parked, s.woken.count w = if w ∈ s.waiting ∨ w.seq ∈ s.dropped then 0 else 1
  first : ∀ w ∈ s.waiting, w.seq ∉ s.dropped →
    s.clock.now < w.deadline → w.deadline ≤ (step s op).clock.now →
      w ∈ (step s op).woken ∨
        op = .advanceToNextEvent ∧ ∃ v ∈ s.waiting, v.deadline = w.deadline ∧ v.seq < w.seq
  turn : ∀ w ∈ s.waiting, w.seq ∉ s.dropped → (w ∈ (step s op).woken ↔ Turn s w op)
  past : ∀ w ∈ s.woken, w.deadline ≤ s.clock.now
  order : s.woken.Pairwise (· < ·)

theorem Sound.monotone (h : Sound s) (op : Op) : s.clock.now ≤ (step s op).clock.now := by
  have hsleep : ∀ deadline, s.clock.now ≤ (s.clock.sleepUntil deadline).2.now := by
    intro deadline
    unfold VirtualClock.sleepUntil
    split <;> exact le_rfl
  cases op with
  | sleepUntil deadline => exact hsleep deadline
  | sleep duration => exact hsleep _
  | drop sleeper =>
    unfold step
    dsimp only
    split <;> exact le_rfl
  | advance target => exact (fires_advance (fun _ => h.now_le) target).now_le
  | advanceToNextEvent => exact (fires_advanceToNextEvent fun _ => h.now_le).now_le

theorem Sound.once (h : Sound s) {w : Waiter} (hw : w ∈ s.parked) :
    s.woken.count w = if w ∈ s.waiting ∨ w.seq ∈ s.dropped then 0 else 1 := by
  have hnodup : s.woken.Nodup := h.order.imp ne_of_lt
  split
  · rename_i hcase
    refine List.count_eq_zero_of_not_mem fun hwoke => ?_
    rcases hcase with hwait | hd
    · exact absurd (h.before w hwoke w hwait) (lt_irrefl w)
    · exact h.woken_alive w hwoke hd
  · rename_i hcase
    obtain ⟨hwait, hd⟩ := not_or.mp hcase
    have hwoke := ((h.accounted w hw).resolve_left hwait).resolve_left hd
    exact List.count_eq_one_of_mem hnodup hwoke

theorem Sound.turn (h : Sound s) (op : Op) {w : Waiter} (hw : w ∈ s.waiting)
    (hd : w.seq ∉ s.dropped) : w ∈ (step s op).woken ↔ Turn s w op := by
  have hnot : w ∉ s.woken := fun hwoke => absurd (h.before w hwoke w hw) (lt_irrefl w)
  have hfire : ∀ done : List Waiter × VirtualClock, w ∈ (s.fire done).woken ↔ w ∈ done.1 := by
    intro done
    simp [Watched.fire, hnot, hd]
  cases op with
  | sleepUntil deadline => exact iff_of_false hnot not_false
  | sleep duration => exact iff_of_false hnot not_false
  | drop sleeper =>
    refine iff_of_false ?_ not_false
    unfold step
    dsimp only
    split <;> exact hnot
  | advance target =>
    refine (hfire _).trans (mem_advance.trans ?_)
    exact and_iff_right hw
  | advanceToNextEvent =>
    refine (hfire _).trans ?_
    rcases advanceToNextEvent_spec s.clock with ⟨hnil, _⟩ | ⟨v, rest, hitems, hleast, heq⟩
    · exact absurd (hnil ▸ hw : w ∈ []) List.not_mem_nil
    · have hv : v ∈ s.clock.waiters.items := hitems ▸ List.mem_cons_self
      rw [heq, List.mem_singleton]
      constructor
      · rintro rfl u hu
        rcases List.mem_cons.mp (hitems ▸ hu : u ∈ w :: rest.items) with rfl | hu
        · exact le_rfl
        · exact hleast u hu
      · intro hfirst
        rcases List.mem_cons.mp (hitems ▸ hw : w ∈ v :: rest.items) with rfl | hw
        · rfl
        · exact le_antisymm (hfirst v hv) (hleast w hw)

theorem Sound.first (h : Sound s) (op : Op) {w : Waiter} (hw : w ∈ s.waiting)
    (hd : w.seq ∉ s.dropped) (hlater : s.clock.now < w.deadline)
    (hreach : w.deadline ≤ (step s op).clock.now) :
    w ∈ (step s op).woken ∨
      op = .advanceToNextEvent ∧ ∃ v ∈ s.waiting, v.deadline = w.deadline ∧ v.seq < w.seq := by
  have hsleep : ∀ deadline, (s.clock.sleepUntil deadline).2.now = s.clock.now := by
    intro deadline
    unfold VirtualClock.sleepUntil
    split <;> rfl
  rw [h.turn op hw hd]
  cases op with
  | sleepUntil deadline => exact absurd (hreach.trans_eq (hsleep deadline)) (not_le.mpr hlater)
  | sleep duration => exact absurd (hreach.trans_eq (hsleep _)) (not_le.mpr hlater)
  | drop sleeper =>
    unfold step at hreach
    dsimp only at hreach
    split at hreach <;> exact absurd hreach (not_le.mpr hlater)
  | advance target =>
    refine Or.inl ?_
    have hnow : w.deadline ≤ max s.clock.now target :=
      hreach.trans_eq (now_advance (fun _ => h.now_le) target)
    exact (le_max_iff.mp hnow).resolve_left (not_le.mpr hlater)
  | advanceToNextEvent =>
    rcases advanceToNextEvent_spec s.clock with ⟨hnil, _⟩ | ⟨v, rest, hitems, hleast, heq⟩
    · exact absurd (hnil ▸ hw : w ∈ []) List.not_mem_nil
    have hv : v ∈ s.clock.waiters.items := hitems ▸ List.mem_cons_self
    replace hreach : w.deadline ≤ s.clock.advanceToNextEvent.2.now := hreach
    rw [heq] at hreach
    rcases List.mem_cons.mp (hitems ▸ hw : w ∈ v :: rest.items) with rfl | hrest
    · refine Or.inl fun u hu => ?_
      rcases List.mem_cons.mp (hitems ▸ hu : u ∈ w :: rest.items) with rfl | hu
      · exact le_rfl
      · exact hleast u hu
    · -- The waiter that is taken comes before this one and has its deadline: a tie.
      have hne : v ≠ w := by
        have hnodup : (v :: rest.items).Nodup := hitems ▸ h.nodup
        rintro rfl
        exact (List.nodup_cons.mp hnodup).1 hrest
      rcases Waiter.lt_iff.mp (lt_of_le_of_ne (hleast w hrest) hne) with hlt | ⟨hdeadline, hseq⟩
      · exact absurd hreach (not_le.mpr hlt)
      · exact Or.inr ⟨rfl, v, hv, hdeadline, hseq⟩

/-- In every interleaving the virtual clock never goes back, lets nobody wait past a deadline, and
    wakes every sleeper that is still there once, when its turn comes, in the order of the
    deadlines and of registration. -/
theorem virtual_clock_faithful (ops : List Op) (op : Op) : Faithful (run step .new ops) op := by
  have h := inv_run step sound_step sound_new ops
  exact ⟨h.monotone op, h.waits, fun _ => h.once, fun _ hw hd => h.first op hw hd,
    fun _ hw hd => h.turn op hw hd, h.past, h.order⟩

/-- Of two sleepers with one deadline `advance_to_next_event` leaves the second behind, and it waits
    for a time that has come. -/
theorem tie_left_waiting :
    ¬ ∀ ops : List Op, ∀ w ∈ (run step .new ops).waiting,
      (run step .new ops).clock.now < w.deadline := by
  intro h
  have hwait := h [.sleepUntil ⟨5, by decide⟩, .sleepUntil ⟨5, by decide⟩, .advanceToNextEvent]
    ⟨⟨5, by decide⟩, 1⟩ (by decide +kernel)
  revert hwait
  decide +kernel

end Midas.Clock
