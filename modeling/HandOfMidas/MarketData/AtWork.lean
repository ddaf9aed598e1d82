import HandOfMidas.MarketData.Registry

/-! Whether a handle of the registry has a task at work, and what it sees of one that is gone. -/

namespace Midas.MarketData.Registry

open Aggregator

namespace BarAggregatorRegistry

/-- The task of an entry has neither returned nor been cancelled. -/
def Running (s : BarAggregatorRegistry) (e : EntryId) : Prop :=
  (s.entries e).task.returned = false ∧ (s.entries e).cancelled = false

instance (s : BarAggregatorRegistry) (e : EntryId) : Decidable (s.Running e) :=
  inferInstanceAs (Decidable (_ ∧ _))

/-- What hangs on an entry sees an end reason, or a bar channel without senders: the entry has one and
    its task another. -/
def Observed (s : BarAggregatorRegistry) (e : EntryId) : Prop :=
  (s.entries e).endReason.isSome ∨ (s.entries e).dropped = true ∧ ¬ s.Running e

/-- Every live handle has a task at work. -/
def Served (s : BarAggregatorRegistry) : Prop := ∀ x ∈ s.handles, x.live = true → s.Running x.entry

/-- Handle `i` is live, its task is gone, and it does not come to see that as long as it lives. -/
def WaitsForever (s : BarAggregatorRegistry) (i : ℕ) : Prop :=
  (∃ x, s.handles[i]? = some x ∧ x.live = true ∧ ¬ s.Running x.entry) ∧
    ∀ ops y, (run step s ops).handles[i]? = some y → y.live = true → ¬ (run step s ops).Observed y.entry

/-- The task leaves: its upstream is closed, or no receiver was there at the sixteenth tick in a row. -/
def Leaves (task : Loop) : Event → Prop
  | .closed => True
  | .tick receivers => task.dirty = true ∧ receivers = 0 ∧ zeroStreakAutoExit ≤ task.zeroStreak + 1
  | _ => False

instance (task : Loop) : DecidablePred (Leaves task)
  | .closed => .isTrue trivial
  | .tick receivers => inferInstanceAs (Decidable (task.dirty = true ∧ receivers = 0 ∧
      zeroStreakAutoExit ≤ task.zeroStreak + 1))
  | .bar _ | .lagged .. => .isFalse nofun

/-- No subscriber finds an entry whose task has returned, and no task leaves that a handle or the
    subscriber who holds the lock hangs on. -/
def Cares (s : BarAggregatorRegistry) : Op → Prop
  | .subscribe symbol tf answer => s.lock = none → (isUnsupportedTf tf || !answer.upgrades) = false →
      ∀ e ∈ s.aggregators (symbol, tf), (s.entries e).task.returned = false
  | .wake e event => Leaves (s.entries e).task (s.sees e event) → s.served e = 0 ∧ s.lock ≠ some e
  | _ => True

instance (s : BarAggregatorRegistry) : DecidablePred s.Cares
  | .subscribe symbol tf answer => inferInstanceAs (Decidable (s.lock = none →
      (isUnsupportedTf tf || !answer.upgrades) = false →
        ∀ e ∈ s.aggregators (symbol, tf), (s.entries e).task.returned = false))
  | .wake e event => inferInstanceAs (Decidable (Leaves (s.entries e).task (s.sees e event) →
      s.served e = 0 ∧ s.lock ≠ some e))
  | .attach | .drop .. | .decrement _ | .cancel _ => .isTrue trivial

/-! ### One step -/

variable {s : BarAggregatorRegistry}

/-- No loop returns but by leaving. -/
theorem returned_step (tf : Timeframe) (task : Loop) (event : Event) :
    (Aggregator.step tf task event).returned = true ↔ task.returned = true ∨ Leaves task event := by
  cases hreturned : task.returned with
  | true => simp [Aggregator.step, hreturned]
  | false =>
    cases event with
    | bar rt =>
      simp only [Aggregator.step, hreturned, onBar, alignToWindow_eq, rollover, Leaves]
      cases task.current with
      | none => simp [hreturned]
      | some bar =>
        by_cases hsame : bar.tsOpen = alignDown (tfToDuration tf) rt.tsOpen <;>
          simp [hreturned, hsame, Loop.publish]
    | lagged first rest => simp [Aggregator.step, hreturned, Leaves]
    | closed => simp [Aggregator.step, hreturned, Leaves]
    | tick receivers =>
      have hstreak : zeroStreakAutoExit ≤ saturatingAdd32 task.zeroStreak 1 ↔
          zeroStreakAutoExit ≤ task.zeroStreak + 1 := by
        simp only [zeroStreakAutoExit, saturatingAdd32]
        omega
      simp only [Aggregator.step, hreturned, onTick, Leaves]
      cases task.current <;> cases task.dirty <;> by_cases hzero : receivers = 0 <;>
        simp [hreturned, hzero, Loop.publish, hstreak]

/-- Every live handle has a task at work, and so has the subscriber who holds the lock. -/
structure Ready (s : BarAggregatorRegistry) : Prop where
  served : s.Served
  lock : ∀ e, s.lock = some e → s.Running e

theorem ready_new : BarAggregatorRegistry.new.Ready := ⟨nofun, nofun⟩

/-- Nobody new hangs on an entry, and the tasks of the map go on. -/
theorem Ready.of_running (hr : s.Ready) (hs : s.Sound) {s' : BarAggregatorRegistry}
    (hhandles : ∀ x ∈ s'.handles, x.live = true → x ∈ s.handles)
    (hlock : ∀ e, s'.lock = some e → s.lock = some e)
    (hrun : ∀ key e, s.aggregators key = some e → s.Running e → s'.Running e) : s'.Ready where
  served x hx hlive :=
    have hx' := hhandles x hx hlive
    hrun _ _ (hs.handle x hx' hlive) (hr.served x hx' hlive)
  lock e hlocked := hrun _ _ (hs.lock e (hlock e hlocked)) (hr.lock e (hlock e hlocked))

/-- The task of an entry in the map is at work if it has not returned. -/
theorem Sound.running_iff (hs : s.Sound) {key : Key} {e : EntryId} (hmap : s.aggregators key = some e) :
    s.Running e ↔ (s.entries e).task.returned = false := by
  refine ⟨And.left, fun h => ⟨h, ?_⟩⟩
  by_contra hcancelled
  have hdropped := hs.cancelled e (by simpa using hcancelled)
  rw [(hs.mapped key e hmap).2.2] at hdropped
  cases hdropped

/-- A change of an entry that leaves its task alone. -/
theorem running_onEntry (e : EntryId) {f : Entry → Entry}
    (htask : (f (s.entries e)).task = (s.entries e).task)
    (hcancelled : (f (s.entries e)).cancelled = (s.entries e).cancelled) (e' : EntryId) :
    (s.onEntry e f).Running e' ↔ s.Running e' := by
  unfold Running
  rcases eq_or_ne e' e with rfl | hne
  · simp [BarAggregatorRegistry.onEntry, htask, hcancelled]
  · simp [BarAggregatorRegistry.onEntry, hne]

theorem Ready.subscribe_iff (hr : s.Ready) (hs : s.Sound) (symbol : SymbolKey) (tf : Timeframe)
    (answer : Answer) : (s.subscribe symbol tf answer).Ready ↔
      s.Cares (.subscribe symbol tf answer) := by
  unfold BarAggregatorRegistry.subscribe
  simp only [Cares]
  split
  · rename_i hheld
    refine iff_of_true hr fun hfree => ?_
    rw [hfree] at hheld
    cases hheld
  rename_i hfree
  have hfree : s.lock = none := by simpa using hfree
  split
  · rename_i hrefused
    refine iff_of_true hr fun _ haccepted => ?_
    rw [hrefused] at haccepted
    cases haccepted
  rename_i haccepted
  have haccepted : (isUnsupportedTf tf || !answer.upgrades) = false := by simpa using haccepted
  split
  · rename_i e hmap
    have hrunning := hs.running_iff hmap
    constructor
    · rintro hready - - e' he'
      obtain rfl : e = e' := Option.some.inj (hmap.symm.trans he')
      exact hrunning.mp (hready.lock e rfl)
    · intro hcares
      refine ⟨hr.served, fun e' he' => ?_⟩
      obtain rfl : e = e' := Option.some.inj he'
      exact hrunning.mpr (hcares hfree haccepted e hmap)
  · rename_i hnone
    refine iff_of_true ?_ fun _ _ e he => ?_
    · split
      · refine ⟨fun x hx hlive => ?_, fun e he => ?_⟩
        · have hold := (hs.mapped _ _ (hs.handle x hx hlive)).1.ne
          simpa [Running, BarAggregatorRegistry.insertEntry, hold] using hr.served x hx hlive
        · obtain rfl : s.nextEntry = e := Option.some.inj he
          simp [Running, BarAggregatorRegistry.insertEntry, Loop.new]
      · exact hr
    · rw [hnone] at he
      cases he

theorem Ready.attach (hr : s.Ready) : s.attach.Ready := by
  unfold BarAggregatorRegistry.attach
  split
  · exact hr
  rename_i e hlock
  have hrunning : ∀ e', s.Running e' →
      (s.onEntry e fun x => { x with refcount := x.refcount + 1 }).Running e' := fun e' =>
    (running_onEntry e rfl rfl e').mpr
  refine ⟨fun x hx hlive => ?_, nofun⟩
  rcases List.mem_append.mp hx with hx | hx
  · exact hrunning _ (hr.served x hx hlive)
  · rw [List.mem_singleton.mp hx]
    exact hrunning e (hr.lock e hlock)

theorem Ready.dropHandle (hr : s.Ready) (hs : s.Sound) (i : ℕ) (runtime : Bool) :
    (s.dropHandle i runtime).Ready := by
  unfold BarAggregatorRegistry.dropHandle
  split
  · exact hr
  rename_i x _
  split
  · refine hr.of_running hs (fun y hy hlive => ?_) (fun _ h => h) fun _ _ _ h => h
    rcases List.mem_or_eq_of_mem_set hy with hy | rfl
    · exact hy
    · cases hlive
  · exact hr

theorem Ready.decrement (hr : s.Ready) (hs : s.Sound) (j : ℕ) : (s.decrement j).Ready := by
  unfold BarAggregatorRegistry.decrement
  split
  · exact hr
  split
  · exact hr
  rename_i key _
  cases hmap : s.aggregators key with
  | none => simpa only [hmap] using ⟨hr.served, hr.lock⟩
  | some e =>
    simp only [hmap]
    split
    · refine hr.of_running hs (fun x hx _ => hx) (fun _ h => h) fun _ e' _ h => ?_
      have hdropped := fun s : BarAggregatorRegistry =>
        @running_onEntry s e (fun x => { x with dropped := true }) rfl rfl e'
      exact (hdropped _).mpr ((running_onEntry e rfl rfl e').mpr h)
    · refine hr.of_running hs (fun x hx _ => hx) (fun _ h => h) fun _ e' _ h => ?_
      exact (running_onEntry e rfl rfl e').mpr h

/-- A cancelled task is none of the map's. -/
theorem Ready.cancel (hr : s.Ready) (hs : s.Sound) (e : EntryId) : (s.cancel e).Ready := by
  unfold BarAggregatorRegistry.cancel
  split
  · rename_i hdropped
    refine hr.of_running hs (fun x hx _ => hx) (fun _ h => h) fun key e' hmap h => ?_
    have hne : e' ≠ e := by
      rintro rfl
      rw [(hs.mapped key e' hmap).2.2] at hdropped
      cases hdropped
    simpa [Running, BarAggregatorRegistry.onEntry, hne] using h
  · exact hr

/-- Whatever someone hangs on is at work. -/
theorem Ready.running_of_needed (hr : s.Ready) {e : EntryId}
    (h : ¬ (s.served e = 0 ∧ s.lock ≠ some e)) :
    s.Running e := by
  by_cases hlock : s.lock = some e
  · exact hr.lock e hlock
  · have hpos : 0 < s.served e := Nat.pos_of_ne_zero fun hzero => h ⟨hzero, hlock⟩
    obtain ⟨x, hx, hon⟩ := List.countP_pos_iff.mp hpos
    simp only [Bool.and_eq_true, decide_eq_true_eq] at hon
    exact hon.1 ▸ hr.served x hx hon.2

theorem Ready.wake_iff (hr : s.Ready) (e : EntryId) (event : Event) :
    (s.wake e event).Ready ↔ s.Cares (.wake e event) := by
  simp only [Cares]
  unfold BarAggregatorRegistry.wake
  split
  · rename_i hcancelled
    refine iff_of_true hr fun _ => ?_
    by_contra h
    rw [(hr.running_of_needed h).2] at hcancelled
    cases hcancelled
  rename_i hcancelled
  have hother : ∀ e', e' ≠ e → ((s.onEntry e fun x => { x with
      task := Aggregator.step x.key.2 x.task (s.sees e event) }).Running e' ↔ s.Running e') := by
    intro e' hne
    simp [Running, BarAggregatorRegistry.onEntry, hne]
  have hself : (s.onEntry e fun x => { x with
      task := Aggregator.step x.key.2 x.task (s.sees e event) }).Running e ↔
        s.Running e ∧ ¬ Leaves (s.entries e).task (s.sees e event) := by
    have hreturned := returned_step (s.entries e).key.2 (s.entries e).task (s.sees e event)
    simp only [Running, BarAggregatorRegistry.onEntry, Function.update_self]
    rw [← Bool.not_eq_true, hreturned, not_or, Bool.not_eq_true]
    tauto
  constructor
  · intro hready hleaves
    by_contra h
    exact (hself.mp (hready.running_of_needed h)).2 hleaves
  · intro hcares
    refine ⟨fun x hx hlive => ?_, fun e' hlock => ?_⟩
    · rcases eq_or_ne x.entry e with heq | hne
      · rw [heq]
        refine hself.mpr ⟨heq ▸ hr.served x hx hlive, fun hleaves => ?_⟩
        exact served_eq_zero.mp (hcares hleaves).1 x hx hlive heq
      · exact (hother _ hne).mpr (hr.served x hx hlive)
    · rcases eq_or_ne e' e with rfl | hne
      · exact hself.mpr ⟨hr.lock e' hlock, fun hleaves => (hcares hleaves).2 hlock⟩
      · exact (hother e' hne).mpr (hr.lock e' hlock)

theorem Ready.step_iff (hr : s.Ready) (hs : s.Sound) (op : Op) :
    (Registry.step s op).Ready ↔ s.Cares op := by
  cases op with
  | subscribe symbol tf answer => exact hr.subscribe_iff hs symbol tf answer
  | attach => exact iff_of_true hr.attach trivial
  | drop i runtime => exact iff_of_true (hr.dropHandle hs i runtime) trivial
  | decrement j => exact iff_of_true (hr.decrement hs j) trivial
  | wake e event => exact hr.wake_iff e event
  | cancel e => exact iff_of_true (hr.cancel hs e) trivial

/-! ### Waiting forever -/

/-- What lives is not observed to have ended. -/
theorem Sound.not_observed (hs : s.Sound) {x : Handle} (hx : x ∈ s.handles) (hlive : x.live = true) :
    ¬ s.Observed x.entry := by
  rintro (hreason | ⟨hdropped, -⟩)
  · rw [hs.endReason] at hreason
    cases hreason
  · rw [(hs.mapped _ _ (hs.handle x hx hlive)).2.2] at hdropped
    cases hdropped

/-- A live handle whose task is gone never comes to see it: its entry stays in the map. -/
theorem Sound.waitsForever (hs : s.Sound) {i : ℕ} {x : Handle} (hi : s.handles[i]? = some x)
    (hlive : x.live = true) (hgone : ¬ s.Running x.entry) : s.WaitsForever i := by
  refine ⟨⟨x, hi, hlive, hgone⟩, fun ops y hy hylive => ?_⟩
  have hrun : (run Registry.step s ops).Sound := inv_run Registry.step (fun _ op h => h.step op) hs ops
  exact hrun.not_observed (List.mem_of_getElem? hy) hylive

theorem Sound.served_of_not_waits (hs : s.Sound) (h : ∀ i, ¬ s.WaitsForever i) : s.Served := by
  intro x hx hlive
  by_contra hgone
  obtain ⟨i, hi⟩ := List.getElem?_of_mem hx
  exact h i (hs.waitsForever hi hlive hgone)

/-- A subscriber who holds the lock on an entry whose task is gone keeps it until it has its handle. -/
theorem stuck_step {e : EntryId} (hlock : s.lock = some e) (hgone : ¬ s.Running e) (op : Op) :
    (Registry.step s op).lock = some e ∧ ¬ (Registry.step s op).Running e ∨
      ¬ (Registry.step s op).Served := by
  have hheld : s.lock.isSome = true := by rw [hlock]; rfl
  cases op with
  | subscribe symbol tf answer =>
    left
    simp only [Registry.step, BarAggregatorRegistry.subscribe, if_pos hheld]
    exact ⟨hlock, hgone⟩
  | attach =>
    right
    intro hserved
    simp only [Registry.step, BarAggregatorRegistry.attach, hlock] at hserved
    have hnew := hserved ⟨e, (s.entries e).key, true⟩
      (List.mem_append_right _ (List.mem_singleton_self _)) rfl
    have hsame := @running_onEntry s e (fun x => { x with refcount := x.refcount + 1 }) rfl rfl e
    exact hgone (hsame.mp hnew)
  | drop i runtime =>
    left
    simp only [Registry.step, BarAggregatorRegistry.dropHandle]
    split
    · exact ⟨hlock, hgone⟩
    · split <;> exact ⟨hlock, hgone⟩
  | decrement j =>
    left
    simp only [Registry.step, BarAggregatorRegistry.decrement, if_pos hheld]
    exact ⟨hlock, hgone⟩
  | wake e' event =>
    left
    simp only [Registry.step, BarAggregatorRegistry.wake]
    split
    · exact ⟨hlock, hgone⟩
    · refine ⟨hlock, fun hrun => hgone ?_⟩
      rcases eq_or_ne e e' with rfl | hne
      · simp only [Running, BarAggregatorRegistry.onEntry, Function.update_self] at hrun
        refine ⟨?_, hrun.2⟩
        by_contra hreturned
        rw [(returned_step _ _ _).mpr (Or.inl (by simpa using hreturned))] at hrun
        cases hrun.1
      · simpa [Running, BarAggregatorRegistry.onEntry, hne] using hrun
  | cancel e' =>
    left
    simp only [Registry.step, BarAggregatorRegistry.cancel]
    split
    · refine ⟨hlock, fun hrun => hgone ?_⟩
      rcases eq_or_ne e e' with rfl | hne
      · simp [Running, BarAggregatorRegistry.onEntry] at hrun
      · simpa [Running, BarAggregatorRegistry.onEntry, hne] using hrun
    · exact ⟨hlock, hgone⟩

theorem stuck_run {e : EntryId} : ∀ {ops : List Op} {s : BarAggregatorRegistry}, s.lock = some e →
    ¬ s.Running e → (run Registry.step s ops).lock = none →
      ∃ pre, pre <+: ops ∧ ¬ (run Registry.step s pre).Served
  | [], s, hlock, _, hfree => by
    rw [run_nil, hlock] at hfree
    cases hfree
  | op :: ops, s, hlock, hgone, hfree => by
    rcases stuck_step hlock hgone op with ⟨hlock', hgone'⟩ | hserved
    · obtain ⟨pre, hpre, hnot⟩ := stuck_run hlock' hgone' hfree
      exact ⟨op :: pre, List.cons_prefix_cons.mpr ⟨rfl, hpre⟩, hnot⟩
    · exact ⟨[op], List.cons_prefix_cons.mpr ⟨rfl, List.nil_prefix⟩, hserved⟩

end BarAggregatorRegistry

open BarAggregatorRegistry

/-- In a run with such care every live handle has a task at work, in every state; and a run that ends
    with the lock free and in which no handle waits forever was one with such care. -/
theorem tasks_at_work_iff_cares (ops : List Op) :
    (AllSteps step Cares .new ops → AllStates step Served .new ops) ∧
      ((run step .new ops).lock = none → AllStates step (fun s => ∀ i, ¬ s.WaitsForever i) .new ops →
        AllSteps step Cares .new ops) := by
  have hiff : AllStates step Ready .new ops ↔ AllSteps step Cares .new ops :=
    allStates_iff_allSteps step (fun _ op hs => hs.step op) (fun _ op hs hr => hr.step_iff hs op)
      sound_new
      ready_new ops
  have hsound : ∀ pre, (run step .new pre).Sound := inv_run step (fun _ op h => h.step op) sound_new
  refine ⟨fun hcares pre hpre => (hiff.mpr hcares pre hpre).served, fun hfree hwaits => hiff.mp ?_⟩
  have hserved : ∀ pre, pre <+: ops → (run step .new pre).Served := fun pre hpre =>
    (hsound pre).served_of_not_waits (hwaits pre hpre)
  refine fun pre hpre => ⟨hserved pre hpre, fun e hlock => ?_⟩
  by_contra hgone
  obtain ⟨post, rfl⟩ := hpre
  rw [run_append] at hfree
  obtain ⟨pre', hpre', hnot⟩ := stuck_run hlock hgone hfree
  rw [← run_append] at hnot
  exact hnot (hserved _ ((List.prefix_append_right_inj pre).mpr hpre'))

/-- A handle that is dropped and another one that comes after it. -/
theorem tasks_at_work_one_after_the_other :
    (run step .new [.subscribe ⟨1, "AAPL"⟩ .m1 ⟨true, true⟩, .attach, .wake 0 (.tick 0), .drop 0 true,
      .decrement 0, .cancel 0, .wake 0 .closed, .subscribe ⟨1, "AAPL"⟩ .m1 ⟨true, true⟩,
      .attach]).Served := by
  refine (tasks_at_work_iff_cares _).1 ?_ _ List.prefix_rfl
  simp only [allSteps_cons, allSteps_nil]
  decide +kernel

/-- An upstream closes under a handle; and a subscriber joins a task whose upstream closed before the
    decrement of the last handle came. -/
theorem closed_upstream_waits_forever :
    (run step .new [.subscribe ⟨1, "AAPL"⟩ .m1 ⟨true, true⟩, .attach, .wake 0 .closed]).WaitsForever 0 ∧
      (run step .new [.subscribe ⟨1, "AAPL"⟩ .m1 ⟨true, true⟩, .attach, .drop 0 true, .wake 0 .closed,
        .subscribe ⟨1, "AAPL"⟩ .m1 ⟨true, true⟩, .attach, .decrement 0]).WaitsForever 1 := by
  have hsound : ∀ ops, (run step .new ops).Sound := inv_run step (fun _ op h => h.step op) sound_new
  let x : Handle := ⟨0, (⟨1, "AAPL"⟩, .m1), true⟩
  exact ⟨(hsound _).waitsForever (x := x) (by decide +kernel) rfl (by decide +kernel),
    (hsound _).waitsForever (x := x) (by decide +kernel) rfl (by decide +kernel)⟩

end Midas.MarketData.Registry
