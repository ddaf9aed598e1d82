import HandOfMidas.IbSim.Simulator

/-! What is generated is delivered. Every message that a call generates is returned by it or queued
    for `drain_due`, whatever the reordering, and the only messages returned beyond these are copies
    of status messages made by the armed duplication. -/

namespace Midas.IbSim

variable {rng : Rng} {baseSeed : UInt64}

/-- The messages that wait in the queue. -/
def Sim.pending (s : Sim) : List OrderEmission := s.deferred.map Prod.snd

/-- Is this a status message? -/
def IsStatus : OrderEmission → Prop
  | .orderStatus _ => True
  | _ => False

/-- The call that took `s` to `r` delivered what was waiting and what it generated, up to messages
    that still wait and copies of statuses. -/
def Delivered (s : Sim) (r : Emits) : Prop :=
  ∃ new copies, r.2.log = s.log ++ new ∧
    (r.1 ++ r.2.pending).Perm (s.pending ++ (new ++ copies)) ∧
      ∀ e ∈ copies, IsStatus e ∧ e ∈ new

theorem delivered_nothing {s s' : Sim} (hlog : s'.log = s.log) (hdef : s'.deferred = s.deferred) :
    Delivered s ([], s') :=
  ⟨[], [], by simp [hlog], by simp [Sim.pending, hdef], by simp⟩

theorem delivered_emit {s s' : Sim} {out : List OrderEmission} (hlog : s'.log = s.log)
    (hdef : s'.deferred = s.deferred) : Delivered s (s'.emit out) := by
  refine ⟨out, [], by simp [hlog], ?_, by simp⟩
  simpa [Sim.pending, Sim.emit, hdef] using List.perm_append_comm

/-- Deliveries of calls one after the other add up. -/
theorem Delivered.andEmit {s : Sim} {r : Emits} {f : Sim → Emits} (h : Delivered s r)
    (hf : Delivered r.2 (f r.2)) : Delivered s (andEmit f r) := by
  obtain ⟨new, copies, hlog, hperm, hcopies⟩ := h
  obtain ⟨new', copies', hlog', hperm', hcopies'⟩ := hf
  refine ⟨new ++ new', copies ++ copies', ?_, ?_, ?_⟩
  · rw [andEmit_snd, hlog', hlog, List.append_assoc]
  · rw [List.perm_iff_count] at hperm hperm' ⊢
    intro e
    have h₁ := hperm e
    have h₂ := hperm' e
    simp only [andEmit_fst, andEmit_snd, List.count_append] at h₁ h₂ ⊢
    omega
  · intro e he
    rcases List.mem_append.mp he with he | he
    · exact ⟨(hcopies e he).1, List.mem_append_left _ (hcopies e he).2⟩
    · exact ⟨(hcopies' e he).1, List.mem_append_right _ (hcopies' e he).2⟩

theorem delivered_emitAll {ι : Type*} {f : ι → Sim → Emits} (hf : ∀ i s, Delivered s (f i s))
    (items : List ι) (s : Sim) : Delivered s (emitAll f items s) := by
  have h : ∀ (items : List ι) (r : Emits), Delivered s r →
      Delivered s (items.foldl (fun done i => andEmit (f i) done) r) := by
    intro items
    induction items with
    | nil => exact fun _ hr => hr
    | cons i items ih => exact fun r hr => ih _ (hr.andEmit (hf i r.2))
  exact h items ([], s) (delivered_nothing rfl rfl)

/-! ### A fill -/

theorem perm_reorder {α : Type*} (schedule : Option (List UInt8)) (items : List α) :
    (reorder schedule items).Perm items := by
  unfold reorder
  split
  · exact List.Perm.refl _
  · split
    · rename_i hvalid; exact perm_placeAt hvalid
    · exact List.Perm.refl _

/-- Messages returned at once and messages postponed are together those generated. -/
theorem perm_materialize (schedule : Option (List UInt8)) (ts : VirtualInstant)
    (messages : List FillMessage) :
    (materialize schedule messages ++ (postpone ts messages).map Prod.snd).Perm
      (messages.map FillMessage.emission) := by
  have hpost : (postpone ts messages).map Prod.snd =
      (messages.filter FillMessage.deferred).map FillMessage.emission := by
    simp [postpone]
  have hsplit : ((messages.filter fun m => !m.deferred) ++ messages.filter FillMessage.deferred).Perm
      messages := by
    have := List.filter_append_perm (fun m : FillMessage => !m.deferred) messages
    simpa using this
  rw [hpost, materialize, ← List.map_append]
  refine List.Perm.map _ (((perm_reorder _ _).trans (List.perm_insertionSort _ _)).append_right _
    |>.trans hsplit)

theorem duplicateFirstStatus_spec : ∀ {out out' : List OrderEmission},
    duplicateFirstStatus out = some out' →
      ∃ e ∈ out, IsStatus e ∧ out'.Perm (out ++ [e])
  | [], _, h => by cases h
  | e :: rest, out', h => by
    have hrest : (duplicateFirstStatus rest).map (e :: ·) = some out' →
        ∃ d ∈ e :: rest, IsStatus d ∧ out'.Perm (e :: rest ++ [d]) := by
      intro h
      obtain ⟨l, hl, rfl⟩ := Option.map_eq_some_iff.mp h
      obtain ⟨d, hd, hs, hperm⟩ := duplicateFirstStatus_spec hl
      exact ⟨d, List.mem_cons_of_mem e hd, hs, hperm.cons e⟩
    cases e with
    | orderStatus m =>
      cases h
      refine ⟨.orderStatus m, List.mem_cons_self, trivial, ?_⟩
      exact (List.perm_append_singleton _ _).symm
    | openOrder o => exact hrest h
    | execution x => exact hrest h
    | commission c => exact hrest h
    | reject id code message => exact hrest h
    | position p => exact hrest h
    | portfolioValue v => exact hrest h

theorem delivered_report (o : OrderRecord) (fill : Fill) (chunks : List ℚ) {s s' : Sim}
    (hlog : s'.log = s.log) (hdef : s'.deferred = s.deferred) :
    Delivered s (report rng baseSeed o fill chunks s') := by
  set loop := fillLoop rng baseSeed o fill chunks s' with hloop
  set out := materialize (s'.outOfOrderOverrides o.orderId) loop.messages with hout
  have hperm := perm_materialize (s'.outOfOrderOverrides o.orderId) fill.ts loop.messages
  rw [← hout] at hperm
  have hnew : ∀ e ∈ out, e ∈ loop.messages.map FillMessage.emission := fun e he =>
    hperm.mem_iff.mp (List.mem_append_left _ he)
  have hlog' : (report rng baseSeed o fill chunks s').2.log =
      s.log ++ loop.messages.map FillMessage.emission := by
    rw [← hlog]; rfl
  have hpend : (report rng baseSeed o fill chunks s').2.pending =
      s.pending ++ (postpone fill.ts loop.messages).map Prod.snd := by
    simp only [Sim.pending, ← hdef, ← List.map_append]; rfl
  have hcount := List.perm_iff_count.mp hperm
  cases hdup : (if s'.duplicateOrderStatusNext then duplicateFirstStatus out else none) with
  | none =>
    have hfst : (report rng baseSeed o fill chunks s').1 = out := by
      simp only [report, ← hloop, ← hout, hdup, Option.getD_none]
    refine ⟨_, [], hlog', ?_, by simp⟩
    rw [hfst, hpend, List.perm_iff_count]
    intro e
    have := hcount e
    simp only [List.count_append, List.count_nil] at this ⊢
    omega
  | some out' =>
    have hfst : (report rng baseSeed o fill chunks s').1 = out' := by
      simp only [report, ← hloop, ← hout, hdup, Option.getD_some]
    have hdup' : duplicateFirstStatus out = some out' := by
      split at hdup
      · exact hdup
      · cases hdup
    obtain ⟨d, hd, hs, hperm'⟩ := duplicateFirstStatus_spec hdup'
    have hcount' := List.perm_iff_count.mp hperm'
    refine ⟨_, [d], hlog', ?_, fun e he => by
      rw [List.mem_singleton] at he; subst he; exact ⟨hs, hnew _ hd⟩⟩
    rw [hfst, hpend, List.perm_iff_count]
    intro e
    have h₁ := hcount e
    have h₂ := hcount' e
    simp only [List.count_append] at h₁ h₂ ⊢
    omega

theorem delivered_bookChunks (o : OrderRecord) (price : ℚ) (chunks : List ℚ) (s : Sim) :
    Delivered s (bookChunks o price chunks s) :=
  delivered_emitAll (f := bookChunk o price) (fun _ _ => delivered_emit rfl rfl) chunks s

variable (rng baseSeed) in
theorem activateChild_log (parentId childId : OrderId)
    (done : List (Duration × OrderEmission) × Sim) : ∃ new,
      (activateChild rng baseSeed parentId done childId).2.log = done.2.log ++ new.map Prod.snd ∧
      (activateChild rng baseSeed parentId done childId).1 = done.1 ++ new ∧
      (activateChild rng baseSeed parentId done childId).2.deferred = done.2.deferred := by
  unfold activateChild
  dsimp only
  split
  · exact ⟨[], by simp⟩
  · exact ⟨[(_, _)], rfl, rfl, rfl⟩

variable (rng baseSeed) in
theorem foldl_activateChild_log (parentId : OrderId) : ∀ (children : List OrderId)
    (done : List (Duration × OrderEmission) × Sim), ∃ new,
      (children.foldl (activateChild rng baseSeed parentId) done).2.log =
        done.2.log ++ new.map Prod.snd ∧
      (children.foldl (activateChild rng baseSeed parentId) done).1 = done.1 ++ new ∧
      (children.foldl (activateChild rng baseSeed parentId) done).2.deferred = done.2.deferred
  | [], done => ⟨[], by simp⟩
  | c :: children, done => by
    obtain ⟨new, hlog, hout, hdef⟩ := activateChild_log rng baseSeed parentId c done
    obtain ⟨new', hlog', hout', hdef'⟩ := foldl_activateChild_log parentId children
      (activateChild rng baseSeed parentId done c)
    refine ⟨new ++ new', ?_, ?_, hdef'.trans hdef⟩
    · rw [List.foldl_cons, hlog', hlog]; simp
    · rw [List.foldl_cons, hout', hout]; simp

theorem delivered_activateChildren (orderId : OrderId) (s : Sim) :
    Delivered s (activateChildren rng baseSeed orderId s) := by
  unfold activateChildren
  split
  · exact delivered_nothing rfl rfl
  · rename_i group _
    split
    · obtain ⟨new, hlog, hout, hdef⟩ := foldl_activateChild_log rng baseSeed orderId group.children
        ([], s)
      refine ⟨new.map Prod.snd, [], hlog, ?_, by simp⟩
      have hsorted := (List.perm_insertionSort (fun a b : Duration × OrderEmission => a.1 ≤ b.1)
        new).map Prod.snd
      simp only [Sim.pending, hout, hdef, List.nil_append, List.append_nil]
      exact (hsorted.append_right _).trans List.perm_append_comm
    · exact delivered_nothing rfl rfl

theorem delivered_cancelSibling (orderId : OrderId) (s : Sim) :
    Delivered s (cancelSibling orderId s) := by
  have hchild : ∀ p c, Delivered s (cancelChild p c s) := by
    intro p c
    unfold cancelChild
    split
    · exact delivered_nothing rfl rfl
    · split
      · exact delivered_emit rfl rfl
      · exact delivered_nothing rfl rfl
  unfold cancelSibling
  split
  · exact delivered_nothing rfl rfl
  · split
    · exact delivered_nothing rfl rfl
    · exact hchild _ _

theorem delivered_look (snap : MarketSnapshot) (orderId : OrderId) (s : Sim) :
    Delivered s (look rng baseSeed snap orderId s) := by
  unfold look
  split
  · exact delivered_nothing rfl rfl
  · dsimp only
    split
    · exact delivered_nothing rfl rfl
    · unfold finalizeFill
      split
      · exact delivered_nothing rfl rfl
      · exact (((delivered_report _ _ _ rfl rfl).andEmit (delivered_bookChunks _ _ _ _)).andEmit
          (delivered_activateChildren _ _)).andEmit (delivered_cancelSibling _ _)

/-! ### Every call, and every run -/

theorem delivered_drainDue (now : VirtualInstant) (s : Sim) : Delivered s (drainDue now s) := by
  refine ⟨[], [], by simp [drainDue], ?_, by simp⟩
  have hsplit := List.filter_append_perm (fun d : VirtualInstant × OrderEmission => d.1 ≤ now)
    s.deferred
  simpa [drainDue, Sim.pending] using hsplit.map Prod.snd

theorem delivered_exec (op : Op) (s : Sim) : Delivered s (exec rng baseSeed op s) := by
  cases op with
  | place req now =>
    show Delivered s (place req now s)
    unfold place
    split
    · exact delivered_emit rfl rfl
    · split
      · exact delivered_emit rfl rfl
      · exact delivered_emit rfl rfl
  | cancel orderId =>
    show Delivered s (cancel orderId s)
    unfold cancel
    split
    · exact delivered_emit rfl rfl
    · split
      · exact delivered_emit rfl rfl
      · split <;> exact delivered_emit rfl rfl
  | snapshot snap => exact delivered_emitAll (fun _ _ => delivered_look snap _ _) _ s
  | drainDue now => exact delivered_drainDue now s
  | openOrders => exact delivered_emit rfl rfl
  | setCommissionDelay orderId delay => exact delivered_nothing rfl rfl
  | armDuplicateOrderStatus => exact delivered_nothing rfl rfl
  | installOutOfOrderSchedule orderId perm => exact delivered_nothing rfl rfl
  | setSlippage slippage => exact delivered_nothing rfl rfl
  | setPartialThreshold t => exact delivered_nothing rfl rfl

/-- Over a run, the messages returned and those still waiting are the messages generated, and copies
    of statuses among them. -/
theorem delivered_runFrom (ops : List Op) : Delivered Sim.new (runFrom rng baseSeed ops) :=
  inv_run (step rng baseSeed) (I := Delivered Sim.new)
    (fun _ op h => h.andEmit (delivered_exec op _)) (delivered_nothing rfl rfl) ops

end Midas.IbSim
