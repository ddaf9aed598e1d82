import HandOfMidas.IbSim.Delivery

/-! The messages of a fill: what the pattern generates is returned at once or put into the queue, in the
    order of time or the one that was armed; commissions and executions go together one to one; and what
    is in the queue is returned once, by the first `drain_due` that is late enough. -/

namespace Midas.IbSim

/-! ### Execution ids -/

/-- The value of a hexadecimal digit. -/
def hexValue (c : Char) : ℕ := if c.isDigit then c.toNat - 48 else c.toNat - 87

def readHex (cs : List Char) : ℕ := cs.foldl (fun n c => n * 16 + hexValue c) 0

theorem hexValue_digitChar {d : ℕ} (h : d < 16) : hexValue (Nat.digitChar d) = d := by
  revert d
  decide

theorem readHex_concat (cs : List Char) (c : Char) :
    readHex (cs ++ [c]) = readHex cs * 16 + hexValue c := by
  simp [readHex]

theorem readHex_toDigits (n : ℕ) : readHex (Nat.toDigits 16 n) = n := by
  induction n using Nat.strongRecOn with
  | ind n ih =>
    rw [Nat.toDigits_eq_if (by decide)]
    split
    · rename_i hlt
      simp [readHex, hexValue_digitChar hlt]
    · rename_i hge
      rw [readHex_concat, ih (n / 16) (by omega), hexValue_digitChar (Nat.mod_lt n (by decide))]
      omega

theorem readHex_replicate (k : ℕ) (cs : List Char) :
    readHex (List.replicate k '0' ++ cs) = readHex cs := by
  induction k with
  | zero => rfl
  | succ k ih => exact ih

/-- Executions have ids of their own. -/
theorem execId_injective {m n : ℕ} (h : execId m = execId n) : m = n := by
  have hlist := congrArg String.toList h
  simp only [execId, String.toList_append, String.toList_ofList] at hlist
  have hread := congrArg readHex (List.append_cancel_left hlist)
  rwa [readHex_replicate, readHex_replicate, readHex_toDigits, readHex_toDigits] at hread

/-- The id of an execution. -/
def OrderEmission.executionId? : OrderEmission → Option String
  | .execution x => some x.execId
  | _ => none

/-- The id that a commission names. -/
def OrderEmission.commissionId? : OrderEmission → Option String
  | .commission c => some c.execId
  | _ => none

variable (rng : Rng) (baseSeed : UInt64)

/-- Each commission of a fill names an execution of the fill, and each execution is named once. -/
theorem ids_fillLoop (o : OrderRecord) (fill : Fill) (chunks : List ℚ) (s : Sim) :
    let generated := (fillLoop rng baseSeed o fill chunks s).messages.map FillMessage.emission
    generated.filterMap OrderEmission.commissionId? = generated.filterMap OrderEmission.executionId? ∧
      (generated.filterMap OrderEmission.executionId?).Nodup := by
  have hne : ¬execId (s.execCounter + 1) = execId (s.execCounter + 1 + 1) := by
    intro h
    have := execId_injective h
    omega
  intro generated
  unfold generated fillLoop
  cases patternOf rng baseSeed o s with
  | a =>
    cases s.commissionDelay o.orderId <;>
      simp [stepsFor, fillStep, FillLoop.push, List.filterMap_cons, OrderEmission.commissionId?,
        OrderEmission.executionId?,
        emitOpenOrder, emitOrderStatus, executionOf]
  | b =>
    cases s.commissionDelay o.orderId <;>
      simp [stepsFor, fillStep, FillLoop.push, List.filterMap_cons, OrderEmission.commissionId?,
        OrderEmission.executionId?,
        emitOpenOrder, emitOrderStatus, executionOf]
  | c =>
    cases s.commissionDelay o.orderId <;>
      simp [stepsFor, fillStep, FillLoop.push, List.filterMap_cons, OrderEmission.commissionId?,
        OrderEmission.executionId?,
        emitOpenOrder, emitOrderStatus, executionOf, hne]

/-! ### The order of the messages -/

/-- A valid permutation puts each message where it says; any other leaves them as they are. -/
def Reordered {α : Type*} (schedule : Option (List UInt8)) (sorted base : List α) : Prop :=
  match schedule with
  | none => base = sorted
  | some perm =>
    (ValidPerm (perm.map UInt8.toNat) sorted.length →
      base.length = sorted.length ∧ ∀ (i : ℕ) (p : UInt8), perm[i]? = some p →
        base[p.toNat]? = sorted[i]?) ∧
    (¬ValidPerm (perm.map UInt8.toNat) sorted.length → base = sorted)

theorem reordered_reorder {α : Type*} (schedule : Option (List UInt8)) (sorted : List α) :
    Reordered schedule sorted (reorder schedule sorted) := by
  cases schedule with
  | none => rfl
  | some perm =>
    simp only [Reordered, reorder]
    refine ⟨fun hvalid => ?_, fun hbad => if_neg hbad⟩
    rw [if_pos hvalid]
    refine ⟨(perm_placeAt hvalid).length_eq, ?_⟩
    intro i p hp
    refine getElem?_placeAt hvalid ?_
    rw [List.getElem?_map, hp]
    rfl

/-- The first status message twice, where the duplicate is armed. -/
def Doubled (armed : Bool) (base returned : List OrderEmission) : Prop :=
  if armed then
    ∃ pre m post, base = pre ++ .orderStatus m :: post ∧ (∀ e ∈ pre, ¬IsStatus e) ∧
      returned = pre ++ .orderStatus m :: .orderStatus m :: post
  else returned = base

theorem duplicateFirstStatus_of_exists : ∀ {out : List OrderEmission}, (∃ m, .orderStatus m ∈ out) →
    ∃ pre m post, out = pre ++ .orderStatus m :: post ∧ (∀ e ∈ pre, ¬IsStatus e) ∧
      duplicateFirstStatus out = some (pre ++ .orderStatus m :: .orderStatus m :: post)
  | [], h => by simp at h
  | e :: rest, ⟨m, hm⟩ => by
    by_cases he : IsStatus e
    · cases e with
      | orderStatus m' => exact ⟨[], m', rest, rfl, by simp, rfl⟩
      | _ => exact absurd he id
    · have hrest : ∃ m, .orderStatus m ∈ rest := by
        rcases List.mem_cons.mp hm with rfl | hm
        · exact absurd trivial he
        · exact ⟨m, hm⟩
      obtain ⟨pre, m', post, rfl, hpre, hdup⟩ := duplicateFirstStatus_of_exists hrest
      refine ⟨e :: pre, m', post, rfl, ?_, ?_⟩
      · intro e' he'
        rcases List.mem_cons.mp he' with rfl | he'
        · exact he
        · exact hpre e' he'
      · cases e with
        | orderStatus m => exact absurd trivial he
        | _ => simp [duplicateFirstStatus, hdup]

/-- Each pattern reports the order filled, and that report does not wait. -/
theorem exists_status (o : OrderRecord) (fill : Fill) (chunks : List ℚ) (s : Sim) :
    ∃ x ∈ (fillLoop rng baseSeed o fill chunks s).messages,
      x.deferred = false ∧ ∃ m, x.emission = .orderStatus m := by
  unfold fillLoop
  cases patternOf rng baseSeed o s <;> cases s.commissionDelay o.orderId <;>
    simp [stepsFor, fillStep, FillLoop.push, emitOrderStatus, emitOpenOrder]

/-- A message waits just where it is a commission whose delay is overridden. -/
theorem deferred_fillLoop (o : OrderRecord) (fill : Fill) (chunks : List ℚ) (s : Sim) :
    ∀ m ∈ (fillLoop rng baseSeed o fill chunks s).messages, m.deferred = true ↔
      m.emission.commissionId?.isSome ∧ s.commissionDelay o.orderId = some m.offset := by
  unfold fillLoop
  cases patternOf rng baseSeed o s <;> cases s.commissionDelay o.orderId <;>
    simp [stepsFor, fillStep, FillLoop.push, emitOrderStatus, emitOpenOrder,
      OrderEmission.commissionId?]

/-- How the messages of a fill are given out: `returned` at once, `queued` later. -/
structure GivenOut (s : Sim) (o : OrderRecord) (fill : Fill) (messages : List FillMessage)
    (returned : List OrderEmission) (queued : List (VirtualInstant × OrderEmission)) : Prop where
  conserved : ∃ copies, (returned ++ queued.map Prod.snd).Perm
      (messages.map FillMessage.emission ++ copies) ∧
    if s.duplicateOrderStatusNext then ∃ m, copies = [.orderStatus m] else copies = []
  ordered : ∃ sorted base, sorted.Perm (messages.filter fun m => !m.deferred) ∧
    sorted.Pairwise (fun m m' => m.offset ≤ m'.offset) ∧
    Reordered (s.outOfOrderOverrides o.orderId) sorted base ∧
    Doubled s.duplicateOrderStatusNext (base.map FillMessage.emission) returned
  queue : queued = (messages.filter FillMessage.deferred).map fun m => (fill.ts + m.offset, m.emission)
  waits : ∀ m ∈ messages, m.deferred = true ↔
    m.emission.commissionId?.isSome ∧ s.commissionDelay o.orderId = some m.offset
  paired : (messages.map FillMessage.emission).filterMap OrderEmission.commissionId? =
      (messages.map FillMessage.emission).filterMap OrderEmission.executionId? ∧
    ((messages.map FillMessage.emission).filterMap OrderEmission.executionId?).Nodup

theorem doubled_report (o : OrderRecord) (fill : Fill) (chunks : List ℚ) (s : Sim) :
    Doubled s.duplicateOrderStatusNext
      (materialize (s.outOfOrderOverrides o.orderId) (fillLoop rng baseSeed o fill chunks s).messages)
      (report rng baseSeed o fill chunks s).1 := by
  obtain ⟨x, hx, hnow, m, hm⟩ := exists_status rng baseSeed o fill chunks s
  have hperm := ((perm_reorder (s.outOfOrderOverrides o.orderId) _).trans
    (List.perm_insertionSort (fun a b : FillMessage => a.offset ≤ b.offset)
      ((fillLoop rng baseSeed o fill chunks s).messages.filter fun m => !m.deferred)))
  have hmem : .orderStatus m ∈ materialize (s.outOfOrderOverrides o.orderId)
      (fillLoop rng baseSeed o fill chunks s).messages :=
    List.mem_map.mpr ⟨x, hperm.mem_iff.mpr (List.mem_filter.mpr ⟨hx, by simp [hnow]⟩), hm⟩
  obtain ⟨pre, m', post, heq, hpre, hdup⟩ := duplicateFirstStatus_of_exists ⟨m, hmem⟩
  unfold Doubled
  split
  · rename_i harmed
    refine ⟨pre, m', post, heq, hpre, ?_⟩
    simp only [report, if_pos harmed, hdup, Option.getD_some]
  · rename_i harmed
    simp only [report, if_neg harmed, Option.getD_none]

theorem givenOut_report (o : OrderRecord) (fill : Fill) (chunks : List ℚ) (s : Sim) :
    GivenOut s o fill (fillLoop rng baseSeed o fill chunks s).messages
      (report rng baseSeed o fill chunks s).1
      (postpone fill.ts (fillLoop rng baseSeed o fill chunks s).messages) := by
  have hdoubled := doubled_report rng baseSeed o fill chunks s
  constructor
  case conserved =>
    have hperm := perm_materialize (s.outOfOrderOverrides o.orderId) fill.ts
      (fillLoop rng baseSeed o fill chunks s).messages
    unfold Doubled at hdoubled
    split at hdoubled
    · rename_i harmed
      obtain ⟨pre, m, post, heq, -, hret⟩ := hdoubled
      refine ⟨[.orderStatus m], ?_, by rw [if_pos harmed]; exact ⟨m, rfl⟩⟩
      rw [heq] at hperm
      rw [hret]
      have hcount := List.perm_iff_count.mp hperm
      rw [List.perm_iff_count]
      intro e
      have := hcount e
      simp only [List.count_append, List.count_cons, List.count_nil] at this ⊢
      omega
    · rename_i harmed
      refine ⟨[], ?_, by rw [if_neg harmed]⟩
      rw [hdoubled, List.append_nil]
      exact hperm
  case ordered =>
    refine ⟨_, _, List.perm_insertionSort (fun a b : FillMessage => a.offset ≤ b.offset) _, ?_,
      reordered_reorder _ _, hdoubled⟩
    exact List.pairwise_insertionSort _ _
  case queue => rfl
  case waits => exact deferred_fillLoop rng baseSeed o fill chunks s
  case paired => exact ids_fillLoop rng baseSeed o fill chunks s

/-! ### What follows the messages of a fill -/

/-- Neither an execution nor a commission. -/
def Beside (e : OrderEmission) : Prop := e.commissionId? = none ∧ e.executionId? = none

/-- A part of a call that leaves the queue as it is, and returns no executions or commissions. -/
structure Aside (s : Sim) (r : Emits) : Prop where
  deferred : r.2.deferred = s.deferred
  beside : ∀ e ∈ r.1, Beside e

theorem aside_nothing {s s' : Sim} (h : s'.deferred = s.deferred) : Aside s ([], s') :=
  ⟨h, by simp⟩

theorem Aside.andEmit {s : Sim} {r : Emits} {f : Sim → Emits} (h : Aside s r) (hf : Aside r.2 (f r.2)) :
    Aside s (andEmit f r) := by
  refine ⟨hf.deferred.trans h.deferred, ?_⟩
  intro e he
  rcases List.mem_append.mp he with he | he
  · exact h.beside e he
  · exact hf.beside e he

theorem aside_bookChunks (o : OrderRecord) (price : ℚ) (chunks : List ℚ) (s : Sim) :
    Aside s (bookChunks o price chunks s) := by
  have hchunk : ∀ shares s, Aside s (bookChunk o price shares s) := by
    intro shares s
    refine ⟨rfl, ?_⟩
    intro e he
    rcases List.mem_cons.mp he with rfl | he
    · exact ⟨rfl, rfl⟩
    · rw [List.mem_singleton.mp he]
      exact ⟨rfl, rfl⟩
  have hfold : ∀ (chunks : List ℚ) (r : Emits), Aside s r →
      Aside s (chunks.foldl (fun done i => andEmit (bookChunk o price i) done) r) := by
    intro chunks
    induction chunks with
    | nil => exact fun _ h => h
    | cons shares chunks ih => exact fun r h => ih _ (h.andEmit (hchunk shares r.2))
  exact hfold chunks ([], s) (aside_nothing rfl)

theorem aside_activateChildren (orderId : OrderId) (s : Sim) :
    Aside s (activateChildren rng baseSeed orderId s) := by
  have hchild : ∀ (children : List OrderId) (done : List (Duration × OrderEmission) × Sim),
      (∀ x ∈ done.1, Beside x.2) → done.2.deferred = s.deferred →
        (∀ x ∈ (children.foldl (activateChild rng baseSeed orderId) done).1, Beside x.2) ∧
          (children.foldl (activateChild rng baseSeed orderId) done).2.deferred = s.deferred := by
    intro children
    induction children with
    | nil => exact fun _ h hdef => ⟨h, hdef⟩
    | cons child children ih =>
      intro done h hdef
      rw [List.foldl_cons]
      refine ih _ ?_ ?_ <;> unfold activateChild <;> dsimp only <;> split
      · exact h
      · intro x hx
        rcases List.mem_append.mp hx with hx | hx
        · exact h x hx
        · rw [List.mem_singleton.mp hx]
          exact ⟨rfl, rfl⟩
      · exact hdef
      · exact hdef
  unfold activateChildren
  split
  · exact aside_nothing rfl
  · rename_i group _
    split
    · obtain ⟨hbeside, hdef⟩ := hchild group.children ([], s) (by simp) rfl
      refine ⟨hdef, ?_⟩
      intro e he
      obtain ⟨x, hx, rfl⟩ := List.mem_map.mp he
      exact hbeside x ((List.perm_insertionSort _ _).mem_iff.mp hx)
    · exact aside_nothing rfl

theorem aside_cancelSibling (orderId : OrderId) (s : Sim) : Aside s (cancelSibling orderId s) := by
  have hchild : ∀ p c, Aside s (cancelChild p c s) := by
    intro p c
    unfold cancelChild
    split
    · exact aside_nothing rfl
    · split
      · refine ⟨rfl, ?_⟩
        intro e he
        rw [List.mem_singleton.mp he]
        exact ⟨rfl, rfl⟩
      · exact aside_nothing rfl
  unfold cancelSibling
  split
  · exact aside_nothing rfl
  · split
    · exact aside_nothing rfl
    · rename_i group _ _ sid _
      exact ⟨(hchild group.parentId sid).deferred, (hchild group.parentId sid).beside⟩

/-- The messages of the pattern come first, and what waits is put behind what waits already. -/
theorem finalizeFill_eq {s : Sim} {orderId : OrderId} {o : OrderRecord}
    (ho : s.orders.get? orderId = some o) (fill : Fill) :
    let chunks := planChunks rng baseSeed orderId fill.shares (patternOf rng baseSeed o s)
    ∃ rest, (finalizeFill rng baseSeed orderId fill s).1 =
        (report rng baseSeed o fill chunks s).1 ++ rest ∧ (∀ e ∈ rest, Beside e) ∧
      (finalizeFill rng baseSeed orderId fill s).2.deferred =
        s.deferred ++ postpone fill.ts (fillLoop rng baseSeed o fill chunks s).messages := by
  intro chunks
  have hbook := aside_bookChunks o fill.price chunks (report rng baseSeed o fill chunks s).2
  have hactivate := aside_activateChildren rng baseSeed orderId
    (bookChunks o fill.price chunks (report rng baseSeed o fill chunks s).2).2
  have hcancel := aside_cancelSibling orderId (activateChildren rng baseSeed orderId
    (bookChunks o fill.price chunks (report rng baseSeed o fill chunks s).2).2).2
  have hall := (hbook.andEmit hactivate).andEmit hcancel
  refine ⟨_, ?_, hall.beside, ?_⟩
  · simp only [finalizeFill, ho, andEmit_fst, andEmit_snd, List.append_assoc]
    rfl
  · simp only [finalizeFill, ho, andEmit_snd]
    exact hall.deferred

/-! ### The queue -/

/-- The simulator after these calls. -/
def Sim.after (s : Sim) (ops : List Op) : Sim := ops.foldl (fun s op => (exec rng baseSeed op s).2) s

/-- Has a `drain_due` among these calls reached the deadline? -/
def drained (ops : List Op) (deadline : VirtualInstant) : Bool :=
  ops.any fun op =>
    match op with
    | .drainDue now => deadline ≤ now
    | _ => false

theorem after_concat (s : Sim) (ops : List Op) (op : Op) :
    s.after rng baseSeed (ops ++ [op]) = (exec rng baseSeed op (s.after rng baseSeed ops)).2 := by
  simp [Sim.after]

theorem deferred_look (snap : MarketSnapshot) (orderId : OrderId) (s : Sim) :
    ∃ new, (look rng baseSeed snap orderId s).2.deferred = s.deferred ++ new := by
  unfold look
  split
  · exact ⟨[], (List.append_nil _).symm⟩
  · rename_i o ho
    dsimp only
    split
    · exact ⟨[], (List.append_nil _).symm⟩
    · rename_i fill _
      set s' : Sim := { s with
        orders := s.orders.put (maybeFill o snap.mid snap.bid snap.ask snap.ts s.slippage).2 } with hs'
      rcases hget : s'.orders.get? orderId with _ | o'
      · refine ⟨[], ?_⟩
        unfold finalizeFill
        rw [hget, List.append_nil]
      · obtain ⟨rest, -, -, hdef⟩ := finalizeFill_eq rng baseSeed hget fill
        exact ⟨_, hdef⟩

/-- No call but `drain_due` takes anything out of the queue. -/
theorem deferred_exec {op : Op} (h : ∀ now, op ≠ .drainDue now) (s : Sim) :
    ∃ new, (exec rng baseSeed op s).2.deferred = s.deferred ++ new := by
  have hsame : ∀ {s' : Sim}, s'.deferred = s.deferred → ∃ new, s'.deferred = s.deferred ++ new :=
    fun heq => ⟨[], by rw [heq, List.append_nil]⟩
  cases op with
  | place req now =>
    refine hsame ?_
    simp only [exec, place, placeChild, placeRoot]
    split
    · rfl
    · split <;> rfl
  | cancel orderId =>
    refine hsame ?_
    simp only [exec, cancel]
    split
    · rfl
    · split
      · rfl
      · split <;> rfl
  | snapshot snap =>
    simp only [exec, onMarketSnapshot, emitAll_snd]
    generalize candidateIds snap s = ids
    induction ids generalizing s with
    | nil => exact ⟨[], (List.append_nil _).symm⟩
    | cons id ids ih =>
      obtain ⟨new, hnew⟩ := deferred_look rng baseSeed snap id s
      obtain ⟨new', hnew'⟩ := ih (look rng baseSeed snap id s).2 fun heq =>
        ⟨[], by rw [heq, List.append_nil]⟩
      refine ⟨new ++ new', ?_⟩
      rw [List.foldl_cons, hnew', hnew, List.append_assoc]
  | drainDue now => exact absurd rfl (h now)
  | openOrders => exact hsame rfl
  | setCommissionDelay orderId delay => exact hsame rfl
  | armDuplicateOrderStatus => exact hsame rfl
  | installOutOfOrderSchedule orderId permutation => exact hsame rfl
  | setSlippage slippage => exact hsame rfl
  | setPartialThreshold t => exact hsame rfl

/-- What waits stays in the queue until a drain reaches its deadline; what is queued meanwhile is behind
    it. -/
theorem deferred_after (s : Sim) (ops : List Op) :
    ∃ newer, (s.after rng baseSeed ops).deferred =
        (s.deferred.filter fun d => !drained ops d.1) ++ newer ∧
      ((∀ op ∈ ops, ∃ now, op = .drainDue now) → newer = []) := by
  induction ops using List.reverseRecOn with
  | nil => exact ⟨[], by simp [Sim.after, drained], fun _ => rfl⟩
  | append_singleton ops op ih =>
    obtain ⟨newer, hafter, hnewer⟩ := ih
    rw [after_concat]
    by_cases hdrain : ∃ now, op = .drainDue now
    · obtain ⟨now, rfl⟩ := hdrain
      refine ⟨newer.filter fun d => !decide (d.1 ≤ now), ?_, ?_⟩
      · simp only [exec, drainDue, hafter, List.filter_append, List.filter_filter]
        congr 1
        refine List.filter_congr fun d _ => ?_
        simp [drained, Bool.and_comm]
      · intro hall
        rw [hnewer fun op hop => hall op (List.mem_append_left _ hop)]
        rfl
    · have hne : ∀ now, op ≠ .drainDue now := fun now heq => hdrain ⟨now, heq⟩
      obtain ⟨new, hnew⟩ := deferred_exec rng baseSeed hne (s.after rng baseSeed ops)
      refine ⟨newer ++ new, ?_, ?_⟩
      · rw [hnew, hafter, List.append_assoc]
        congr 1
        refine List.filter_congr fun d _ => ?_
        cases op with
        | drainDue now => exact absurd rfl (hne now)
        | _ => simp [drained]
      · intro hall
        exact absurd (hall op (by simp)) hdrain

/-- The messages of a fill are returned or queued, in the order of time or the one that was armed,
    and the commissions go with the executions; and what is in the queue is returned by the first
    `drain_due` that reaches its deadline. -/
theorem fill_messages_delivered {s : Sim} {orderId : OrderId} {o : OrderRecord}
    (ho : s.orders.get? orderId = some o) (fill : Fill) :
    (∃ returned rest queued,
      (finalizeFill rng baseSeed orderId fill s).1 = returned ++ rest ∧ (∀ e ∈ rest, Beside e) ∧
      (finalizeFill rng baseSeed orderId fill s).2.deferred = s.deferred ++ queued ∧
      GivenOut s o fill
        (fillLoop rng baseSeed o fill
          (planChunks rng baseSeed orderId fill.shares (patternOf rng baseSeed o s)) s).messages
        returned queued) ∧
    ∀ (s : Sim) (ops : List Op), ∃ newer,
      (s.after rng baseSeed ops).deferred = (s.deferred.filter fun d => !drained ops d.1) ++ newer ∧
      ((∀ op ∈ ops, ∃ now, op = .drainDue now) → newer = []) ∧
      ∀ now, (exec rng baseSeed (.drainDue now) (s.after rng baseSeed ops)).1 =
        ((s.deferred.filter fun d => decide (d.1 ≤ now) && !drained ops d.1) ++
          newer.filter fun d => d.1 ≤ now).map Prod.snd := by
  refine ⟨?_, ?_⟩
  · obtain ⟨rest, hfst, hrest, hdef⟩ := finalizeFill_eq rng baseSeed ho fill
    exact ⟨_, rest, _, hfst, hrest, hdef, givenOut_report rng baseSeed o fill _ s⟩
  · intro s ops
    obtain ⟨newer, hafter, hnewer⟩ := deferred_after rng baseSeed s ops
    refine ⟨newer, hafter, hnewer, ?_⟩
    intro now
    simp only [exec, drainDue, hafter, List.filter_append, List.filter_filter]

/-- A sale of 300 shares at 20 or better, that waits. -/
def waitingSale : OrderRecord where
  orderId := 7
  contract := .stock "AAPL" "SMART" "USD"
  side := .sell
  kind := .limit
  limitPrice := some 20
  auxPrice := none
  totalQty := 300
  filledQty := 0
  remainingQty := 300
  avgFillPrice := 0
  status := .submitted
  stopTriggered := false
  tif := "DAY"
  account := "DU1"
  parentId := none
  ocaGroup := none
  createdAt := 0

theorem fill_messages_delivered_waitingSale :
    let rng : Rng := ⟨fun _ _ => 0, fun _ _ => 0⟩
    let s : Sim := { Sim.new with
      orders := Store.empty.put waitingSale
      commissionDelay := fun _ => some 500
      duplicateOrderStatusNext := true }
    let fill : Fill := ⟨7, 20, 300, 60, .sell⟩
    ∃ returned rest queued,
      (finalizeFill rng 42 7 fill s).1 = returned ++ rest ∧ (∀ e ∈ rest, Beside e) ∧
      (finalizeFill rng 42 7 fill s).2.deferred = s.deferred ++ queued ∧
      GivenOut s waitingSale fill
        (fillLoop rng 42 waitingSale fill
          (planChunks rng 42 7 fill.shares (patternOf rng 42 waitingSale s)) s).messages
        returned queued := by
  intro rng s fill
  exact (fill_messages_delivered rng 42 (s := s) (Store.get?_put_self _ waitingSale) fill).1

end Midas.IbSim
