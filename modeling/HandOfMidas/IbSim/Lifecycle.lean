import HandOfMidas.IbSim.Shares
import HandOfMidas.IbSim.Snapshots

/-! The life of an order over a run: what is terminal stays as it is, an order of which nothing remains
    is terminal unless its kind may not be filled out of the status it has, and the children of a
    bracket follow their parent unless they came too late, or found their slot taken. -/

namespace Midas.IbSim

variable {rng : Rng} {baseSeed : UInt64} {k : OrderId}

/-! ### Records -/

theorem record_cancelled (orderId k : OrderId) (s : Sim) :
    (cancel orderId s).2.orders.get? k =
      (s.orders.get? k).map fun o => if orderId = k then o.transition .cancelled else o := by
  refine (congrArg View.record (view_cancel orderId k s)).trans ?_
  split
  · exact View.record_cancel _
  · simp [Sim.view]

section Status

variable {s : Sim} {snap : MarketSnapshot} {o : OrderRecord}

/-- What is terminal stays so. -/
theorem statusAt_of_isTerminal (h : OrderRecord.isTerminal o.status = true) :
    s.statusAt snap o = o.status := by
  unfold Sim.statusAt
  simp only [statusAfter_of_isTerminal h, ite_self]

/-- Nothing becomes inactive. -/
theorem statusAt_ne_inactive (h : o.status ≠ .inactive) : s.statusAt snap o ≠ .inactive := by
  have hafter : ∀ tgt, tgt ≠ .inactive → statusAfter o.kind o.status tgt ≠ .inactive := by
    intro tgt htgt
    unfold statusAfter
    split
    · exact htgt
    · exact h
  unfold Sim.statusAt
  split_ifs
  · exact hafter _ (by simp)
  · exact hafter _ (by simp)
  · exact hafter _ (by simp)
  · exact h

/-- An order without a parent has to do with its own fill only. -/
theorem Books.statusAt_root (hb : Books s) (ho : s.orders.get? k = some o) (hp : o.parentId = none) :
    s.statusAt snap o = if s.Fires snap k then statusAfter o.kind o.status .filled else o.status := by
  obtain rfl : o.orderId = k := Store.key_of_get? ho
  have hroot : s.bracketChildToParent o.orderId = none := by
    rw [hb.parent, ho, Option.bind_some, hp]
  have hact : ¬s.Activates snap o.orderId := by
    rintro ⟨p, hp', -⟩
    rw [hroot] at hp'
    cases hp'
  have hunder : ¬s.Undercut snap o.orderId := by
    rintro ⟨j, hj, -⟩
    obtain ⟨p, hp', -⟩ := hb.parent_of_sibling hj
    rw [hroot] at hp'
    cases hp'
  rw [Sim.statusAt, if_neg hact, if_neg hunder]

/-- The status of an order that fills. -/
theorem Books.statusAt_of_fires (hb : Books s) (ho : s.orders.get? k = some o) (h : s.Fires snap k) :
    s.statusAt snap o = if s.Undercut snap k then .cancelled
      else statusAfter o.kind o.status .filled := by
  obtain rfl : o.orderId = k := Store.key_of_get? ho
  rw [Sim.statusAt, if_neg (hb.not_activates_of_fires h)]
  split
  · rename_i hunder
    obtain ⟨j, hj, -⟩ := hunder
    obtain ⟨p, hp, -⟩ := hb.parent_of_sibling hj
    rw [hb.submitted_of_candidate h.1 hp ho]
    cases o.kind <;> rfl
  · rfl

end Status

/-! ### Terminal orders -/

section Terminal

variable {s : Sim} {o : OrderRecord}

theorem not_candidate_of_isTerminal (ho : s.orders.get? k = some o)
    (hterm : OrderRecord.isTerminal o.status = true) (snap : MarketSnapshot) :
    k ∉ candidateIds snap s := by
  intro hk
  obtain ⟨o', ho', hactive, -⟩ := mem_candidateIds.mp hk
  obtain rfl : o = o' := Option.some.inj (ho.symm.trans ho')
  cases hst : o.status <;> rw [hst] at hterm hactive <;> simp [OrderRecord.isTerminal, isActive] at *

/-- Whatever is called, a terminal order is a bystander. -/
theorem bystander_exec (hb : Books s) (ho : s.orders.get? k = some o)
    (hterm : OrderRecord.isTerminal o.status = true) (op : Op) :
    Bystander k (s.view k) ((exec rng baseSeed op s).2.view k) := by
  cases op with
  | place req now =>
    cases hrefused : refusal req s with
    | some r =>
      rw [exec, place_of_refusal hrefused, view_emit]
      simp [Bystander.refl]
    | none =>
      have hne : req.orderId ≠ k := by
        rintro rfl
        rw [hb.new_of_accepted hrefused] at ho
        cases ho
      rw [exec, view_place hrefused, if_neg hne]
      exact Bystander.refl k _
  | cancel orderId =>
    rw [exec, view_cancel]
    split
    · exact Bystander.cancel k _
    · exact Bystander.refl k _
  | snapshot snap =>
    exact bystander_onMarketSnapshot rng baseSeed hb (not_candidate_of_isTerminal ho hterm snap)
  | openOrders =>
    rw [exec, view_openOrders]
    exact Bystander.restate k _
  | drainDue now => exact Bystander.refl k _
  | setCommissionDelay orderId delay => exact Bystander.refl k _
  | armDuplicateOrderStatus => exact Bystander.refl k _
  | installOutOfOrderSchedule orderId perm => exact Bystander.refl k _
  | setSlippage slippage => exact Bystander.refl k _
  | setPartialThreshold t => exact Bystander.refl k _

theorem Bystander.record_of_isTerminal {v v' : View} (h : Bystander k v v') (ho : v.record = some o)
    (hterm : OrderRecord.isTerminal o.status = true) : v'.record = some o := by
  obtain ⟨st, hrec, hshift⟩ := h.get ho
  rw [hrec, hshift.terminal hterm]

/-- Once an order is terminal, its record stays, no execution of it is generated, and nothing is booked
    for it, whatever is called. -/
theorem terminal_is_final (rng : Rng) (baseSeed : UInt64) (ops ops' : List Op) (k : OrderId)
    (o : OrderRecord) (ho : (runFrom rng baseSeed ops).2.orders.get? k = some o)
    (hterm : OrderRecord.isTerminal o.status = true) :
    let before := (runFrom rng baseSeed ops).2
    let after := (runFrom rng baseSeed (ops ++ ops')).2
    after.orders.get? k = some o ∧ executions k after.log = executions k before.log ∧
      (after.view k).bookings = (before.view k).bookings := by
  intro before after
  have hrun : runFrom rng baseSeed (ops ++ ops') = run (step rng baseSeed) (runFrom rng baseSeed ops)
      ops' := run_append _ _ _ _
  have hinv := inv_run (step rng baseSeed) (I := fun done => Books done.2 ∧
    done.2.orders.get? k = some o ∧ executions k done.2.log = executions k before.log ∧
      (done.2.view k).bookings = (before.view k).bookings) ?_ ⟨books_runFrom ops, ho, rfl, rfl⟩ ops'
  · rw [← hrun] at hinv
    exact hinv.2
  · rintro done op ⟨hb, hrec, hexec, hbook⟩
    have hby : Bystander k (done.2.view k) ((step rng baseSeed done op).2.view k) :=
      bystander_exec hb hrec hterm op
    have hlog := hby.executions
    simp only [Sim.view, executions_filter] at hlog
    exact ⟨books_step hb op, hby.record_of_isTerminal hrec hterm, hlog.trans hexec,
      hby.bookings.trans hbook⟩

/-- A market order that is cancelled does not fill at the next quote. -/
theorem terminal_is_final_cancelled :
    let ops : List Op := [.place (marketBuy 300) 0, .cancel 7]
    let before := (runFrom (sameWord 1) 42 ops).2
    let after := (runFrom (sameWord 1) 42 (ops ++ [.snapshot (quoteAt 10)])).2
    after.orders.get? 7 = some { (marketBuy 300).record 0 with status := .cancelled } ∧
      executions 7 after.log = executions 7 before.log ∧
        (after.view 7).bookings = (before.view 7).bookings :=
  terminal_is_final (sameWord 1) 42 [.place (marketBuy 300) 0, .cancel 7] [.snapshot (quoteAt 10)] 7
    { (marketBuy 300).record 0 with status := .cancelled } (by decide +kernel) rfl

end Terminal

/-! ### Orders of which nothing remains -/

section Remaining

variable {s : Sim} {snap : MarketSnapshot} {o : OrderRecord}

/-- The amounts on a record. -/
def OrderRecord.amounts (o : OrderRecord) : ℚ × ℚ × ℚ := (o.totalQty, o.filledQty, o.remainingQty)

theorem Bystander.amounts {v v' : View} (h : Bystander k v v') :
    v'.record.map (·.amounts) = v.record.map (·.amounts) := by
  obtain ⟨st, hrec, -⟩ := h.record
  rw [hrec, Option.map_map]
  rfl

variable (rng baseSeed) in
/-- A snapshot that does not meet an order leaves its amounts, its executions and its bookings. -/
theorem unmet_onMarketSnapshot (hb : Books s) (h : ¬s.Fires snap k) :
    let v := s.view k
    let v' := (onMarketSnapshot rng baseSeed snap s).2.view k
    v'.record.map (·.amounts) = v.record.map (·.amounts) ∧
      executions k v'.history = executions k v.history ∧ v'.bookings = v.bookings := by
  intro v v'
  by_cases hk : k ∈ candidateIds snap s
  · obtain ⟨js, s', ha, hafter⟩ := exists_look rng baseSeed hb hk
    have hby := ha.bystander k fun _ => List.mem_cons_self
    have hnone : s'.fillIn snap k = none := by
      rw [ha.fillIn List.mem_cons_self]
      cases hfill : s.fillIn snap k with
      | none => rfl
      | some fill => exact absurd ⟨hk, by rw [hfill]; rfl⟩ h
    rw [view_look_of_none rng baseSeed snap hnone, if_pos rfl] at hafter
    have hseen : ((s'.view k).record.map (·.seen snap s'.slippage)).map (·.amounts) =
        (s'.view k).record.map (·.amounts) := by
      rw [Option.map_map]
      refine Option.map_congr fun o _ => ?_
      simp [OrderRecord.amounts]
    exact ⟨hafter.amounts.trans (hseen.trans hby.amounts), hafter.executions.trans hby.executions,
      hafter.bookings.trans hby.bookings⟩
  · have hby := bystander_onMarketSnapshot rng baseSeed hb hk
    exact ⟨hby.amounts, hby.executions, hby.bookings⟩

variable (rng baseSeed) in
/-- A snapshot that meets an order without a parent fills it and does nothing else to it. -/
theorem view_of_root_fires (hb : Books s) (hroot : s.bracketChildToParent k = none)
    (h : s.Fires snap k) : ∃ s' fill, SameSettings s s' ∧
      (onMarketSnapshot rng baseSeed snap s).2.view k = (s.view k).fill rng baseSeed snap s' fill := by
  obtain ⟨js, s', ha, hbefore, hafter⟩ := exists_look_of rng baseSeed (R := fun v v' => v' = v)
    (fun _ => rfl) (fun h h' => h'.trans h) hb (fun j js s' ha hne =>
      view_look_root rng baseSeed ha.books snap hne
        (by rw [ha.settings.bracketChildToParent, hroot])) h.1
  have hroot' : s'.bracketChildToParent k = none := by
    rw [ha.settings.bracketChildToParent, hroot]
  obtain ⟨fill, hfill⟩ := Option.isSome_iff_exists.mp h.2
  rw [← ha.fillIn List.mem_cons_self] at hfill
  refine ⟨s', fill, ha.settings, ?_⟩
  have hact : k ∉ s'.activated k := fun hk => by
    have hp := ha.books.parent_of_activated hk
    rw [hroot'] at hp
    cases hp
  have hsib : s'.siblingOf k ≠ some k := fun hk => (ha.books.siblingOf_comm hk).2 rfl
  rw [hafter, view_look_of_some rng baseSeed snap hfill (ha.books.activated_nodup k), ← hbefore]
  simp only [if_true, hact, hsib, if_false]

/-- Nothing remains of an order that fills. -/
theorem played_remainingQty (s : Sim) (fill : Fill)
    (h : o.filledQty + o.remainingQty = o.totalQty) :
    (o.played rng baseSeed snap s fill).1.remainingQty = 0 := by
  rw [OrderRecord.played, patternOf_seen, chunksOf_seen]
  cases hpattern : patternOf rng baseSeed o s with
  | a =>
    refine play_remainingQty _ _ _ _ _ ?_
    have hchunks : chunksOf rng baseSeed o s = [o.remainingQty] := by rw [chunksOf, hpattern]; rfl
    rw [hchunks, seen_totalQty, seen_filledQty, ← h]
    rfl
  | b => simp [PatternKind.play]
  | c => simp [PatternKind.play]

/-- The order is terminal, or all of it remains. -/
def OrderRecord.Open (o : OrderRecord) : Prop :=
  OrderRecord.isTerminal o.status = true ∨
    o.filledQty = 0 ∧ o.remainingQty = o.totalQty ∧ o.totalQty ≠ 0

/-- Order `k` is placed for something, and where the market meets it, it may be filled. -/
def MayFill (k : OrderId) (s : Sim) : Op → Prop
  | .place req _ => req.orderId = k → refusal req s = none → req.totalQuantity ≠ 0
  | .snapshot snap => s.Fires snap k →
    ∀ o, s.orders.get? k = some o → transitionAllowed o.kind o.status .filled = true
  | _ => True

/-- An order of which nothing remains is terminal. -/
def Ends (k : OrderId) (s : Sim) : Prop :=
  ∀ o, s.orders.get? k = some o → o.remainingQty = 0 → OrderRecord.isTerminal o.status = true

def AllOpen (k : OrderId) (s : Sim) : Prop := ∀ o, s.orders.get? k = some o → o.Open

theorem AllOpen.ends (h : AllOpen k s) : Ends k s := by
  intro o ho hzero
  rcases h o ho with hterm | ⟨-, hall, hne⟩
  · exact hterm
  · exact absurd (hall.symm.trans hzero) hne

theorem amounts_eq {a b : OrderRecord} (h : a.amounts = b.amounts) :
    a.totalQty = b.totalQty ∧ a.filledQty = b.filledQty ∧ a.remainingQty = b.remainingQty := by
  simpa [OrderRecord.amounts] using h

theorem AllOpen.bystander (h : AllOpen k s) {s' : Sim} (hby : Bystander k (s.view k) (s'.view k)) :
    AllOpen k s' := by
  intro o' ho'
  obtain ⟨o, ho, heq, hshift⟩ := hby.back ho'
  rcases h o ho with hterm | hall
  · left
    rw [hshift.terminal hterm, hterm]
  · right
    rw [heq]
    exact hall

theorem allOpen_snapshot (hb : Books s) (h : AllOpen k s) (hmay : MayFill k s (.snapshot snap)) :
    AllOpen k (onMarketSnapshot rng baseSeed snap s).2 := by
  intro o' ho'
  obtain ⟨o, ho⟩ := known_before hb ho'
  obtain ⟨o₁, ho₁, hsame, hstatus⟩ := status_onMarketSnapshot rng baseSeed snap hb ho
  obtain rfl := Option.some.inj (ho'.symm.trans ho₁)
  by_cases hfires : s.Fires snap k
  · left
    rw [hstatus, hb.statusAt_of_fires ho hfires, statusAfter, if_pos (hmay hfires o ho)]
    split <;> rfl
  · have hamounts := (unmet_onMarketSnapshot rng baseSeed hb hfires).1
    have hrec : (s.view k).record = some o := ho
    have hrec' : ((onMarketSnapshot rng baseSeed snap s).2.view k).record = some o' := ho'
    rw [hrec, hrec', Option.map_some, Option.map_some] at hamounts
    obtain ⟨htotal, hfilled, hremaining⟩ := amounts_eq (Option.some.inj hamounts)
    rcases h o ho with hterm | hall
    · left
      rw [hstatus, statusAt_of_isTerminal hterm, hterm]
    · right
      rw [htotal, hfilled, hremaining]
      exact hall

theorem allOpen_exec (hb : Books s) (h : AllOpen k s) {op : Op} (hop : MayFill k s op) :
    AllOpen k (exec rng baseSeed op s).2 := by
  cases op with
  | place req now =>
    cases hrefused : refusal req s with
    | some r =>
      rw [exec, place_of_refusal hrefused]
      exact h
    | none =>
      intro o ho
      rw [exec, record_place hrefused] at ho
      split at ho
      · rename_i hid
        obtain rfl := Option.some.inj ho
        exact .inr ⟨rfl, rfl, hop hid hrefused⟩
      · exact h o ho
  | cancel orderId =>
    refine h.bystander ?_
    rw [exec, view_cancel]
    split
    · exact Bystander.cancel k _
    · exact Bystander.refl k _
  | snapshot snap => exact allOpen_snapshot hb h hop
  | openOrders => exact h
  | drainDue now => exact h
  | setCommissionDelay orderId delay => exact h
  | armDuplicateOrderStatus => exact h
  | installOutOfOrderSchedule orderId perm => exact h
  | setSlippage slippage => exact h
  | setPartialThreshold t => exact h

/-- A step that leaves nothing of the order to a record that is not terminal did not meet the
    condition. -/
theorem mayFill_of_ends (hb : Books s) (h : AllOpen k s) {op : Op}
    (hends : Ends k (exec rng baseSeed op s).2) : MayFill k s op := by
  cases op with
  | place req now =>
    rintro rfl haccepted hzero
    have hrec : (place req now s).2.orders.get? req.orderId = some (req.record now) := by
      rw [record_place haccepted, if_pos rfl]
    have hterm := hends (req.record now) hrec hzero
    simp only [PlaceOrderReq.record] at hterm
    split_ifs at hterm <;> cases hterm
  | snapshot snap =>
    intro hfires o ho
    by_contra hno
    -- only an order without a parent may not be filled where it is looked at
    have hroot : s.bracketChildToParent k = none := by
      cases hp : s.bracketChildToParent k with
      | none => rfl
      | some p =>
        rw [hb.submitted_of_candidate hfires.1 hp ho, transitionAllowed_submitted_filled] at hno
        exact absurd rfl hno
    obtain ⟨s', fill, -, hview⟩ := view_of_root_fires rng baseSeed hb hroot hfires
    have hrec : (onMarketSnapshot rng baseSeed snap s).2.orders.get? k =
        some (o.played rng baseSeed snap s' fill).1 := by
      refine (congrArg View.record hview).trans ?_
      rw [View.record_fill]
      exact congrArg (Option.map _) ho
    have hlive : OrderRecord.isTerminal o.status = false := by
      cases hterm : OrderRecord.isTerminal o.status with
      | false => rfl
      | true => exact absurd hfires.1 (not_candidate_of_isTerminal ho hterm snap)
    have hall : o.filledQty + o.remainingQty = o.totalQty := by
      rcases h o ho with hterm | ⟨hfilled, hremaining, -⟩
      · rw [hlive] at hterm; cases hterm
      · rw [hfilled, hremaining, zero_add]
    have hterm := hends _ hrec (played_remainingQty s' fill hall)
    rw [OrderRecord.played, play_status, seen_kind, seen_status, statusAfter, if_neg hno,
      hlive] at hterm
    cases hterm
  | _ => trivial

/-- Over a run an order of which nothing remains is terminal exactly when the order is not placed for
    nothing, and the market meets it only where it may be filled: not a stop order that is
    pre-submitted. -/
theorem spent_is_terminal_iff (rng : Rng) (baseSeed : UInt64) (k : OrderId) (ops : List Op) :
    AllStates (step rng baseSeed) (fun done => Ends k done.2) ([], Sim.new) ops ↔
      AllSteps (step rng baseSeed) (fun done op => MayFill k done.2 op) ([], Sim.new) ops := by
  have hempty : AllOpen k Sim.new := fun o ho => by cases ho
  constructor
  · refine allSteps_of_allStates (step rng baseSeed)
      (J := fun done => Books done.2 ∧ AllOpen k done.2) ?_ ?_ ⟨books_new, hempty⟩
    · exact fun done op h hop => ⟨books_step h.1 op, allOpen_exec h.1 h.2 hop⟩
    · exact fun done op h hends => mayFill_of_ends h.1 h.2 hends
  · intro h pre hpre
    have hopen : AllStates (step rng baseSeed) (fun done => AllOpen k done.2) ([], Sim.new) ops :=
      allStates_of_allSteps (step rng baseSeed) (I := fun done => Books done.2)
        (fun done op hb => books_step hb op) (fun done op hb hopen hop => allOpen_exec hb hopen hop)
        books_new hempty h
    exact (hopen pre hpre).ends

end Remaining

/-! ### Groups that wait no more -/

/-- A parent that the market has met is terminal, or may not be filled out of the status it has. -/
def OrderRecord.Spent (o : OrderRecord) : Prop :=
  OrderRecord.isTerminal o.status = true ∨
    o.parentId = none ∧ o.status = .preSubmitted ∧ transitionAllowed o.kind o.status .filled = false

/-- A group waits no more only if the market has met its parent. -/
def GroupsSpent (s : Sim) : Prop :=
  ∀ p g, s.brackets.get? p = some g → g.state ≠ .parentWorking →
    ∃ o, s.orders.get? p = some o ∧ o.Spent

theorem groupsSpent_new : GroupsSpent Sim.new := fun _ _ hg => by cases hg

section Spent

variable {s : Sim} {snap : MarketSnapshot} {o : OrderRecord}

/-- A spent parent that is not terminal is never filled again. -/
theorem OrderRecord.Spent.not_filled (h : o.Spent) (hlive : OrderRecord.isTerminal o.status = false) :
    o.parentId = none ∧ o.status = .preSubmitted ∧
      transitionAllowed o.kind o.status .filled = false := by
  rcases h with h | h
  · rw [hlive] at h; cases h
  · exact h

/-- An order that is cancelled is terminal, as it was if it may not be cancelled. -/
theorem isTerminal_statusAfter_cancelled (kind : OrderKind) (st : OrderStatusCode) :
    OrderRecord.isTerminal (statusAfter kind st .cancelled) = true := by
  unfold statusAfter
  split
  · rfl
  · rename_i hno
    rw [transitionAllowed_cancelled] at hno
    simpa using hno

/-- A snapshot leaves a spent parent spent. -/
theorem Books.spent_after (hb : Books s) (ho : s.orders.get? k = some o) (h : o.Spent)
    {o' : OrderRecord} (hsame : SameOrder o o') (hstatus : o'.status = s.statusAt snap o) :
    o'.Spent := by
  rcases h with hterm | ⟨hroot, hst, hno⟩
  · left
    rw [hstatus, statusAt_of_isTerminal hterm, hterm]
  · have hstay : statusAfter o.kind o.status .filled = o.status := if_neg (by simp [hno])
    have hkeep : s.statusAt snap o = o.status := by
      rw [hb.statusAt_root ho hroot, hstay, ite_self]
    rw [hkeep] at hstatus
    right
    rw [hsame.parentId, hsame.kind, hstatus]
    exact ⟨hroot, hst, hno⟩

/-- A snapshot that meets an order leaves it spent. -/
theorem Books.spent_of_fires (hb : Books s) (ho : s.orders.get? k = some o) (h : s.Fires snap k)
    {o' : OrderRecord} (hsame : SameOrder o o') (hstatus : o'.status = s.statusAt snap o) :
    o'.Spent := by
  rw [hb.statusAt_of_fires ho h] at hstatus
  split at hstatus
  · left
    rw [hstatus]
    rfl
  · cases hallowed : transitionAllowed o.kind o.status .filled with
    | true =>
      left
      rw [hstatus, statusAfter, if_pos hallowed]
      rfl
    | false =>
      -- Only a stop order without a parent may not be filled where it is.
      rw [statusAfter, if_neg (by simp [hallowed])] at hstatus
      cases hp : o.parentId with
      | some p =>
        have hparent : s.bracketChildToParent k = some p := by
          rw [hb.parent, ho, Option.bind_some, hp]
        rw [hb.submitted_of_candidate h.1 hparent ho, transitionAllowed_submitted_filled] at hallowed
        cases hallowed
      | none =>
        obtain ⟨o₁, ho₁, hactive, -⟩ := mem_candidateIds.mp h.1
        obtain rfl : o = o₁ := Option.some.inj (ho.symm.trans ho₁)
        right
        rw [hsame.parentId, hsame.kind, hstatus]
        refine ⟨hp, ?_, hallowed⟩
        rcases hb.rootStatus k o ho hp with hst | hst | hst | hst
        · exact hst
        · rw [hst, transitionAllowed_submitted_filled] at hallowed; cases hallowed
        · rw [hst] at hactive; cases hactive
        · rw [hst] at hactive; cases hactive

variable (rng baseSeed) in
/-- A group waits on after a snapshot, unless its parent is met. -/
theorem group_onMarketSnapshot (hb : Books s) {p : OrderId} {g' : BracketGroup}
    (hg : (onMarketSnapshot rng baseSeed snap s).2.brackets.get? p = some g')
    (hw : g'.state ≠ .parentWorking) :
    s.Fires snap p ∨ ∃ g, s.brackets.get? p = some g ∧ g.state ≠ .parentWorking := by
  refine (snapshot_walk rng baseSeed (I := fun _ s' => ∀ p g', s'.brackets.get? p = some g' →
    g'.state ≠ .parentWorking →
      s.Fires snap p ∨ ∃ g, s.brackets.get? p = some g ∧ g.state ≠ .parentWorking) ?_ hb
    fun p g hg hw => .inr ⟨g, hg, hw⟩).2 p g' hg hw
  intro j js s' ha ih p g' hg' hw'
  cases hfill : s'.fillIn snap j with
  | none =>
    rw [(sameGroups_look_of_none rng baseSeed snap hfill).brackets] at hg'
    exact ih p g' hg' hw'
  | some fill =>
    rw [brackets_look_of_some rng baseSeed snap hfill] at hg'
    obtain ⟨g, hg, rfl⟩ := Option.map_eq_some_iff.mp hg'
    by_cases hgw : g.state = .parentWorking
    · obtain rfl : g.parentId = p := Store.key_of_get? hg
      by_cases hj : g.parentId = j
      · refine .inl ⟨hj ▸ ha.candidate List.mem_cons_self, ?_⟩
        rw [hj, ← ha.fillIn List.mem_cons_self, hfill]
        rfl
      · -- The group would have to be that of `j` as a child; but `j` waits no more.
        exfalso
        have hactivate : g.activate j = g := if_neg fun h => hj h.1
        rw [hactivate, BracketGroup.cancel] at hw'
        split at hw'
        · rename_i hcancel
          exact ha.not_parentWorking List.mem_cons_self hcancel.1 hg hgw
        · exact hw' hgw
    · exact ih p g hg hgw

theorem groupsSpent_onMarketSnapshot (hb : Books s) (h : GroupsSpent s) :
    GroupsSpent (onMarketSnapshot rng baseSeed snap s).2 := by
  intro p g' hg' hw'
  rcases group_onMarketSnapshot rng baseSeed hb hg' hw' with hfires | ⟨g, hg, hw⟩
  · obtain ⟨o, ho, -⟩ := mem_candidateIds.mp hfires.1
    obtain ⟨o', ho', hsame, hstatus⟩ := status_onMarketSnapshot rng baseSeed snap hb ho
    exact ⟨o', ho', hb.spent_of_fires ho hfires hsame hstatus⟩
  · obtain ⟨o, ho, hspent⟩ := h p g hg hw
    obtain ⟨o', ho', hsame, hstatus⟩ := status_onMarketSnapshot rng baseSeed snap hb ho
    exact ⟨o', ho', hb.spent_after ho hspent hsame hstatus⟩

theorem groupsSpent_place (hb : Books s) (h : GroupsSpent s) {req : PlaceOrderReq}
    (haccepted : refusal req s = none) (now : VirtualInstant) : GroupsSpent (place req now s).2 := by
  intro p g hg hw
  have hold : ∀ g, s.brackets.get? p = some g → g.state ≠ .parentWorking →
      ∃ o, (place req now s).2.orders.get? p = some o ∧ o.Spent := by
    intro g hg hw
    obtain ⟨o, ho, hspent⟩ := h p g hg hw
    refine ⟨o, ?_, hspent⟩
    have hne : req.orderId ≠ p := by
      rintro rfl
      rw [hb.new_of_accepted haccepted] at ho
      cases ho
    rw [record_place haccepted, if_neg hne, ho]
  rcases group_place haccepted now hg with hg | ⟨-, rfl⟩ | ⟨-, -, rfl⟩
  · exact hold g hg hw
  · rw [BracketGroup.slot_state] at hw
    rcases groupOf_cases s p req.ocaGroup with hg | ⟨-, hnew⟩
    · exact hold _ hg hw
    · rw [hnew] at hw
      exact absurd rfl hw
  · exact absurd rfl hw

theorem groupsSpent_exec (hb : Books s) (h : GroupsSpent s) (op : Op) :
    GroupsSpent (exec rng baseSeed op s).2 := by
  cases op with
  | place req now =>
    cases hrefused : refusal req s with
    | some r =>
      rw [exec, place_of_refusal hrefused]
      exact h
    | none => exact groupsSpent_place hb h hrefused now
  | cancel orderId =>
    intro p g hg hw
    have hgroups : (exec rng baseSeed (.cancel orderId) s).2.brackets = s.brackets :=
      (sameGroups_cancel orderId s).brackets
    rw [hgroups] at hg
    obtain ⟨o, ho, hspent⟩ := h p g hg hw
    refine ⟨_, (record_cancelled orderId p s).trans (congrArg (Option.map _) ho), ?_⟩
    dsimp only
    split
    · exact .inl (by rw [OrderRecord.transition_status, isTerminal_statusAfter_cancelled])
    · exact hspent
  | snapshot snap => exact groupsSpent_onMarketSnapshot hb h
  | openOrders => exact h
  | drainDue now => exact h
  | setCommissionDelay orderId delay => exact h
  | armDuplicateOrderStatus => exact h
  | installOutOfOrderSchedule orderId perm => exact h
  | setSlippage slippage => exact h
  | setPartialThreshold t => exact h

end Spent

/-! ### Children and their parent -/

/-- No child of a filled parent waits, and no child of a cancelled one is live. -/
def Settled (s : Sim) : Prop :=
  ∀ p c po co, s.orders.get? p = some po → s.orders.get? c = some co → co.parentId = some p →
    (po.status = .filled → co.status ≠ .inactive) ∧
      (po.status = .cancelled → OrderRecord.isTerminal co.status = true)

/-- Nobody joins a parent that is filled or cancelled, and no order is cancelled that has live
    children. A snapshot does not meet the sibling of an order before it while a child of the order
    waits; and if it fills the order, the children that wait are in its slots. -/
def KeepsUp (s : Sim) : Op → Prop
  | .place req _ => refusal req s = none → ∀ p po, req.parentId = some p →
    s.orders.get? p = some po → po.status ≠ .filled ∧ po.status ≠ .cancelled
  | .cancel k => ∀ o c co, s.orders.get? k = some o → OrderRecord.isTerminal o.status = false →
    s.orders.get? c = some co → co.parentId = some k → c ≠ k → OrderRecord.isTerminal co.status = true
  | .snapshot snap => ∀ p c po co, s.orders.get? p = some po →
    OrderRecord.isTerminal po.status = false → s.orders.get? c = some co → co.parentId = some p →
      co.status = .inactive → ¬s.Undercut snap p ∧
        (s.Fires snap p → transitionAllowed po.kind po.status .filled = true → c ∈ s.activated p)
  | _ => True

section Settled

variable {s : Sim} {snap : MarketSnapshot}

theorem settled_place_iff (hb : Books s) (hs : Settled s) {req : PlaceOrderReq}
    (haccepted : refusal req s = none) (now : VirtualInstant) :
    Settled (place req now s).2 ↔ KeepsUp s (.place req now) := by
  have hrec := record_place haccepted now
  have hnew := hb.new_of_accepted haccepted
  have hold : ∀ k o, s.orders.get? k = some o → req.orderId ≠ k := by
    rintro k o ho rfl
    rw [hnew] at ho
    cases ho
  have hst : (req.record now).status ≠ .filled ∧ (req.record now).status ≠ .cancelled := by
    simp only [PlaceOrderReq.record]
    split_ifs <;> simp
  constructor
  · intro hs' _ p po hp hpo
    have hchild : (req.record now).status = .inactive := by simp [PlaceOrderReq.record, hp]
    have h := hs' p req.orderId po (req.record now) (by rw [hrec, if_neg (hold p po hpo), hpo])
      (by rw [hrec, if_pos rfl]) hp
    rw [hchild] at h
    exact ⟨fun hf => h.1 hf rfl, fun hc => by simpa [OrderRecord.isTerminal] using h.2 hc⟩
  · intro hkeeps p c po co hpo hco hp
    rw [hrec] at hpo hco
    split at hpo
    · obtain rfl := Option.some.inj hpo
      exact ⟨fun hf => absurd hf hst.1, fun hc => absurd hc hst.2⟩
    · split at hco
      · obtain rfl := Option.some.inj hco
        obtain ⟨h₁, h₂⟩ := hkeeps haccepted p po hp hpo
        exact ⟨fun hf => absurd hf h₁, fun hc => absurd hc h₂⟩
      · exact hs p c po co hpo hco hp

theorem settled_cancel_iff (hs : Settled s) (k : OrderId) :
    Settled (cancel k s).2 ↔ KeepsUp s (.cancel k) := by
  have hrec := fun j => record_cancelled k j s
  constructor
  · intro hs' o c co ho hlive hco hp hne
    have hcancelled : (o.transition .cancelled).status = .cancelled := by
      rw [OrderRecord.transition_status, statusAfter, transitionAllowed_cancelled, hlive]
      rfl
    exact (hs' k c (o.transition .cancelled) co (by rw [hrec, ho]; simp)
      (by rw [hrec, hco]; simp [Ne.symm hne]) hp).2 hcancelled
  · intro hkeeps p c po' co' hpo' hco' hp
    rw [hrec] at hpo' hco'
    obtain ⟨po, hpo, rfl⟩ := Option.map_eq_some_iff.mp hpo'
    obtain ⟨co, hco, rfl⟩ := Option.map_eq_some_iff.mp hco'
    have hparent : co.parentId = some p := by
      split at hp
      · simpa using hp
      · exact hp
    have h := hs p c po co hpo hco hparent
    by_cases hkc : k = c
    · -- A child that is cancelled is terminal, whatever becomes of its parent.
      have hterm : OrderRecord.isTerminal (co.transition .cancelled).status = true := by
        rw [OrderRecord.transition_status, isTerminal_statusAfter_cancelled]
      rw [if_pos hkc]
      refine ⟨fun _ hin => ?_, fun _ => hterm⟩
      rw [hin] at hterm
      cases hterm
    · rw [if_neg hkc]
      by_cases hkp : k = p
      · subst hkp
        rw [if_pos rfl, OrderRecord.transition_status, statusAfter, transitionAllowed_cancelled]
        cases hlive : OrderRecord.isTerminal po.status with
        | true => simpa using h
        | false => exact ⟨by simp, fun _ => hkeeps po c co hpo hlive hco hparent (Ne.symm hkc)⟩
      · rw [if_neg hkp]
        exact h

/-- While a parent is live and may be filled, or is a child itself, its children wait. -/
theorem GroupsSpent.waiting (hg : GroupsSpent s) (hb : Books s) {p c : OrderId} {po co : OrderRecord}
    (hpo : s.orders.get? p = some po) (hlive : OrderRecord.isTerminal po.status = false)
    (hmay : po.parentId ≠ none ∨ transitionAllowed po.kind po.status .filled = true)
    (hco : s.orders.get? c = some co) (hp : co.parentId = some p) :
    ∃ g, s.brackets.get? p = some g ∧ g.state = .parentWorking ∧ WaitingStatus co.status := by
  obtain ⟨g, hgroup⟩ := hb.grouped p c co hco hp
  have hw : g.state = .parentWorking := by
    by_contra hw
    obtain ⟨po', hpo', hspent⟩ := hg p g hgroup hw
    obtain rfl : po = po' := Option.some.inj (hpo.symm.trans hpo')
    obtain ⟨hroot, -, hno⟩ := hspent.not_filled hlive
    rcases hmay with hmay | hmay
    · exact hmay hroot
    · rw [hno] at hmay; cases hmay
  exact ⟨g, hgroup, hw, hb.waiting p g c co hgroup hw hco hp⟩

/-- While its group waits, a child has to do with the fill of its parent only. -/
theorem Books.statusAt_waiting (hb : Books s) {p c : OrderId} {co : OrderRecord} {g : BracketGroup}
    (hgroup : s.brackets.get? p = some g) (hw : g.state = .parentWorking)
    (hco : s.orders.get? c = some co) (hp : co.parentId = some p) :
    s.statusAt snap co = if s.Fires snap p ∧ c ∈ s.activated p
      then statusAfter co.kind co.status .submitted else co.status := by
  obtain rfl : co.orderId = c := Store.key_of_get? hco
  have hparent : s.bracketChildToParent co.orderId = some p := by
    rw [hb.parent, hco, Option.bind_some, hp]
  have hidle : ∀ j, s.bracketChildToParent j = some p → ¬s.Fires snap j := fun j hj hfires =>
    hb.not_parentWorking hfires.1 hj hgroup hw
  have hact : s.Activates snap co.orderId ↔ s.Fires snap p ∧ co.orderId ∈ s.activated p := by
    constructor
    · rintro ⟨q, hq, h⟩
      obtain rfl := Option.some.inj (hparent.symm.trans hq)
      exact h
    · exact fun h => ⟨p, hparent, h⟩
  have hunder : ¬s.Undercut snap co.orderId := by
    rintro ⟨j, hj, hfires, -⟩
    obtain ⟨q, hq, hjq⟩ := hb.parent_of_sibling hj
    obtain rfl := Option.some.inj (hparent.symm.trans hq)
    exact hidle j hjq hfires
  simp only [Sim.statusAt, hact, hunder, hidle _ hparent, if_false]

/-- A live order is filled by a snapshot that meets it, unless a sibling's fill comes before. -/
theorem Books.statusAt_eq_filled (hb : Books s) {p : OrderId} {po : OrderRecord}
    (hpo : s.orders.get? p = some po) (hlive : OrderRecord.isTerminal po.status = false) :
    s.statusAt snap po = .filled ↔ s.Fires snap p ∧ ¬s.Undercut snap p ∧
      transitionAllowed po.kind po.status .filled = true := by
  obtain rfl : po.orderId = p := Store.key_of_get? hpo
  have hmoved : ∀ tgt, tgt ≠ .filled → statusAfter po.kind po.status tgt ≠ .filled := by
    intro tgt htgt
    unfold statusAfter
    split
    · exact htgt
    · rintro hst
      rw [hst] at hlive
      cases hlive
  constructor
  · intro h
    unfold Sim.statusAt at h
    split_ifs at h with hact hunder hfires
    · exact absurd h (hmoved _ (by simp))
    · exact absurd h (hmoved _ (by simp))
    · refine ⟨hfires, hunder, ?_⟩
      by_contra hno
      rw [statusAfter, if_neg hno] at h
      rw [h] at hlive
      cases hlive
    · rw [h] at hlive
      cases hlive
  · rintro ⟨hfires, hunder, hallowed⟩
    rw [hb.statusAt_of_fires hpo hfires, if_neg hunder, statusAfter, if_pos hallowed]

/-- A live order is cancelled by a snapshot exactly when a sibling's fill comes before its own. -/
theorem Books.statusAt_eq_cancelled (hb : Books s) {p : OrderId} {po : OrderRecord}
    (hpo : s.orders.get? p = some po) (hlive : OrderRecord.isTerminal po.status = false) :
    s.statusAt snap po = .cancelled ↔ s.Undercut snap p := by
  obtain rfl : po.orderId = p := Store.key_of_get? hpo
  have hmoved : ∀ tgt, tgt ≠ .cancelled → statusAfter po.kind po.status tgt ≠ .cancelled := by
    intro tgt htgt
    unfold statusAfter
    split
    · exact htgt
    · rintro hst
      rw [hst] at hlive
      cases hlive
  constructor
  · intro h
    unfold Sim.statusAt at h
    split_ifs at h with hact hunder hfires
    · exact absurd h (hmoved _ (by simp))
    · exact hunder
    · exact absurd h (hmoved _ (by simp))
    · rw [h] at hlive
      cases hlive
  · intro hunder
    have hact : ¬s.Activates snap po.orderId := by
      rintro ⟨p, hp, -, hact⟩
      obtain ⟨j, hj, hfires, -⟩ := hunder
      obtain ⟨q, hq, hjq⟩ := hb.parent_of_sibling hj
      obtain rfl := Option.some.inj (hp.symm.trans hq)
      rw [hb.parent_not_working hfires.1 hjq] at hact
      cases hact
    rw [Sim.statusAt, if_neg hact, if_pos hunder, statusAfter, transitionAllowed_cancelled, hlive]
    rfl

/-- Only a child is cancelled by the fill of another order. -/
theorem Books.child_of_undercut (hb : Books s) {p : OrderId} {po : OrderRecord}
    (hpo : s.orders.get? p = some po) (h : s.Undercut snap p) : po.parentId ≠ none := by
  obtain ⟨j, hj, -⟩ := h
  obtain ⟨q, hq, -⟩ := hb.parent_of_sibling hj
  rw [hb.parent, hpo, Option.bind_some] at hq
  exact Option.ne_none_iff_exists'.mpr ⟨q, hq⟩

variable (rng baseSeed) in
theorem settled_snapshot_iff (hb : Books s) (hg : GroupsSpent s) (hs : Settled s) :
    Settled (onMarketSnapshot rng baseSeed snap s).2 ↔ KeepsUp s (.snapshot snap) := by
  have hafter := fun k o (ho : s.orders.get? k = some o) =>
    status_onMarketSnapshot rng baseSeed snap hb ho
  constructor
  · intro hs' p c po co hpo hlive hco hp hin
    obtain ⟨po', hpo', hpsame, hpstatus⟩ := hafter p po hpo
    obtain ⟨co', hco', hcsame, hcstatus⟩ := hafter c co hco
    have h := hs' p c po' co' hpo' hco' (hcsame.parentId.trans hp)
    rw [hpstatus, hcstatus] at h
    have hunder : ¬s.Undercut snap p := by
      intro hunder
      obtain ⟨g, hgroup, hw, -⟩ :=
        hg.waiting hb hpo hlive (.inl (hb.child_of_undercut hpo hunder)) hco hp
      have hterm := h.2 ((hb.statusAt_eq_cancelled hpo hlive).mpr hunder)
      rw [hb.statusAt_waiting hgroup hw hco hp, hin] at hterm
      split at hterm <;> cases hterm
    refine ⟨hunder, fun hfires hallowed => ?_⟩
    obtain ⟨g, hgroup, hw, -⟩ := hg.waiting hb hpo hlive (.inr hallowed) hco hp
    have hne := h.1 ((hb.statusAt_eq_filled hpo hlive).mpr ⟨hfires, hunder, hallowed⟩)
    by_contra hnot
    rw [hb.statusAt_waiting hgroup hw hco hp, if_neg fun h => hnot h.2] at hne
    exact hne hin
  · intro hkeeps p c po' co' hpo' hco' hp
    obtain ⟨po, hpo⟩ := known_before hb hpo'
    obtain ⟨co, hco⟩ := known_before hb hco'
    obtain ⟨po₁, hpo₁, -, hpstatus⟩ := hafter p po hpo
    obtain ⟨co₁, hco₁, hcsame, hcstatus⟩ := hafter c co hco
    obtain rfl := Option.some.inj (hpo'.symm.trans hpo₁)
    obtain rfl := Option.some.inj (hco'.symm.trans hco₁)
    have hparent : co.parentId = some p := hcsame.parentId.symm.trans hp
    have h := hs p c po co hpo hco hparent
    rw [hpstatus, hcstatus]
    cases hlive : OrderRecord.isTerminal po.status with
    | true =>
      rw [statusAt_of_isTerminal hlive]
      refine ⟨fun hf => statusAt_ne_inactive (h.1 hf), fun hc => ?_⟩
      rw [statusAt_of_isTerminal (h.2 hc)]
      exact h.2 hc
    | false =>
      have hkeep := hkeeps p c po co hpo hlive hco hparent
      constructor
      · intro hf hin
        obtain ⟨hfires, hunder, hallowed⟩ := (hb.statusAt_eq_filled hpo hlive).mp hf
        have hin' : co.status = .inactive := by
          by_contra hne
          exact statusAt_ne_inactive hne hin
        obtain ⟨g, hgroup, hw, -⟩ := hg.waiting hb hpo hlive (.inr hallowed) hco hparent
        rw [hb.statusAt_waiting hgroup hw hco hparent,
          if_pos ⟨hfires, (hkeep hin').2 hfires hallowed⟩, hin'] at hin
        cases hin
      · intro hc
        have hunder := (hb.statusAt_eq_cancelled hpo hlive).mp hc
        obtain ⟨g, hgroup, hw, hwait⟩ :=
          hg.waiting hb hpo hlive (.inl (hb.child_of_undercut hpo hunder)) hco hparent
        rcases hwait with hin | hcancelled
        · exact absurd hunder (hkeep hin).1
        · have hterm : OrderRecord.isTerminal co.status = true := by rw [hcancelled]; rfl
          rw [statusAt_of_isTerminal hterm, hterm]

theorem settled_exec_iff (hb : Books s) (hg : GroupsSpent s) (hs : Settled s) (op : Op) :
    Settled (exec rng baseSeed op s).2 ↔ KeepsUp s op := by
  cases op with
  | place req now =>
    cases hrefused : refusal req s with
    | some r =>
      rw [exec, place_of_refusal hrefused]
      exact ⟨fun _ h => (Option.some_ne_none r (hrefused.symm.trans h)).elim, fun _ => hs⟩
    | none => exact settled_place_iff hb hs hrefused now
  | cancel orderId => exact settled_cancel_iff hs orderId
  | snapshot snap => exact settled_snapshot_iff rng baseSeed hb hg hs
  | openOrders => exact ⟨fun _ => trivial, fun _ => hs⟩
  | drainDue now => exact ⟨fun _ => trivial, fun _ => hs⟩
  | setCommissionDelay orderId delay => exact ⟨fun _ => trivial, fun _ => hs⟩
  | armDuplicateOrderStatus => exact ⟨fun _ => trivial, fun _ => hs⟩
  | installOutOfOrderSchedule orderId perm => exact ⟨fun _ => trivial, fun _ => hs⟩
  | setSlippage slippage => exact ⟨fun _ => trivial, fun _ => hs⟩
  | setPartialThreshold t => exact ⟨fun _ => trivial, fun _ => hs⟩

end Settled

/-- In a run the children of every bracket follow their parent exactly when every step of it keeps up:
    nobody joins too late, is cancelled alone, or waits outside the slots. -/
theorem children_follow_parent_iff (rng : Rng) (baseSeed : UInt64) (ops : List Op) :
    AllStates (step rng baseSeed) (fun done => Settled done.2) ([], Sim.new) ops ↔
      AllSteps (step rng baseSeed) (fun done op => KeepsUp done.2 op) ([], Sim.new) ops := by
  refine allStates_iff_allSteps (step rng baseSeed)
    (I := fun done => Books done.2 ∧ GroupsSpent done.2) ?_ ?_ ⟨books_new, groupsSpent_new⟩ ?_ ops
  · exact fun done op h => ⟨books_step h.1 op, groupsSpent_exec h.1 h.2 op⟩
  · exact fun done op h hs => settled_exec_iff h.1 h.2 hs op
  · exact fun p c po co hpo => by cases hpo

end Midas.IbSim
