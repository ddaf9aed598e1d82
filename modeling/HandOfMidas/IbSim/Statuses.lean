import HandOfMidas.IbSim.Lifecycle

/-! What the status messages of an order tell, heard one after the other in the order in which they are
    generated: the shares that are filled, the shares that remain, and the way from status to status. -/

namespace Midas.IbSim

variable {rng : Rng} {baseSeed : UInt64} {s : Sim} {snap : MarketSnapshot} {k : OrderId}

/-! ### A listener -/

/-- What a listener knows of an order: the shares executed, and the status it was told last. -/
structure Heard where
  executed : ℚ
  told : Option OrderStatusCode

/-- Nothing heard yet. -/
def Heard.nothing : Heard := ⟨0, none⟩

def hear (h : Heard) : OrderEmission → Heard
  | .execution x => { h with executed := h.executed + x.shares }
  | .orderStatus m => { h with told := some m.status }
  | _ => h

/-- What was heard after these messages. -/
abbrev heard (l : List OrderEmission) : Heard := run hear .nothing l

/-- A status message tells what was executed before it. -/
def TellsFilled (h : Heard) : OrderEmission → Prop
  | .orderStatus m => m.filled = h.executed
  | _ => True

/-- What a status message tells to be filled and to remain adds up. -/
def TellsTotal (total : ℚ) : OrderEmission → Prop
  | .orderStatus m => m.filled + m.remaining = total
  | _ => True

/-- A status message tells the last status again, or one that an order of the kind may go to. -/
def TellsStatus (kind : OrderKind) (h : Heard) : OrderEmission → Prop
  | .orderStatus m => ∀ st ∈ h.told, m.status = st ∨ transitionAllowed kind st m.status = true
  | _ => True

theorem heard_append (l l' : List OrderEmission) : heard (l ++ l') = run hear (heard l) l' :=
  run_append _ _ _ _

@[simp] theorem hear_execution (h : Heard) (x : Execution) :
    hear h (.execution x) = ⟨h.executed + x.shares, h.told⟩ := rfl

@[simp] theorem hear_orderStatus (h : Heard) (m : OrderStatus) :
    hear h (.orderStatus m) = ⟨h.executed, some m.status⟩ := rfl

@[simp] theorem hear_emitOrderStatus (h : Heard) (o : OrderRecord) (st : OrderStatusCode) :
    hear h (emitOrderStatus o st) = ⟨h.executed, some st⟩ := rfl

/-! ### What is filled -/

/-- Every status message told what was executed, and the record has it too. -/
structure View.Counts (v : View) : Prop where
  told : AllSteps hear TellsFilled .nothing v.history
  executed : ∀ o, v.record = some o → (heard v.history).executed = o.filledQty

section Counts

variable {v : View}

theorem View.Counts.become (h : v.Counts) {o : OrderRecord} {out : List OrderEmission}
    (htold : AllSteps hear TellsFilled (heard v.history) out)
    (hexecuted : (run hear (heard v.history) out).executed = o.filledQty) : (v.become o out).Counts where
  told := (allSteps_append hear).mpr ⟨h.told, htold⟩
  executed o' ho' := by
    obtain rfl := Option.some.inj ho'
    rw [View.become, heard_append]
    exact hexecuted

/-- One more status message, with the shares that the record has. -/
theorem View.Counts.orderStatus (h : v.Counts) {o o' : OrderRecord} (hr : v.record = some o)
    (hsame : o'.filledQty = o.filledQty) {m : OrderStatus} (hm : m.filled = o.filledQty) :
    (v.become o' [.orderStatus m]).Counts := by
  have hfilled := h.executed o hr
  refine h.become ?_ ?_
  · rw [allSteps_cons]
    exact ⟨hm.trans hfilled.symm, allSteps_nil hear⟩
  · rw [hsame]
    exact hfilled

theorem View.Counts.activate (h : v.Counts) (hzero : ∀ o, v.record = some o → o.filledQty = 0)
    (parentId : OrderId) : (v.activate parentId).Counts := by
  unfold View.activate
  split
  · exact h
  · rename_i o hr
    exact h.orderStatus hr (o.transition_filledQty _) (hzero o hr).symm

theorem View.Counts.ocaCancel (h : v.Counts) (parentId : OrderId) : (v.ocaCancel parentId).Counts := by
  unfold View.ocaCancel
  split
  · exact h
  · rename_i o hr
    split
    · exact h.orderStatus hr (o.transition_filledQty _) (o.transition_filledQty _)
    · exact h

theorem View.Counts.cancel (h : v.Counts) : v.cancel.Counts := by
  unfold View.cancel
  split
  · exact h
  · rename_i o hr
    split
    · exact h.orderStatus hr (o.transition_filledQty _) (o.transition_filledQty _)
    · exact h

theorem View.Counts.restate (h : v.Counts) : v.restate.Counts := by
  unfold View.restate
  split
  · exact h
  · rename_i o hr
    split
    · have hmore : (v.become o [.orderStatus (orderStatusOf o o.status)]).Counts :=
        h.orderStatus hr rfl rfl
      have heq : v.extend [emitOrderStatus o o.status] [] = v.become o [.orderStatus
          (orderStatusOf o o.status)] := by
        obtain ⟨record, history, bookings⟩ := v
        obtain rfl : record = some o := hr
        simp [View.extend, View.become, emitOrderStatus]
      rw [heq]
      exact hmore
    · exact h

theorem View.Counts.seen (h : v.Counts) (snap : MarketSnapshot) (slippage : SlippageKind) :
    View.Counts { v with record := v.record.map (OrderRecord.seen snap slippage) } where
  told := h.told
  executed o' ho' := by
    obtain ⟨o, ho, rfl⟩ := Option.map_eq_some_iff.mp ho'
    rw [seen_filledQty]
    exact h.executed o ho

theorem tellsFilled_play (p : PatternKind) (o : OrderRecord) (fill : Fill) (counter : ℕ)
    (chunks : List ℚ) {h : Heard} (hexecuted : h.executed = o.filledQty) :
    AllSteps hear TellsFilled h (p.play o fill counter chunks).2 ∧
      (run hear h (p.play o fill counter chunks).2).executed =
        (p.play o fill counter chunks).1.filledQty := by
  cases p <;> simp [PatternKind.play, allSteps_cons, TellsFilled, emitOrderStatus, orderStatusOf,
    executionOf, hexecuted]

theorem View.Counts.fill (h : v.Counts) (snap : MarketSnapshot) (s : Sim) (fill : Fill) :
    (v.fill rng baseSeed snap s fill).Counts := by
  cases hr : v.record with
  | none => simpa only [View.fill, hr] using h
  | some o =>
    rw [View.fill_of_some hr]
    obtain ⟨htold, hexecuted⟩ := tellsFilled_play (patternOf rng baseSeed o s)
      (o.seen snap s.slippage) fill s.execCounter (chunksOf rng baseSeed o s)
      (h := heard v.history) (by rw [seen_filledQty]; exact h.executed o hr)
    have hbecome := h.become htold hexecuted
    simp only [View.extend, List.append_nil]
    exact ⟨hbecome.told, hbecome.executed⟩

end Counts

/-- While a group waits, nothing of its children is filled. -/
def Idle (s : Sim) : Prop :=
  ∀ p g c o, s.brackets.get? p = some g → g.state = .parentWorking → s.orders.get? c = some o →
    o.parentId = some p → o.filledQty = 0

structure Counted (s : Sim) : Prop where
  idle : Idle s
  counts : ∀ k, (s.view k).Counts

theorem counted_new : Counted Sim.new := by
  refine ⟨fun p g c o h => ?_, fun k => ⟨allSteps_nil hear, fun o h => ?_⟩⟩
  · cases h
  · cases h

theorem filledQty_recordAfter {j : OrderId} (hne : j ≠ k) (s : Sim) (fill : Fill) (o : OrderRecord) :
    (s.recordAfter rng baseSeed snap fill j k o).filledQty = o.filledQty := by
  have hif : ∀ (P : Prop) [Decidable P] (o : OrderRecord) (tgt : OrderStatusCode),
      (if P then o.transition tgt else o).filledQty = o.filledQty := by
    intro P _ o tgt
    split
    · exact o.transition_filledQty tgt
    · rfl
  dsimp only [Sim.recordAfter]
  rw [hif, hif, if_neg hne]

theorem counted_look {s' : Sim} {j : OrderId} {js : List OrderId} (ha : Ahead snap s (j :: js) s')
    (h : Counted s') : Counted (look rng baseSeed snap j s').2 := by
  have hnd := ha.books.activated_nodup j
  cases hfill : s'.fillIn snap j with
  | none =>
    have hview := view_look_of_none rng baseSeed snap hfill
    constructor
    case idle =>
      intro p g c o' hg hw ho' hp
      rw [(sameGroups_look_of_none rng baseSeed snap hfill).brackets] at hg
      have hrec : ((look rng baseSeed snap j s').2.view c).record = some o' := ho'
      rw [hview] at hrec
      split at hrec
      · obtain ⟨o, ho, rfl⟩ := Option.map_eq_some_iff.mp hrec
        rw [seen_filledQty]
        exact h.idle p g c o hg hw ho (by simpa using hp)
      · exact h.idle p g c o' hg hw hrec hp
    case counts =>
      intro k
      rw [hview]
      split
      · exact (h.counts k).seen snap _
      · exact h.counts k
  | some fill =>
    constructor
    case idle =>
      intro p g' c o' hg' hw' ho' hp
      rw [brackets_look_of_some rng baseSeed snap hfill] at hg'
      obtain ⟨g, hg, rfl⟩ := Option.map_eq_some_iff.mp hg'
      obtain ⟨hw, -⟩ := parentWorking_after hw'
      rw [record_look_of_some hfill hnd] at ho'
      obtain ⟨o, ho, rfl⟩ := Option.map_eq_some_iff.mp ho'
      have hp' : o.parentId = some p := (sameOrder_recordAfter snap s' fill j c o).parentId.symm.trans hp
      have hne : j ≠ c := by
        rintro rfl
        have hparent : s'.bracketChildToParent j = some p := by
          rw [ha.books.parent, ho, Option.bind_some, hp']
        exact ha.not_parentWorking List.mem_cons_self hparent hg hw
      rw [filledQty_recordAfter hne]
      exact h.idle p g c o hg hw ho hp'
    case counts =>
      intro k
      have hactivated : k ∈ s'.activated j → j ≠ k ∧ ∀ o, (s'.view k).record = some o →
          o.filledQty = 0 := by
        intro hk
        obtain ⟨g, o, hg, hw, ho, hp⟩ := ha.books.of_mem_activated hk
        refine ⟨?_, fun o' ho' => ?_⟩
        · rintro rfl
          have hparent := ha.books.parent_of_activated hk
          exact ha.not_parentWorking List.mem_cons_self hparent hg hw
        · obtain rfl := Option.some.inj (ho.symm.trans ho')
          exact h.idle j g k o hg hw ho hp
      rw [view_look_of_some rng baseSeed snap hfill hnd]
      have hcancel : ∀ v : View, v.Counts → View.Counts (if s'.siblingOf j = some k
          then v.ocaCancel ((s'.bracketChildToParent j).getD 0) else v) := by
        intro v hv
        split
        · exact hv.ocaCancel _
        · exact hv
      refine hcancel _ ?_
      split
      · rename_i hact
        obtain ⟨hne, hzero⟩ := hactivated hact
        rw [if_neg hne]
        exact (h.counts k).activate hzero j
      · split
        · exact (h.counts k).fill snap s' fill
        · exact h.counts k

theorem counted_place (hb : Books s) (h : Counted s) {req : PlaceOrderReq}
    (haccepted : refusal req s = none) (now : VirtualInstant) : Counted (place req now s).2 := by
  have hnew := hb.new_of_accepted haccepted
  constructor
  case idle =>
    intro p g' c o hg' hw ho hp
    rw [record_place haccepted] at ho
    split at ho
    · obtain rfl := Option.some.inj ho
      rfl
    · obtain ⟨g, hg⟩ := hb.grouped p c o ho hp
      have hstate : g'.state = g.state := by
        rcases group_place haccepted now hg' with hold | ⟨-, rfl⟩ | ⟨-, hnone, -⟩
        · rw [Option.some.inj (hg.symm.trans hold)]
        · rw [BracketGroup.slot_state, Sim.groupOf, hg]
          rfl
        · cases hg.symm.trans hnone
      exact h.idle p g c o hg (hstate ▸ hw) ho hp
  case counts =>
    intro k
    rw [view_place haccepted]
    split
    · rename_i hid
      subst hid
      have hhistory := (hb.fresh _ hnew).1
      have hstatuses : ∀ (l : List OrderStatusCode) (h : Heard), h.executed = 0 →
          AllSteps hear TellsFilled h (l.map (emitOrderStatus (req.record now))) ∧
            (run hear h (l.map (emitOrderStatus (req.record now)))).executed = 0 := by
        intro l
        induction l with
        | nil => exact fun h hzero => ⟨allSteps_nil hear, hzero⟩
        | cons st l ih =>
          intro h hzero
          rw [List.map_cons, allSteps_cons, run_cons, hear_emitOrderStatus]
          have hrest := ih ⟨h.executed, some st⟩ hzero
          exact ⟨⟨hzero.symm, hrest.1⟩, hrest.2⟩
      obtain ⟨htold, hexecuted⟩ := hstatuses req.statuses .nothing rfl
      refine (h.counts req.orderId).become ?_ ?_
      · rw [hhistory]
        exact htold
      · rw [hhistory]
        exact hexecuted
    · exact h.counts k

theorem counted_exec (hb : Books s) (h : Counted s) (op : Op) :
    Counted (exec rng baseSeed op s).2 := by
  cases op with
  | place req now =>
    cases hrefused : refusal req s with
    | some r =>
      rw [exec, place_of_refusal hrefused]
      refine ⟨h.idle, fun k => ?_⟩
      rw [view_emit]
      simpa using h.counts k
    | none => exact counted_place hb h hrefused now
  | cancel orderId =>
    constructor
    case idle =>
      intro p g c o' hg hw ho' hp
      have hgroups : (exec rng baseSeed (.cancel orderId) s).2.brackets = s.brackets :=
        (sameGroups_cancel orderId s).brackets
      rw [hgroups] at hg
      rw [exec, record_cancelled] at ho'
      obtain ⟨o, ho, rfl⟩ := Option.map_eq_some_iff.mp ho'
      split at hp
      · rename_i hid
        rw [if_pos hid, OrderRecord.transition_filledQty]
        exact h.idle p g c o hg hw ho (by simpa using hp)
      · rename_i hid
        rw [if_neg hid]
        exact h.idle p g c o hg hw ho hp
    case counts =>
      intro k
      rw [exec, view_cancel]
      split
      · exact (h.counts k).cancel
      · exact h.counts k
  | snapshot snap =>
    exact (snapshot_walk rng baseSeed (I := fun _ s' => Counted s')
      (fun _ _ _ ha h' => counted_look ha h') hb h).2
  | openOrders =>
    refine ⟨h.idle, fun k => ?_⟩
    rw [exec, view_openOrders]
    exact (h.counts k).restate
  | _ => exact ⟨h.idle, h.counts⟩

section Cancels

variable {v v' : View}

theorem Cancels.bystander (h : Cancels v v') (k : OrderId) : Bystander k v v' := by
  refine inv_of_path (I := fun w => Bystander k v w) (fun w w' hmove hw => ?_) h (Bystander.refl k v)
  obtain ⟨p, rfl⟩ := hmove
  exact hw.trans (Bystander.ocaCancel k w p)

theorem Cancels.history_prefix (h : Cancels v v') : v.history <+: v'.history := by
  refine inv_of_path (I := fun w => v.history <+: w.history) (fun w w' hmove hw => ?_) h
    List.prefix_rfl
  obtain ⟨p, rfl⟩ := hmove
  unfold View.ocaCancel
  split
  · exact hw
  · split
    · exact hw.trans (List.prefix_append _ _)
    · exact hw

end Cancels

/-! ### What remains -/

/-- The way in which the order would fill tells of all its shares: the status of pattern A comes before
    the execution, and pattern C has two executions only. -/
def TellsAll (rng : Rng) (baseSeed : UInt64) (o : OrderRecord) (s : Sim) : Prop :=
  match patternOf rng baseSeed o s with
  | .a => o.remainingQty = 0
  | .b => True
  | .c => 0 ≤ o.remainingQty ∧ (chunksOf rng baseSeed o s).length ≤ 2

/-- If a snapshot meets order `k`, the fill tells of all its shares. -/
def FillTellsAll (rng : Rng) (baseSeed : UInt64) (k : OrderId) (s : Sim) : Op → Prop
  | .snapshot snap => s.Fires snap k → ∀ o, s.orders.get? k = some o → TellsAll rng baseSeed o s
  | _ => True

@[simp] theorem tellsTotal_orderStatus {total : ℚ} (o : OrderRecord) (st : OrderStatusCode) :
    TellsTotal total (emitOrderStatus o st) ↔ o.filledQty + o.remainingQty = total := Iff.rfl

@[simp] theorem tellsTotal_execution {total : ℚ} (x : Execution) : TellsTotal total (.execution x) :=
  trivial

/-- The chunks of pattern C are told of as a whole. -/
theorem planChunks_c_iff (rng : Rng) (baseSeed : UInt64) (orderId : OrderId) (r : ℚ) :
    let chunks := planChunks rng baseSeed orderId r .c
    (chunks.getD 0 0 ≤ r ∧ chunks.getD 0 0 + chunks.getD 1 0 = r) ↔ 0 ≤ r ∧ chunks.length ≤ 2 := by
  intro chunks
  constructor
  · rintro ⟨hle, hall⟩
    constructor
    · by_contra hneg
      have hchunks : chunks = [r / 2, r / 2] := by
        have hone : partialChunks rng r baseSeed orderId (max (r / 2 - 1 / 10) 1) = [r] := by
          refine if_pos (le_trans ?_ (le_max_right _ _))
          linarith [not_le.mp hneg]
        simp only [chunks, planChunks, hone]
        rfl
      rw [hchunks] at hle
      have hhalf : r / 2 ≤ r := hle
      linarith [not_le.mp hneg]
    · by_contra hmany
      exact (carried_planChunks_lt (not_le.mp hmany)).ne hall
  · rintro ⟨hnonneg, htwo⟩
    have hall : chunks.getD 0 0 + chunks.getD 1 0 = r := carried_planChunks htwo
    refine ⟨?_, hall⟩
    have hrest : 0 ≤ chunks.getD 1 0 := by
      simp only [chunks, planChunks]
      rcases hc : partialChunks rng r baseSeed orderId (max (r / 2 - 1 / 10) 1) with
        _ | ⟨x, _ | ⟨y, l⟩⟩
      · exact div_nonneg hnonneg zero_le_two
      · exact div_nonneg hnonneg zero_le_two
      · have hlots := (lots_of_partialChunks (by rw [hc]; simp)).2
        rw [hc] at hlots
        have hlot : (100 : ℚ) ≤ y := hlots y (by simp)
        exact le_trans (by norm_num) hlot
    linarith

theorem add_max_sub (a t : ℚ) : a + max (t - a) 0 = t ↔ a ≤ t := by
  rcases le_total a t with h | h
  · rw [max_eq_left (sub_nonneg.mpr h)]
    simpa using h
  · rw [max_eq_right (sub_nonpos.mpr h), add_zero]
    exact ⟨fun heq => heq.le, fun hle => le_antisymm hle h⟩

variable {o : OrderRecord}

/-- The status messages of a fill add up exactly when the fill tells of all shares. -/
theorem tellsTotal_play_iff (h : o.filledQty + o.remainingQty = o.totalQty) (s : Sim) (fill : Fill)
    (snap : MarketSnapshot) :
    (∀ e ∈ ((patternOf rng baseSeed o s).play (o.seen snap s.slippage) fill s.execCounter
      (chunksOf rng baseSeed o s)).2, TellsTotal o.totalQty e) ↔ TellsAll rng baseSeed o s := by
  have hremaining : o.remainingQty = o.totalQty - o.filledQty := by linarith
  cases hp : patternOf rng baseSeed o s with
  | a =>
    suffices o.filledQty = o.totalQty ↔ o.remainingQty = 0 by simpa [TellsAll, hp, PatternKind.play]
    constructor
    · intro hfilled; linarith
    · intro hzero; linarith
  | b =>
    have hchunks : chunksOf rng baseSeed o s = [o.remainingQty] := by rw [chunksOf, hp]; rfl
    simp [TellsAll, hp, hchunks, PatternKind.play, h]
  | c =>
    have hchunks : chunksOf rng baseSeed o s = planChunks rng baseSeed o.orderId o.remainingQty .c := by
      rw [chunksOf, hp]
    have hiff := planChunks_c_iff rng baseSeed o.orderId o.remainingQty
    simp only [TellsAll, hp, hchunks, ← hiff]
    generalize planChunks rng baseSeed o.orderId o.remainingQty .c = chunks
    suffices (o.filledQty + chunks.getD 0 0 ≤ o.totalQty ∧
        o.filledQty + chunks.getD 0 0 + chunks.getD 1 0 = o.totalQty) ↔
          (chunks.getD 0 0 ≤ o.remainingQty ∧
            chunks.getD 0 0 + chunks.getD 1 0 = o.remainingQty) by
      simpa [PatternKind.play, add_max_sub]
    constructor
    · rintro ⟨hle, hall⟩
      constructor <;> linarith
    · rintro ⟨hle, hall⟩
      constructor <;> linarith

/-- A fill that tells of all shares leaves a record that adds up. -/
theorem carried_of_tellsAll {s : Sim} (h : TellsAll rng baseSeed o s) :
    (patternOf rng baseSeed o s).carried (chunksOf rng baseSeed o s) = o.remainingQty := by
  refine carried_chunksOf ?_
  unfold TellsAll at h
  rw [chunksOf] at h ⊢
  cases hp : patternOf rng baseSeed o s with
  | a => simp [planChunks]
  | b => simp [planChunks]
  | c =>
    rw [hp] at h
    exact h.2

/-- The record and every status message of the order add up to what it is for. -/
def View.AddsUp (v : View) : Prop :=
  ∀ o, v.record = some o → o.filledQty + o.remainingQty = o.totalQty ∧
    ∀ e ∈ v.history, TellsTotal o.totalQty e

section AddsUp

variable {v v' : View}

theorem View.AddsUp.become (h : v.AddsUp) {o' : OrderRecord} (hr : v.record = some o)
    (htotal : o'.totalQty = o.totalQty) (hsum : o'.filledQty + o'.remainingQty = o'.totalQty)
    {out : List OrderEmission} (hout : ∀ e ∈ out, TellsTotal o.totalQty e) :
    (v.become o' out).AddsUp := by
  intro o₁ ho₁
  obtain rfl := Option.some.inj ho₁
  refine ⟨hsum, fun e he => ?_⟩
  rw [htotal]
  rcases List.mem_append.mp he with he | he
  · exact (h o hr).2 e he
  · exact hout e he

theorem View.AddsUp.transition (h : v.AddsUp) (hr : v.record = some o) (tgt : OrderStatusCode)
    {m : OrderStatus} (hm : m.filled + m.remaining = o.totalQty) :
    (v.become (o.transition tgt) [.orderStatus m]).AddsUp := by
  refine h.become hr (o.transition_totalQty tgt) ?_ ?_
  · rw [o.transition_filledQty, o.transition_remainingQty, o.transition_totalQty]
    exact (h o hr).1
  · simpa [TellsTotal] using hm

theorem View.AddsUp.ocaCancel (h : v.AddsUp) (parentId : OrderId) : (v.ocaCancel parentId).AddsUp := by
  unfold View.ocaCancel
  split
  · exact h
  · rename_i o hr
    split
    · exact h.transition hr .cancelled (by simpa [ocaCancelOf] using (h o hr).1)
    · exact h

theorem View.AddsUp.cancel (h : v.AddsUp) : v.cancel.AddsUp := by
  unfold View.cancel
  split
  · exact h
  · rename_i o hr
    split
    · exact h.transition hr .cancelled (by simpa [orderStatusOf] using (h o hr).1)
    · exact h

theorem View.AddsUp.activate (h : v.AddsUp) (hzero : ∀ o, v.record = some o → o.filledQty = 0)
    (parentId : OrderId) : (v.activate parentId).AddsUp := by
  unfold View.activate
  split
  · exact h
  · rename_i o hr
    have hsum := (h o hr).1
    rw [hzero o hr] at hsum
    exact h.transition hr .submitted (by simpa [activationOf] using hsum)

theorem View.AddsUp.restate (h : v.AddsUp) : v.restate.AddsUp := by
  unfold View.restate
  split
  · exact h
  · rename_i o hr
    split
    · intro o' ho'
      obtain rfl := Option.some.inj (hr.symm.trans ho')
      obtain ⟨hsum, htold⟩ := h o hr
      refine ⟨hsum, fun e he => ?_⟩
      rcases List.mem_append.mp he with he | he
      · exact htold e he
      · rw [List.mem_singleton.mp he]
        exact hsum
    · exact h

theorem View.AddsUp.seen (h : v.AddsUp) (snap : MarketSnapshot) (slippage : SlippageKind) :
    View.AddsUp { v with record := v.record.map (OrderRecord.seen snap slippage) } := by
  intro o' ho'
  obtain ⟨o, ho, rfl⟩ := Option.map_eq_some_iff.mp ho'
  rw [seen_filledQty, seen_remainingQty, seen_totalQty]
  exact h o ho

theorem View.AddsUp.of_cancels (h : v.AddsUp) (hc : Cancels v v') : v'.AddsUp :=
  inv_of_path (fun _ _ hmove hv => by obtain ⟨p, rfl⟩ := hmove; exact hv.ocaCancel p) hc h

theorem View.AddsUp.of_glances (h : v.AddsUp) (hg : Glances v v') : v'.AddsUp := by
  refine inv_of_path (fun w w' hmove hw => ?_) hg h
  rcases hmove with ⟨p, rfl⟩ | ⟨snap, slippage, rfl⟩
  · exact hw.ocaCancel p
  · exact hw.seen snap slippage

theorem View.AddsUp.fill (h : v.AddsUp) (hr : v.record = some o) {snap : MarketSnapshot} {s : Sim}
    {fill : Fill} (hall : TellsAll rng baseSeed o s) : (v.fill rng baseSeed snap s fill).AddsUp := by
  have hsum := (h o hr).1
  have hplay := (tellsTotal_play_iff hsum s fill snap).mpr hall
  have hcarried := carried_of_tellsAll hall
  have hfilled : ((patternOf rng baseSeed o s).play (o.seen snap s.slippage) fill s.execCounter
      (chunksOf rng baseSeed o s)).1.filledQty = o.totalQty := by
    rw [play_filledQty, seen_filledQty, hcarried, hsum]
  have htotal := play_totalQty (o.seen snap s.slippage) fill s.execCounter (chunksOf rng baseSeed o s)
    (patternOf rng baseSeed o s)
  have hremaining := play_remainingQty (patternOf rng baseSeed o s) (o.seen snap s.slippage) fill
    s.execCounter (chunksOf rng baseSeed o s)
    (by rw [seen_totalQty, seen_filledQty, hcarried, hsum])
  rw [seen_totalQty] at htotal
  rw [View.fill_of_some hr]
  simp only [View.extend, List.append_nil]
  intro o' ho'
  have hbecome := h.become hr htotal (by rw [hfilled, hremaining, htotal, add_zero]) hplay
  exact hbecome o' ho'

variable (rng baseSeed) in
/-- The way in which an order fills is settled before the walk. -/
theorem tellsAll_ahead {s' : Sim} {js : List OrderId} (ha : Ahead snap s (k :: js) s')
    (ho : s.orders.get? k = some o) : ∃ o', (s'.view k).record = some o' ∧ o'.totalQty = o.totalQty ∧
      (TellsAll rng baseSeed o' s' ↔ TellsAll rng baseSeed o s) := by
  obtain ⟨st, hrec, -⟩ := (ha.bystander k fun _ => List.mem_cons_self).get ho
  refine ⟨_, hrec, rfl, ?_⟩
  have hpattern : patternOf rng baseSeed { o with status := st } s' = patternOf rng baseSeed o s := by
    rw [patternOf, patternOf, ha.settings.partialThreshold]
  simp only [TellsAll, chunksOf, hpattern]

theorem addsUp_snapshot (hb : Books s) (hc : Counted s) (h : (s.view k).AddsUp)
    (hall : FillTellsAll rng baseSeed k s (.snapshot snap)) :
    ((onMarketSnapshot rng baseSeed snap s).2.view k).AddsUp := by
  by_cases hact : s.Activates snap k
  · obtain ⟨p, hp, hview⟩ := view_of_activates rng baseSeed hb hact
    rw [hview]
    refine h.activate (fun o ho => ?_) p
    obtain ⟨g, o', hg, hw, ho', hparent⟩ := hb.of_mem_activated hp
    obtain rfl := Option.some.inj (ho'.symm.trans ho)
    exact hc.idle p g k o' hg hw ho' hparent
  by_cases hfires : s.Fires snap k
  · obtain ⟨js, s', fill, ha, hbefore, hafter⟩ := view_of_fires rng baseSeed hb hfires
    obtain ⟨o, ho, -⟩ := mem_candidateIds.mp hfires.1
    obtain ⟨o', hr, -, hiff⟩ := tellsAll_ahead rng baseSeed ha ho
    exact ((h.of_cancels hbefore).fill hr (hiff.mpr (hall hfires o ho))).of_cancels hafter
  · exact h.of_glances (view_of_neither rng baseSeed hb hfires hact)

/-- A snapshot after which the messages add up filled the order so that the fill tells of all. -/
theorem fillTellsAll_of_addsUp (hb : Books s) (h : (s.view k).AddsUp)
    (htold : ∀ o, (onMarketSnapshot rng baseSeed snap s).2.orders.get? k = some o →
      ∀ e ∈ ((onMarketSnapshot rng baseSeed snap s).2.view k).history, TellsTotal o.totalQty e) :
    FillTellsAll rng baseSeed k s (.snapshot snap) := by
  intro hfires o ho
  obtain ⟨js, s', fill, ha, hbefore, hafter⟩ := view_of_fires rng baseSeed hb hfires
  obtain ⟨o', hr, htotal, hiff⟩ := tellsAll_ahead rng baseSeed ha ho
  have hsum := (h.of_cancels hbefore o' hr).1
  rw [← hiff, ← tellsTotal_play_iff hsum s' fill snap]
  intro e he
  have hmem : e ∈ ((s'.view k).fill rng baseSeed snap s' fill).history := by
    rw [View.fill_of_some hr]
    simp only [View.extend, View.become, List.append_nil]
    exact List.mem_append_right _ he
  obtain ⟨o₁, ho₁, hsame, -⟩ := status_onMarketSnapshot rng baseSeed snap hb ho
  rw [htotal, ← hsame.totalQty]
  exact htold o₁ ho₁ e (hafter.history_prefix.subset hmem)

theorem addsUp_exec (hb : Books s) (hc : Counted s) (h : (s.view k).AddsUp) {op : Op}
    (hop : FillTellsAll rng baseSeed k s op) : ((exec rng baseSeed op s).2.view k).AddsUp := by
  cases op with
  | place req now =>
    cases hrefused : refusal req s with
    | some r =>
      rw [exec, place_of_refusal hrefused, view_emit]
      simpa using h
    | none =>
      rw [exec, view_place hrefused]
      split
      · rename_i hid
        subst hid
        intro o ho
        obtain rfl := Option.some.inj ho
        refine ⟨zero_add _, fun e he => ?_⟩
        rw [View.become, (hb.fresh _ (hb.new_of_accepted hrefused)).1, List.nil_append] at he
        obtain ⟨st, -, rfl⟩ := List.mem_map.mp he
        exact zero_add _
      · exact h
  | cancel orderId =>
    rw [exec, view_cancel]
    split
    · exact h.cancel
    · exact h
  | snapshot snap => exact addsUp_snapshot hb hc h hop
  | openOrders =>
    rw [exec, view_openOrders]
    exact h.restate
  | _ => exact h

end AddsUp

/-- Over a run what the status messages of an order tell to be filled and to remain adds up to what the
    order is for, exactly when every fill of it tells of all shares. -/
theorem totals_told_iff (rng : Rng) (baseSeed : UInt64) (k : OrderId) (ops : List Op) :
    AllStates (step rng baseSeed) (fun done => ∀ o, done.2.orders.get? k = some o →
        ∀ e ∈ done.2.log.filter (Concerns k), TellsTotal o.totalQty e) ([], Sim.new) ops ↔
      AllSteps (step rng baseSeed) (fun done op => FillTellsAll rng baseSeed k done.2 op)
        ([], Sim.new) ops := by
  have hempty : (Sim.new.view k).AddsUp := fun o ho => by cases ho
  constructor
  · refine allSteps_of_allStates (step rng baseSeed)
      (J := fun done => (Books done.2 ∧ Counted done.2) ∧ (done.2.view k).AddsUp) ?_ ?_
      ⟨⟨books_new, counted_new⟩, hempty⟩
    · exact fun done op h hop => ⟨⟨books_step h.1.1 op, counted_exec h.1.1 h.1.2 op⟩,
        addsUp_exec h.1.1 h.1.2 h.2 hop⟩
    · intro done op h htold
      cases op with
      | snapshot snap => exact fillTellsAll_of_addsUp h.1.1 h.2 htold
      | _ => trivial
  · intro h pre hpre o ho
    have hadds : AllStates (step rng baseSeed) (fun done => (done.2.view k).AddsUp) ([], Sim.new) ops :=
      allStates_of_allSteps (step rng baseSeed) (I := fun done => Books done.2 ∧ Counted done.2)
        (fun done op h => ⟨books_step h.1 op, counted_exec h.1 h.2 op⟩)
        (fun done op h hadds hop => addsUp_exec h.1 h.2 hadds hop) ⟨books_new, counted_new⟩ hempty h
    exact (hadds pre hpre o ho).2

/-! ### The way from status to status -/

/-- The messages told a way that the table allows, and the last of them the status on the record. -/
structure View.OnPath (v : View) (o : OrderRecord) : Prop where
  path : AllSteps hear (TellsStatus o.kind) .nothing v.history
  told : (heard v.history).told = some o.status

/-- If a snapshot meets order `k` then no sibling's fill cancels it before, and it may be filled out of
    the status it has; and if it is activated, it waits. -/
def KeepsPath (k : OrderId) (s : Sim) : Op → Prop
  | .snapshot snap => ∀ o, s.orders.get? k = some o →
    (s.Fires snap k → ¬s.Undercut snap k ∧ transitionAllowed o.kind o.status .filled = true) ∧
      (s.Activates snap k → o.status = .inactive)
  | _ => True

section OnPath

variable {v v' : View}

theorem tellsStatus_orderStatus {kind : OrderKind} {h : Heard} {st : OrderStatusCode}
    (htold : h.told = some st) (o : OrderRecord) (st' : OrderStatusCode) :
    TellsStatus kind h (emitOrderStatus o st') ↔ st' = st ∨ transitionAllowed kind st st' = true := by
  simp [TellsStatus, emitOrderStatus, orderStatusOf, htold]

/-- One more status message, of a transition that is allowed. -/
theorem View.OnPath.transition (h : v.OnPath o) {tgt : OrderStatusCode}
    (hallowed : transitionAllowed o.kind o.status tgt = true) {m : OrderStatus} (hm : m.status = tgt) :
    (v.become (o.transition tgt) [.orderStatus m]).OnPath (o.transition tgt) where
  path := by
    rw [o.transition_kind, View.become, allSteps_append, allSteps_cons]
    refine ⟨h.path, ?_, allSteps_nil hear⟩
    intro st hst
    obtain rfl := Option.some.inj (h.told.symm.trans hst)
    exact .inr (hm ▸ hallowed)
  told := by
    rw [View.become, heard_append, run_cons, run_nil, hear_orderStatus, hm, o.transition_status,
      statusAfter, if_pos hallowed]

def View.AllOnPath (v : View) : Prop := ∀ o, v.record = some o → v.OnPath o

theorem View.OnPath.all_become {o' : OrderRecord} {out : List OrderEmission}
    (h : (v.become o' out).OnPath o') : (v.become o' out).AllOnPath := by
  intro o₁ ho₁
  obtain rfl := Option.some.inj ho₁
  exact h

theorem View.AllOnPath.ocaCancel (h : v.AllOnPath) (parentId : OrderId) :
    (v.ocaCancel parentId).AllOnPath := by
  unfold View.ocaCancel
  split
  · exact h
  · rename_i o hr
    split
    · rename_i hallowed
      exact ((h o hr).transition hallowed rfl).all_become
    · exact h

theorem View.AllOnPath.cancel (h : v.AllOnPath) : v.cancel.AllOnPath := by
  unfold View.cancel
  split
  · exact h
  · rename_i o hr
    split
    · rename_i hallowed
      exact ((h o hr).transition hallowed rfl).all_become
    · exact h

theorem View.AllOnPath.activate (h : v.AllOnPath)
    (hwaits : ∀ o, v.record = some o → o.status = .inactive) (parentId : OrderId) :
    (v.activate parentId).AllOnPath := by
  unfold View.activate
  split
  · exact h
  · rename_i o hr
    have hallowed : transitionAllowed o.kind o.status .submitted = true := by
      rw [hwaits o hr, transitionAllowed_inactive_submitted]
    exact ((h o hr).transition hallowed rfl).all_become

theorem View.AllOnPath.restate (h : v.AllOnPath) : v.restate.AllOnPath := by
  unfold View.restate
  split
  · exact h
  · rename_i o hr
    split
    · intro o' ho'
      obtain rfl := Option.some.inj (hr.symm.trans ho')
      have hpath := h o hr
      constructor
      · rw [View.extend, allSteps_append, allSteps_cons]
        exact ⟨hpath.path, (tellsStatus_orderStatus hpath.told o _).mpr (.inl rfl), allSteps_nil hear⟩
      · rw [View.extend, heard_append]
        rfl
    · exact h

theorem View.AllOnPath.seen (h : v.AllOnPath) (snap : MarketSnapshot) (slippage : SlippageKind) :
    View.AllOnPath { v with record := v.record.map (OrderRecord.seen snap slippage) } := by
  intro o' ho'
  obtain ⟨o, ho, rfl⟩ := Option.map_eq_some_iff.mp ho'
  obtain ⟨hpath, htold⟩ := h o ho
  exact ⟨by rwa [seen_kind], by rwa [seen_status]⟩

theorem View.AllOnPath.of_cancels (h : v.AllOnPath) (hc : Cancels v v') : v'.AllOnPath :=
  inv_of_path (fun _ _ hmove hv => by obtain ⟨p, rfl⟩ := hmove; exact hv.ocaCancel p) hc h

theorem View.AllOnPath.of_glances (h : v.AllOnPath) (hg : Glances v v') : v'.AllOnPath := by
  refine inv_of_path (fun w w' hmove hw => ?_) hg h
  rcases hmove with ⟨p, rfl⟩ | ⟨snap, slippage, rfl⟩
  · exact hw.ocaCancel p
  · exact hw.seen snap slippage

/-- The messages of a fill go on along the way exactly when the order may be filled. -/
theorem tellsStatus_play_iff (p : PatternKind) (fill : Fill) (counter : ℕ) (chunks : List ℚ)
    {h : Heard} (htold : h.told = some o.status) (hlive : o.status ≠ .filled) :
    AllSteps hear (TellsStatus o.kind) h (p.play o fill counter chunks).2 ↔
      transitionAllowed o.kind o.status .filled = true := by
  have hne : OrderStatusCode.filled ≠ o.status := Ne.symm hlive
  cases p <;> simp [PatternKind.play, allSteps_cons, TellsStatus, emitOrderStatus, orderStatusOf,
    htold, hne]

theorem told_play (p : PatternKind) (fill : Fill) (counter : ℕ) (chunks : List ℚ) (h : Heard) :
    (run hear h (p.play o fill counter chunks).2).told = some .filled := by
  cases p <;> simp [PatternKind.play]

theorem View.AllOnPath.fill (h : v.AllOnPath) (hr : v.record = some o)
    (hallowed : transitionAllowed o.kind o.status .filled = true) (hlive : o.status ≠ .filled)
    (snap : MarketSnapshot) (s : Sim) (fill : Fill) : (v.fill rng baseSeed snap s fill).AllOnPath := by
  obtain ⟨hpath, htold⟩ := h o hr
  intro o' ho'
  rw [View.fill_of_some hr] at ho' ⊢
  obtain rfl := Option.some.inj ho'
  simp only [View.extend, List.append_nil]
  constructor
  · rw [play_kind, seen_kind, View.become, allSteps_append]
    refine ⟨hpath, ?_⟩
    have hiff := tellsStatus_play_iff (o := o.seen snap s.slippage) (patternOf rng baseSeed o s) fill
      s.execCounter (chunksOf rng baseSeed o s) (h := heard v.history)
      (by rw [seen_status]; exact htold) (by rw [seen_status]; exact hlive)
    rw [seen_kind, seen_status] at hiff
    exact hiff.mpr hallowed
  · rw [View.become, heard_append, told_play, play_status, seen_kind, seen_status, statusAfter,
      if_pos hallowed]

/-- An order that a snapshot meets may be filled when it is looked at exactly when it might be before,
    and no sibling's fill cancels it first. -/
theorem allowed_at_look (hb : Books s) (hfires : s.Fires snap k) (ho : s.orders.get? k = some o)
    {s' : Sim} {fill : Fill} (hbefore : Cancels (s.view k) (s'.view k))
    (hafter : Cancels ((s'.view k).fill rng baseSeed snap s' fill)
      ((onMarketSnapshot rng baseSeed snap s).2.view k)) :
    ∃ o', (s'.view k).record = some o' ∧ o'.status ≠ .filled ∧ o'.kind = o.kind ∧
      (transitionAllowed o'.kind o'.status .filled = true ↔
        ¬s.Undercut snap k ∧ transitionAllowed o.kind o.status .filled = true) := by
  have hlive : OrderRecord.isTerminal o.status = false := by
    cases hterm : OrderRecord.isTerminal o.status with
    | false => rfl
    | true => exact absurd hfires.1 (not_candidate_of_isTerminal ho hterm snap)
  obtain ⟨st, hr, hshift⟩ := (hbefore.bystander k).get ho
  have hne : st ≠ .filled := by
    rintro rfl
    rw [hshift.filled] at hlive
    cases hlive
  refine ⟨_, hr, hne, rfl, ?_⟩
  -- The status after the walk tells whether the fill at the look was allowed.
  have hrec : ((s'.view k).fill rng baseSeed snap s' fill).record = some
      (OrderRecord.played rng baseSeed snap s' fill { o with status := st }).1 := by
    rw [View.record_fill, hr]
    rfl
  obtain ⟨st', hr', hshift'⟩ := (hafter.bystander k).get hrec
  obtain ⟨o₁, ho₁, -, hstatus⟩ := status_onMarketSnapshot rng baseSeed snap hb ho
  obtain rfl := Option.some.inj (hr'.symm.trans ho₁)
  have hplayed : (OrderRecord.played rng baseSeed snap s' fill { o with status := st }).1.status =
      statusAfter o.kind st .filled := by
    rw [OrderRecord.played, play_status, seen_kind, seen_status]
  rw [hplayed] at hshift'
  have hfinal : st' = .filled ↔
      ¬s.Undercut snap k ∧ transitionAllowed o.kind o.status .filled = true := by
    have hclosed : s.statusAt snap o = .filled ↔ _ := hb.statusAt_eq_filled ho hlive
    rw [← hstatus] at hclosed
    exact hclosed.trans ⟨fun h => h.2, fun h => ⟨hfires, h⟩⟩
  rw [← hfinal]
  constructor
  · intro hallowed
    rw [statusAfter, if_pos hallowed] at hshift'
    exact hshift'.terminal rfl
  · rintro rfl
    by_contra hno
    have hfilled := hshift'.filled
    rw [statusAfter, if_neg hno] at hfilled
    exact hne hfilled

theorem onPath_snapshot (hb : Books s) (h : (s.view k).AllOnPath)
    (hkeeps : KeepsPath k s (.snapshot snap)) :
    ((onMarketSnapshot rng baseSeed snap s).2.view k).AllOnPath := by
  by_cases hact : s.Activates snap k
  · obtain ⟨p, -, hview⟩ := view_of_activates rng baseSeed hb hact
    rw [hview]
    exact h.activate (fun o ho => (hkeeps o ho).2 hact) p
  by_cases hfires : s.Fires snap k
  · obtain ⟨js, s', fill, -, hbefore, hafter⟩ := view_of_fires rng baseSeed hb hfires
    obtain ⟨o, ho, -⟩ := mem_candidateIds.mp hfires.1
    obtain ⟨o', hr, hne, -, hiff⟩ := allowed_at_look hb hfires ho hbefore hafter
    have hallowed := hiff.mpr ((hkeeps o ho).1 hfires)
    exact ((h.of_cancels hbefore).fill hr hallowed hne snap s' fill).of_cancels hafter
  · exact h.of_glances (view_of_neither rng baseSeed hb hfires hact)

/-- A snapshot whose messages go on along the way met the condition. -/
theorem keepsPath_of_path (hb : Books s) (h : (s.view k).AllOnPath)
    (hpath : ∀ o, (onMarketSnapshot rng baseSeed snap s).2.orders.get? k = some o →
      AllSteps hear (TellsStatus o.kind) .nothing
        ((onMarketSnapshot rng baseSeed snap s).2.view k).history) :
    KeepsPath k s (.snapshot snap) := by
  intro o ho
  obtain ⟨o₁, ho₁, hsame, -⟩ := status_onMarketSnapshot rng baseSeed snap hb ho
  have hpath := hpath o₁ ho₁
  rw [hsame.kind] at hpath
  constructor
  · intro hfires
    obtain ⟨js, s', fill, -, hbefore, hafter⟩ := view_of_fires rng baseSeed hb hfires
    obtain ⟨o', hr, hne, hkind, hiff⟩ := allowed_at_look hb hfires ho hbefore hafter
    refine hiff.mp ?_
    have hfill := AllSteps.initial hear hpath hafter.history_prefix
    rw [View.fill_of_some hr] at hfill
    simp only [View.extend, View.become, List.append_nil, allSteps_append] at hfill
    have htold := ((h.of_cancels hbefore) o' hr).told
    have hplay := (tellsStatus_play_iff (o := o'.seen snap s'.slippage) (patternOf rng baseSeed o' s')
      fill s'.execCounter (chunksOf rng baseSeed o' s') (h := heard (s'.view k).history)
      (by rw [seen_status]; exact htold) (by rw [seen_status]; exact hne))
    rw [seen_kind, seen_status, hkind] at hplay
    rw [hkind]
    exact hplay.mp hfill.2
  · intro hact
    obtain ⟨p, hp, hview⟩ := view_of_activates rng baseSeed hb hact
    have hr : (s.view k).record = some o := ho
    have hhistory : (View.activate p (s.view k)).history = (s.view k).history ++
        [.orderStatus (activationOf p (o.transition .submitted))] := by
      simp only [View.activate, hr, View.become]
    rw [hview, hhistory, allSteps_append, allSteps_cons] at hpath
    have htells := hpath.2.1 o.status (h o hr).told
    obtain ⟨g, o', hg, hw, ho', hparent⟩ := hb.of_mem_activated hp
    obtain rfl := Option.some.inj (ho'.symm.trans ho)
    rcases hb.waiting p g k o' hg hw ho' hparent with hin | hcancelled
    · exact hin
    · rw [hcancelled] at htells
      rcases htells with h | h
      · cases h
      · rw [transitionAllowed_of_isTerminal rfl] at h
        cases h

theorem onPath_exec (hb : Books s) (h : (s.view k).AllOnPath) {op : Op} (hop : KeepsPath k s op) :
    ((exec rng baseSeed op s).2.view k).AllOnPath := by
  cases op with
  | place req now =>
    cases hrefused : refusal req s with
    | some r =>
      rw [exec, place_of_refusal hrefused, view_emit]
      simpa using h
    | none =>
      rw [exec, view_place hrefused]
      split
      · rename_i hid
        subst hid
        have hhistory := (hb.fresh _ (hb.new_of_accepted hrefused)).1
        refine View.OnPath.all_become ⟨?_, ?_⟩
        · rw [View.become, hhistory, List.nil_append]
          simp only [PlaceOrderReq.statuses, PlaceOrderReq.record]
          split_ifs <;> simp [allSteps_cons, TellsStatus, emitOrderStatus, orderStatusOf, Heard.nothing,
            hear, OrderRecord.fromPlaceReq, transitionAllowed, *]
        · rw [View.become, hhistory, List.nil_append]
          simp only [PlaceOrderReq.statuses, PlaceOrderReq.record]
          split_ifs <;> rfl
      · exact h
  | cancel orderId =>
    rw [exec, view_cancel]
    split
    · exact h.cancel
    · exact h
  | snapshot snap => exact onPath_snapshot hb h hop
  | openOrders =>
    rw [exec, view_openOrders]
    exact h.restate
  | _ => exact h

end OnPath

/-- Over a run the statuses that are told of an order follow the table of transitions, exactly when
    every snapshot finds it where the table goes on: whoever is met may be filled and was not cancelled
    by a sibling before, and whoever is activated waits. -/
theorem statuses_told_iff (rng : Rng) (baseSeed : UInt64) (k : OrderId) (ops : List Op) :
    AllStates (step rng baseSeed) (fun done => ∀ o, done.2.orders.get? k = some o →
        AllSteps hear (TellsStatus o.kind) .nothing (done.2.log.filter (Concerns k)))
        ([], Sim.new) ops ↔
      AllSteps (step rng baseSeed) (fun done op => KeepsPath k done.2 op) ([], Sim.new) ops := by
  have hempty : (Sim.new.view k).AllOnPath := fun o ho => by cases ho
  constructor
  · refine allSteps_of_allStates (step rng baseSeed)
      (J := fun done => Books done.2 ∧ (done.2.view k).AllOnPath) ?_ ?_ ⟨books_new, hempty⟩
    · exact fun done op h hop => ⟨books_step h.1 op, onPath_exec h.1 h.2 hop⟩
    · intro done op h hpath
      cases op with
      | snapshot snap => exact keepsPath_of_path h.1 h.2 hpath
      | _ => trivial
  · intro h pre hpre o ho
    have honpath : AllStates (step rng baseSeed) (fun done => (done.2.view k).AllOnPath)
        ([], Sim.new) ops :=
      allStates_of_allSteps (step rng baseSeed) (I := fun done => Books done.2)
        (fun done op h => books_step h op) (fun done op h honpath hop => onPath_exec h honpath hop)
        books_new hempty h
    exact (honpath pre hpre o ho).path

end Midas.IbSim
