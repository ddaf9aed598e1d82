import HandOfMidas.IbSim.Lifecycle

/-! The two slots of a bracket: of the children of one parent one executes at most, as long as each
    child that was submitted keeps its slot and no snapshot meets both. -/

namespace Midas.IbSim

variable {rng : Rng} {baseSeed : UInt64} {s : Sim} {snap : MarketSnapshot} {k : OrderId}

/-! ### Who has executed -/

/-- There is an execution of order `k`. -/
def Sim.Executed (s : Sim) (k : OrderId) : Prop := executions k s.log ≠ []

theorem executions_history (s : Sim) (k : OrderId) :
    executions k (s.view k).history = executions k s.log := executions_filter k s.log

theorem executions_play_ne_nil (p : PatternKind) (o : OrderRecord) (fill : Fill) (counter : ℕ)
    (chunks : List ℚ) : executions o.orderId (p.play o fill counter chunks).2 ≠ [] := by
  cases p <;> simp [PatternKind.play, executionOf]

theorem executed_fill {v : View} {o : OrderRecord} (hr : v.record = some o) (hid : o.orderId = k)
    (s : Sim) (fill : Fill) : executions k (v.fill rng baseSeed snap s fill).history ≠ [] := by
  have hplay := executions_play_ne_nil (patternOf rng baseSeed o s) (o.seen snap s.slippage) fill
    s.execCounter (chunksOf rng baseSeed o s)
  rw [seen_orderId, hid] at hplay
  rw [View.fill_of_some hr]
  simp only [View.extend, View.become, List.append_nil, executions_append]
  exact fun h => hplay (List.append_eq_nil_iff.mp h).2

/-- After a snapshot those have executed that had before, and those that it meets. -/
theorem executed_onMarketSnapshot (hb : Books s) :
    (onMarketSnapshot rng baseSeed snap s).2.Executed k ↔ s.Executed k ∨ s.Fires snap k := by
  by_cases hfires : s.Fires snap k
  · simp only [hfires, or_true, iff_true]
    obtain ⟨js, s', ha, hafter⟩ := exists_look rng baseSeed hb hfires.1
    obtain ⟨o, ho, -⟩ := mem_candidateIds.mp hfires.1
    obtain ⟨st, hrec, -⟩ := (ha.bystander k fun _ => List.mem_cons_self).get ho
    obtain ⟨fill, hfill⟩ := Option.isSome_iff_exists.mp hfires.2
    rw [← ha.fillIn List.mem_cons_self] at hfill
    have hfilled : Bystander k ((s'.view k).fill rng baseSeed snap s' fill)
        ((look rng baseSeed snap k s').2.view k) := bystander_filled ha.books hfill
    rw [Sim.Executed, ← executions_history, hafter.executions, hfilled.executions]
    have hid : o.orderId = k := Store.key_of_get? ho
    exact executed_fill hrec hid s' fill
  · obtain ⟨-, hexec, -⟩ := unmet_onMarketSnapshot rng baseSeed hb hfires
    rw [executions_history, executions_history] at hexec
    simp only [Sim.Executed, hexec, hfires, or_false]

/-! ### Slots -/

/-- Who holds the slot for a kind of order. -/
def BracketGroup.held (g : BracketGroup) : OrderKind → Option OrderId
  | .limit | .market => g.takeProfit
  | .stop | .stopLimit => g.stopLoss

/-- Every submitted child holds a slot of its parent. -/
def Slotted (s : Sim) : Prop :=
  ∀ p g c o, s.brackets.get? p = some g → s.orders.get? c = some o → o.parentId = some p →
    o.status = .submitted → c ∈ g.children

/-- Of the children of one parent one has executed at most. -/
def Exclusive (s : Sim) : Prop :=
  ∀ p c c' o o', s.orders.get? c = some o → o.parentId = some p → s.orders.get? c' = some o' →
    o'.parentId = some p → s.Executed c → s.Executed c' → c = c'

/-- A child that is placed takes the slot of no submitted one, and a snapshot does not meet both
    children of a bracket. -/
def OneAtATime (s : Sim) : Op → Prop
  | .place req _ => refusal req s = none → ∀ p g c o, req.parentId = some p →
    s.brackets.get? p = some g → g.held req.kind = some c → s.orders.get? c = some o →
      o.status ≠ .submitted
  | .snapshot snap => ∀ c c', s.siblingOf c = some c' → s.Fires snap c → ¬s.Fires snap c'
  | _ => True

/-- Once a child has executed, no child of its parent is submitted, and their group waits no more. -/
def Decided (s : Sim) : Prop :=
  ∀ p g c c' o o', s.brackets.get? p = some g → s.orders.get? c = some o → o.parentId = some p →
    s.orders.get? c' = some o' → o'.parentId = some p → s.Executed c →
      g.state ≠ .parentWorking ∧ o'.status ≠ .submitted

/-! ### Slots under a step -/

section Slots

variable {g : BracketGroup} {c c' : OrderId}

theorem BracketGroup.mem_children_of_held {kind : OrderKind} (h : g.held kind = some c) :
    c ∈ g.children := by
  rw [mem_children]
  cases kind
  · exact .inl h
  · exact .inl h
  · exact .inr h
  · exact .inr h

/-- Whoever does not hold the slot keeps its own. -/
theorem BracketGroup.mem_children_slot_of_mem {kind : OrderKind} {n : OrderId} (h : c ∈ g.children)
    (hheld : g.held kind ≠ some c) : c ∈ (g.slot kind n).children := by
  rw [mem_children] at h ⊢
  cases kind <;> simp only [held, slot] at hheld ⊢ <;> tauto

/-- Whoever holds the slot loses it. -/
theorem BracketGroup.not_mem_children_slot {kind : OrderKind} {n : OrderId} (hnd : g.children.Nodup)
    (hheld : g.held kind = some c) (hne : c ≠ n) : c ∉ (g.slot kind n).children := by
  obtain ⟨p, tp, sl, oca, state⟩ := g
  have hne' : n ≠ c := Ne.symm hne
  cases kind <;> cases tp <;> cases sl <;>
    simp_all [BracketGroup.held, BracketGroup.slot, BracketGroup.children, eq_comm]

/-- The two children of a group are siblings. -/
theorem BracketGroup.sibling_of_mem (h : c ∈ g.children) (h' : c' ∈ g.children) (hne : c ≠ c') :
    g.sibling c = some c' := by
  rw [mem_children] at h h'
  obtain ⟨p, tp, sl, oca, state⟩ := g
  rcases h with h | h <;> rcases h' with h' | h'
  · exact absurd (Option.some.inj (h.symm.trans h')) hne
  · exact (if_pos h).trans h'
  · have htp : tp ≠ some c := fun htp => hne (Option.some.inj (htp.symm.trans h'))
    exact (if_neg htp).trans ((if_pos h).trans h')
  · exact absurd (Option.some.inj (h.symm.trans h')) hne

theorem Books.siblingOf_of_mem (hb : Books s) {p : OrderId} (hg : s.brackets.get? p = some g)
    (h : c ∈ g.children) (h' : c' ∈ g.children) (hne : c ≠ c') : s.siblingOf c = some c' := by
  obtain ⟨o, ho, hp⟩ := hb.slot p g c hg h
  have hparent : s.bracketChildToParent c = some p := by rw [hb.parent, ho, Option.bind_some, hp]
  simp only [Sim.siblingOf, Sim.parentGroup, hparent, Option.bind_some, hg,
    BracketGroup.sibling_of_mem h h' hne]

/-- A snapshot leaves the slots of a group. -/
theorem slots_onMarketSnapshot (hb : Books s) {p : OrderId} {g' : BracketGroup}
    (hg' : (onMarketSnapshot rng baseSeed snap s).2.brackets.get? p = some g') :
    ∃ g, s.brackets.get? p = some g ∧ g'.children = g.children ∧
      (g'.state = .parentWorking → g.state = .parentWorking) := by
  have ha : Ahead snap s [] (onMarketSnapshot rng baseSeed snap s).2 :=
    (snapshot_walk rng baseSeed (I := fun _ _ => True) (fun _ _ _ _ _ => trivial) hb trivial).1
  obtain ⟨f, hf, hstate⟩ := ha.groups.brackets
  rw [hf] at hg'
  obtain ⟨g, hg, rfl⟩ := Option.map_eq_some_iff.mp hg'
  obtain ⟨⟨state, heq⟩, hw⟩ := hstate g
  exact ⟨g, hg, by rw [heq]; rfl, hw⟩

/-- Whoever is submitted after a snapshot was before, or is activated. -/
theorem statusAt_eq_submitted {o : OrderRecord} (h : s.statusAt snap o = .submitted) :
    s.Activates snap o.orderId ∨ o.status = .submitted := by
  unfold Sim.statusAt at h
  split_ifs at h with hact
  · exact .inl hact
  · unfold statusAfter at h
    split at h
    · cases h
    · exact .inr h
  · unfold statusAfter at h
    split at h
    · cases h
    · exact .inr h
  · exact .inr h

end Slots

/-! ### What a step keeps -/

theorem executed_of_history {s' : Sim}
    (h : executions k (s'.view k).history = executions k (s.view k).history) :
    s'.Executed k ↔ s.Executed k := by
  rw [executions_history, executions_history] at h
  rw [Sim.Executed, h, Sim.Executed]

theorem executed_place {req : PlaceOrderReq} (haccepted : refusal req s = none)
    (now : VirtualInstant) (k : OrderId) : (place req now s).2.Executed k ↔ s.Executed k := by
  refine executed_of_history ?_
  rw [view_place haccepted]
  split
  · simp only [View.become, executions_append, executions_statuses, List.append_nil]
  · rfl

theorem executed_cancel (orderId k : OrderId) : (cancel orderId s).2.Executed k ↔ s.Executed k := by
  refine executed_of_history ?_
  rw [view_cancel]
  split
  · exact (Bystander.cancel k _).executions
  · rfl

/-- What the proof carries along a run. -/
structure Orderly (s : Sim) : Prop where
  slotted : Slotted s
  exclusive : Exclusive s
  decided : Decided s

section Place

variable {req : PlaceOrderReq}

/-- The group of an old child after an order is placed. -/
theorem group_of_old (hb : Books s) (haccepted : refusal req s = none) (now : VirtualInstant)
    {p c : OrderId} {o : OrderRecord} {g' : BracketGroup}
    (hg' : (place req now s).2.brackets.get? p = some g') (ho : s.orders.get? c = some o)
    (hp : o.parentId = some p) : ∃ g, s.brackets.get? p = some g ∧ g'.state = g.state ∧
      (g' = g ∨ req.parentId = some p ∧ g' = g.slot req.kind req.orderId) := by
  obtain ⟨g, hg⟩ := hb.grouped p c o ho hp
  rcases group_place haccepted now hg' with hold | ⟨hparent, rfl⟩ | ⟨-, hnone, -⟩
  · obtain rfl := Option.some.inj (hg.symm.trans hold)
    exact ⟨g, hg, rfl, .inl rfl⟩
  · have hgroup : s.groupOf p req.ocaGroup = g := by rw [Sim.groupOf, hg]; rfl
    rw [hgroup, BracketGroup.slot_state]
    exact ⟨g, hg, rfl, .inr ⟨hparent, rfl⟩⟩
  · rw [hg] at hnone
    cases hnone

/-- A record after an order is placed is an old one, or that of the order. -/
theorem record_place_cases (haccepted : refusal req s = none) {now : VirtualInstant} {c : OrderId}
    {o : OrderRecord} (ho : (place req now s).2.orders.get? c = some o) :
    s.orders.get? c = some o ∨ c = req.orderId ∧ o = req.record now := by
  rw [record_place haccepted] at ho
  split at ho
  · rename_i hid
    exact .inr ⟨hid.symm, (Option.some.inj ho).symm⟩
  · exact .inl ho

theorem status_record_of_child {p : OrderId} (now : VirtualInstant) (hp : req.parentId = some p) :
    (req.record now).status = .inactive := by
  simp [PlaceOrderReq.record, hp]

theorem Books.not_executed_of_accepted (hb : Books s) (haccepted : refusal req s = none) :
    ¬s.Executed req.orderId := by
  rw [Sim.Executed, ← executions_history, (hb.fresh _ (hb.new_of_accepted haccepted)).1]
  simp

theorem orderly_place (hb : Books s) (h : Orderly s) (haccepted : refusal req s = none)
    (now : VirtualInstant) (hone : OneAtATime s (.place req now)) : Orderly (place req now s).2 := by
  have hnot := hb.not_executed_of_accepted haccepted
  constructor
  case slotted =>
    intro p g' c o hg' ho hp hst
    rcases record_place_cases haccepted ho with hold | ⟨rfl, rfl⟩
    · obtain ⟨g, hg, -, rfl | ⟨hparent, rfl⟩⟩ := group_of_old hb haccepted now hg' hold hp
      · exact h.slotted p _ c o hg hold hp hst
      · refine BracketGroup.mem_children_slot_of_mem (h.slotted p g c o hg hold hp hst) fun hheld => ?_
        exact hone haccepted p g c o hparent hg hheld hold hst
    · rw [status_record_of_child now hp] at hst
      cases hst
  case exclusive =>
    intro p c c' o o' ho hp ho' hp' hc hc'
    rw [executed_place haccepted] at hc hc'
    rcases record_place_cases haccepted ho with hold | ⟨rfl, -⟩
    · rcases record_place_cases haccepted ho' with hold' | ⟨rfl, -⟩
      · exact h.exclusive p c c' o o' hold hp hold' hp' hc hc'
      · exact absurd hc' hnot
    · exact absurd hc hnot
  case decided =>
    intro p g' c c' o o' hg' ho hp ho' hp' hc
    rw [executed_place haccepted] at hc
    rcases record_place_cases haccepted ho with hold | ⟨rfl, -⟩
    · obtain ⟨g, hg, hstate, -⟩ := group_of_old hb haccepted now hg' hold hp
      rw [hstate]
      rcases record_place_cases haccepted ho' with hold' | ⟨-, rfl⟩
      · exact h.decided p g c c' o o' hg hold hp hold' hp' hc
      · refine ⟨(h.decided p g c c o o hg hold hp hold hp hc).1, ?_⟩
        rw [status_record_of_child now hp']
        simp
    · exact absurd hc hnot

/-- A placement after which every submitted child has its slot took none from one. -/
theorem oneAtATime_place (hb : Books s) {now : VirtualInstant} (h : Slotted (place req now s).2) :
    OneAtATime s (.place req now) := by
  intro haccepted p g c o hparent hg hheld ho hst
  have hne : c ≠ req.orderId := by
    rintro rfl
    rw [hb.new_of_accepted haccepted] at ho
    cases ho
  obtain ⟨o', ho', hp⟩ := hb.slot p g c hg (BracketGroup.mem_children_of_held hheld)
  obtain rfl := Option.some.inj (ho.symm.trans ho')
  have hgroup : s.groupOf p req.ocaGroup = g := by rw [Sim.groupOf, hg]; rfl
  have hg' : (place req now s).2.brackets.get? p = some (g.slot req.kind req.orderId) := by
    rw [brackets_place haccepted, hparent]
    simp only [if_true, hgroup]
  have hrec : (place req now s).2.orders.get? c = some o := by
    rw [record_place haccepted, if_neg (Ne.symm hne), ho]
  exact BracketGroup.not_mem_children_slot (hb.distinct p g hg) hheld hne
    (h p _ c o hg' hrec hp hst)

end Place

section Cancel

theorem orderly_cancel (h : Orderly s) (orderId : OrderId) : Orderly (cancel orderId s).2 := by
  have hgroups := (sameGroups_cancel orderId s).brackets
  have hback : ∀ {k o'}, (cancel orderId s).2.orders.get? k = some o' → ∃ o, s.orders.get? k = some o ∧
      o'.parentId = o.parentId ∧ (o'.status = .submitted → o.status = .submitted) := by
    intro k o' ho'
    rw [record_cancelled] at ho'
    obtain ⟨o, ho, rfl⟩ := Option.map_eq_some_iff.mp ho'
    refine ⟨o, ho, ?_, fun hst => ?_⟩
    · split
      · exact o.transition_parentId _
      · rfl
    · split at hst
      · rw [OrderRecord.transition_status, statusAfter] at hst
        split at hst
        · cases hst
        · exact hst
      · exact hst
  constructor
  case slotted =>
    intro p g c o' hg ho' hp hst
    rw [hgroups] at hg
    obtain ⟨o, ho, hparent, hsub⟩ := hback ho'
    exact h.slotted p g c o hg ho (hparent ▸ hp) (hsub hst)
  case exclusive =>
    intro p c c' o₁ o₂ ho₁ hp ho₂ hp' hc hc'
    rw [executed_cancel] at hc hc'
    obtain ⟨o, ho, hparent, -⟩ := hback ho₁
    obtain ⟨o', ho', hparent', -⟩ := hback ho₂
    exact h.exclusive p c c' o o' ho (hparent ▸ hp) ho' (hparent' ▸ hp') hc hc'
  case decided =>
    intro p g c c' o₁ o₂ hg ho₁ hp ho₂ hp' hc
    rw [hgroups] at hg
    rw [executed_cancel] at hc
    obtain ⟨o, ho, hparent, -⟩ := hback ho₁
    obtain ⟨o', ho', hparent', hsub⟩ := hback ho₂
    obtain ⟨hw, hst⟩ := h.decided p g c c' o o' hg ho (hparent ▸ hp) ho' (hparent' ▸ hp') hc
    exact ⟨hw, fun hst' => hst (hsub hst')⟩

end Cancel

section Snapshot

/-- Two children of one parent that a snapshot meets are siblings. -/
theorem Orderly.siblings_of_fires (h : Orderly s) (hb : Books s) {p c c' : OrderId}
    {o o' : OrderRecord} (ho : s.orders.get? c = some o) (hp : o.parentId = some p)
    (ho' : s.orders.get? c' = some o') (hp' : o'.parentId = some p) (hfires : s.Fires snap c)
    (hst' : o'.status = .submitted) (hne : c ≠ c') : s.siblingOf c = some c' := by
  obtain ⟨g, hg⟩ := hb.grouped p c o ho hp
  have hparent : s.bracketChildToParent c = some p := by rw [hb.parent, ho, Option.bind_some, hp]
  have hst := hb.submitted_of_candidate hfires.1 hparent ho
  exact hb.siblingOf_of_mem hg (h.slotted p g c o hg ho hp hst) (h.slotted p g c' o' hg ho' hp' hst')
    hne

theorem orderly_snapshot (hb : Books s) (h : Orderly s) (hone : OneAtATime s (.snapshot snap)) :
    Orderly (onMarketSnapshot rng baseSeed snap s).2 := by
  have hback : ∀ {k o'}, (onMarketSnapshot rng baseSeed snap s).2.orders.get? k = some o' →
      ∃ o, s.orders.get? k = some o ∧ o.parentId = o'.parentId ∧ o'.status = s.statusAt snap o := by
    intro k o' ho'
    obtain ⟨o, ho⟩ := known_before hb ho'
    obtain ⟨o₁, ho₁, hsame, hstatus⟩ := status_onMarketSnapshot rng baseSeed snap hb ho
    obtain rfl := Option.some.inj (ho'.symm.trans ho₁)
    exact ⟨o, ho, hsame.parentId.symm, hstatus⟩
  have hparent : ∀ {p c o}, s.orders.get? c = some o → o.parentId = some p →
      s.bracketChildToParent c = some p := by
    intro p c o ho hp
    rw [hb.parent, ho, Option.bind_some, hp]
  have hsubmitted : ∀ {p c o}, s.orders.get? c = some o → o.parentId = some p → s.Fires snap c →
      o.status = .submitted := fun ho hp hfires => hb.submitted_of_candidate hfires.1 (hparent ho hp) ho
  constructor
  case slotted =>
    intro p g' c o' hg' ho' hp hst
    obtain ⟨g, hg, hslots, -⟩ := slots_onMarketSnapshot hb hg'
    obtain ⟨o, ho, hp', hstatus⟩ := hback ho'
    rw [hslots]
    rcases statusAt_eq_submitted (hstatus.symm.trans hst) with ⟨q, hq, -, hact⟩ | hold
    · obtain rfl : o.orderId = c := Store.key_of_get? ho
      obtain rfl := Option.some.inj ((hparent ho (hp'.trans hp)).symm.trans hq)
      simp only [Sim.activated, hg] at hact
      split at hact
      · exact hact
      · cases hact
    · exact h.slotted p g c o hg ho (hp'.trans hp) hold
  case exclusive =>
    intro p c c' o₁ o₂ ho₁ hp ho₂ hp' hc hc'
    obtain ⟨o, ho, hpo, -⟩ := hback ho₁
    obtain ⟨o', ho', hpo', -⟩ := hback ho₂
    rw [executed_onMarketSnapshot hb] at hc hc'
    obtain ⟨g, hg⟩ := hb.grouped p c o ho (hpo.trans hp)
    by_contra hne
    rcases hc with hc | hc
    · have hdecided := (h.decided p g c c' o o' hg ho (hpo.trans hp) ho' (hpo'.trans hp') hc).2
      rcases hc' with hc' | hc'
      · exact hne (h.exclusive p c c' o o' ho (hpo.trans hp) ho' (hpo'.trans hp') hc hc')
      · exact hdecided (hsubmitted ho' (hpo'.trans hp') hc')
    · rcases hc' with hc' | hc'
      · exact (h.decided p g c' c o' o hg ho' (hpo'.trans hp') ho (hpo.trans hp) hc').2
          (hsubmitted ho (hpo.trans hp) hc)
      · have hsib := h.siblings_of_fires hb ho (hpo.trans hp) ho' (hpo'.trans hp') hc
          (hsubmitted ho' (hpo'.trans hp') hc') hne
        exact hone c c' hsib hc hc'
  case decided =>
    intro p g' c c' o₁ o₂ hg' ho₁ hp ho₂ hp' hc
    obtain ⟨g, hg, -, hstate⟩ := slots_onMarketSnapshot hb hg'
    obtain ⟨o, ho, hpo, -⟩ := hback ho₁
    obtain ⟨o', ho', hpo', hstatus⟩ := hback ho₂
    rw [executed_onMarketSnapshot hb] at hc
    have hw : g.state ≠ .parentWorking := by
      rcases hc with hc | hc
      · exact (h.decided p g c c o o hg ho (hpo.trans hp) ho (hpo.trans hp) hc).1
      · exact hb.not_parentWorking hc.1 (hparent ho (hpo.trans hp)) hg
    refine ⟨fun hw' => hw (hstate hw'), fun hst => ?_⟩
    have hst' : o'.status = .submitted := by
      rcases statusAt_eq_submitted (hstatus.symm.trans hst) with ⟨q, hq, -, hact⟩ | hold
      · obtain rfl : o'.orderId = c' := Store.key_of_get? ho'
        obtain rfl := Option.some.inj ((hparent ho' (hpo'.trans hp')).symm.trans hq)
        simp [Sim.activated, hg, hw] at hact
      · exact hold
    rcases hc with hc | hc
    · exact (h.decided p g c c' o o' hg ho (hpo.trans hp) ho' (hpo'.trans hp') hc).2 hst'
    · rw [hstatus] at hst
      by_cases hne : c = c'
      · subst hne
        rw [hb.statusAt_of_fires ho' hc, hst', statusAfter, transitionAllowed_submitted_filled] at hst
        split at hst <;> cases hst
      · -- the other child is the sibling, and is cancelled
        have hsib := h.siblings_of_fires hb ho (hpo.trans hp) ho' (hpo'.trans hp') hc hst' hne
        have hunder : s.Undercut snap c' := ⟨c, (hb.siblingOf_comm hsib).1, hc,
          fun hc' => absurd hc' (hone c c' hsib hc)⟩
        have hlive : OrderRecord.isTerminal o'.status = false := by rw [hst']; rfl
        rw [(hb.statusAt_eq_cancelled ho' hlive).mpr hunder] at hst
        cases hst

variable (rng baseSeed) in
/-- A snapshot after which one child has executed at most does not meet two. -/
theorem oneAtATime_snapshot (hb : Books s) (h : Exclusive (onMarketSnapshot rng baseSeed snap s).2) :
    OneAtATime s (.snapshot snap) := by
  intro c c' hsib hc hc'
  obtain ⟨p, o, o', ho, hp, ho', hp'⟩ := hb.of_siblingOf hsib
  obtain ⟨o₁, ho₁, hsame, -⟩ := status_onMarketSnapshot rng baseSeed snap hb ho
  obtain ⟨o₂, ho₂, hsame', -⟩ := status_onMarketSnapshot rng baseSeed snap hb ho'
  refine (hb.siblingOf_comm hsib).2 ?_
  refine h p c c' o₁ o₂ ho₁ (hsame.parentId.trans hp) ho₂ (hsame'.parentId.trans hp') ?_ ?_
  · exact (executed_onMarketSnapshot hb).mpr (.inr hc)
  · exact (executed_onMarketSnapshot hb).mpr (.inr hc')

end Snapshot

/-! ### Runs -/

theorem orderly_new : Orderly Sim.new where
  slotted _ _ _ _ h := by cases h
  exclusive _ _ _ _ _ h := by cases h
  decided _ _ _ _ _ _ h := by cases h

theorem orderly_exec (hb : Books s) (h : Orderly s) {op : Op} (hone : OneAtATime s op) :
    Orderly (exec rng baseSeed op s).2 := by
  have hsame : ∀ {s' : Sim}, s'.brackets = s.brackets → s'.orders = s.orders →
      (∀ k, s'.Executed k ↔ s.Executed k) → Orderly s' := by
    intro s' hgroups horders hexec
    constructor
    case slotted =>
      unfold Slotted
      rw [hgroups, horders]
      exact h.slotted
    case exclusive =>
      unfold Exclusive
      simp only [horders, hexec]
      exact h.exclusive
    case decided =>
      unfold Decided
      simp only [hgroups, horders, hexec]
      exact h.decided
  cases op with
  | place req now =>
    cases hrefused : refusal req s with
    | some r =>
      rw [exec, place_of_refusal hrefused]
      refine hsame rfl rfl fun k => executed_of_history ?_
      rw [view_emit]
      simp
    | none => exact orderly_place hb h hrefused now hone
  | cancel orderId => exact orderly_cancel h orderId
  | snapshot snap => exact orderly_snapshot hb h hone
  | openOrders =>
    refine hsame rfl rfl fun k => executed_of_history ?_
    rw [exec, view_openOrders]
    exact (Bystander.restate k _).executions
  | _ => exact hsame rfl rfl fun _ => Iff.rfl

theorem oneAtATime_of_exec (hb : Books s) {op : Op} (hslotted : Slotted (exec rng baseSeed op s).2)
    (hexclusive : Exclusive (exec rng baseSeed op s).2) : OneAtATime s op := by
  cases op with
  | place req now => exact oneAtATime_place hb hslotted
  | snapshot snap => exact oneAtATime_snapshot rng baseSeed hb hexclusive
  | _ => trivial

/-- Over a run every submitted child keeps its slot and of the children of one parent one executes at
    most, exactly when no placement takes the slot of a submitted child and no snapshot meets both. -/
theorem children_exclusive_iff (rng : Rng) (baseSeed : UInt64) (ops : List Op) :
    AllStates (step rng baseSeed) (fun done => Slotted done.2 ∧ Exclusive done.2) ([], Sim.new) ops ↔
      AllSteps (step rng baseSeed) (fun done op => OneAtATime done.2 op) ([], Sim.new) ops := by
  constructor
  · refine allSteps_of_allStates (step rng baseSeed)
      (J := fun done => Books done.2 ∧ Orderly done.2) ?_ ?_ ⟨books_new, orderly_new⟩
    · exact fun done op h hop => ⟨books_step h.1 op, orderly_exec h.1 h.2 hop⟩
    · exact fun done op h hq => oneAtATime_of_exec h.1 hq.1 hq.2
  · intro h pre hpre
    have horderly : AllStates (step rng baseSeed) (fun done => Orderly done.2) ([], Sim.new) ops :=
      allStates_of_allSteps (step rng baseSeed) (I := fun done => Books done.2)
        (fun done op hb => books_step hb op) (fun done op hb h hop => orderly_exec hb h hop)
        books_new orderly_new h
    exact ⟨(horderly pre hpre).slotted, (horderly pre hpre).exclusive⟩

end Midas.IbSim
