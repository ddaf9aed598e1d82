import HandOfMidas.IbSim.Views

/-! What is true of the simulator's books after every call: which ids are in use, who is whose child,
    which statuses occur, and that the children of a group that still waits for its parent are
    waiting too. -/

namespace Midas.IbSim

variable {rng : Rng} {baseSeed : UInt64}

/-! ### Records along a call -/

/-- `o'` is a later record of the order `o`. -/
structure SameOrder (o o' : OrderRecord) : Prop where
  orderId : o'.orderId = o.orderId
  contract : o'.contract = o.contract
  side : o'.side = o.side
  kind : o'.kind = o.kind
  totalQty : o'.totalQty = o.totalQty
  parentId : o'.parentId = o.parentId

theorem SameOrder.refl (o : OrderRecord) : SameOrder o o := ⟨rfl, rfl, rfl, rfl, rfl, rfl⟩

theorem SameOrder.trans {o o' o'' : OrderRecord} (h : SameOrder o o') (h' : SameOrder o' o'') :
    SameOrder o o'' :=
  ⟨h'.orderId.trans h.orderId, h'.contract.trans h.contract, h'.side.trans h.side,
   h'.kind.trans h.kind, h'.totalQty.trans h.totalQty, h'.parentId.trans h.parentId⟩

theorem sameOrder_transition (o : OrderRecord) (target : OrderStatusCode) :
    SameOrder o (o.transition target) := by
  rw [OrderRecord.transition_eq]
  exact ⟨rfl, rfl, rfl, rfl, rfl, rfl⟩

theorem sameOrder_seen (snap : MarketSnapshot) (slippage : SlippageKind) (o : OrderRecord) :
    SameOrder o (o.seen snap slippage) := by
  rw [seen_eq]
  exact ⟨rfl, rfl, rfl, rfl, rfl, rfl⟩

theorem sameOrder_book (o : OrderRecord) (shares price : ℚ) : SameOrder o (o.book shares price) :=
  ⟨rfl, rfl, rfl, rfl, rfl, rfl⟩

theorem sameOrder_finish (o : OrderRecord) : SameOrder o o.finish :=
  (sameOrder_transition o .filled).trans ⟨rfl, rfl, rfl, rfl, rfl, rfl⟩

theorem sameOrder_play (p : PatternKind) (o : OrderRecord) (fill : Fill) (counter : ℕ)
    (chunks : List ℚ) : SameOrder o (p.play o fill counter chunks).1 := by
  cases p with
  | a => exact (sameOrder_finish o).trans (sameOrder_book _ _ _)
  | b => exact (sameOrder_book o _ _).trans (sameOrder_finish _)
  | c =>
    exact (((sameOrder_book o _ _).trans (sameOrder_transition _ _)).trans
      (sameOrder_book _ _ _)).trans (sameOrder_finish _)

theorem sameOrder_played (snap : MarketSnapshot) (s : Sim) (fill : Fill) (o : OrderRecord) :
    SameOrder o (o.played rng baseSeed snap s fill).1 :=
  (sameOrder_seen snap s.slippage o).trans (sameOrder_play _ _ _ _ _)

@[simp] theorem played_status (snap : MarketSnapshot) (s : Sim) (fill : Fill) (o : OrderRecord) :
    (o.played rng baseSeed snap s fill).1.status = statusAfter o.kind o.status .filled := by
  simp [OrderRecord.played, play_status]

namespace View

variable (v : View)

theorem record_fill (snap : MarketSnapshot) (s : Sim) (fill : Fill) :
    (v.fill rng baseSeed snap s fill).record =
      v.record.map fun o => (o.played rng baseSeed snap s fill).1 := by
  unfold View.fill
  cases hr : v.record with
  | none => simp [hr]
  | some o => rfl

theorem record_activate (parentId : OrderId) :
    (v.activate parentId).record = v.record.map (·.transition .submitted) := by
  unfold View.activate
  cases hr : v.record with
  | none => simp [hr]
  | some o => rfl

theorem record_ocaCancel (parentId : OrderId) :
    (v.ocaCancel parentId).record = v.record.map (·.transition .cancelled) := by
  unfold View.ocaCancel
  cases hr : v.record with
  | none => simp [hr]
  | some o =>
    cases hall : transitionAllowed o.kind o.status .cancelled with
    | true => simp [hall, become]
    | false => simp [hall, hr, OrderRecord.transition_of_not_allowed o .cancelled hall]

theorem record_cancel : v.cancel.record = v.record.map (·.transition .cancelled) := by
  unfold View.cancel
  cases hr : v.record with
  | none => simp [hr]
  | some o =>
    cases hall : transitionAllowed o.kind o.status .cancelled with
    | true => simp [hall, become]
    | false => simp [hall, hr, OrderRecord.transition_of_not_allowed o .cancelled hall]

end View

/-- The record of order `k` after a look that fills order `j`. -/
def Sim.recordAfter (rng : Rng) (baseSeed : UInt64) (snap : MarketSnapshot) (s : Sim) (fill : Fill)
    (j k : OrderId) (o : OrderRecord) : OrderRecord :=
  let o := if j = k then (o.played rng baseSeed snap s fill).1 else o
  let o := if k ∈ s.activated j then o.transition .submitted else o
  if s.siblingOf j = some k then o.transition .cancelled else o

theorem record_look_of_some {snap : MarketSnapshot} {j : OrderId} {s : Sim} {fill : Fill}
    (h : s.fillIn snap j = some fill) (hnd : (s.activated j).Nodup) (k : OrderId) :
    (look rng baseSeed snap j s).2.orders.get? k =
      (s.orders.get? k).map (s.recordAfter rng baseSeed snap fill j k) := by
  have hview := congrArg View.record (view_look_of_some rng baseSeed snap h hnd k)
  refine hview.trans ?_
  cases hr : s.orders.get? k with
  | none =>
    have hr' : (s.view k).record = none := hr
    dsimp only
    split <;> split <;> split <;>
      simp [View.record_ocaCancel, View.record_activate, View.record_fill, hr']
  | some o =>
    have hr' : (s.view k).record = some o := hr
    dsimp only [Sim.recordAfter, Option.map_some]
    split <;> split <;> split <;>
      simp [View.record_ocaCancel, View.record_activate, View.record_fill, hr']

theorem sameOrder_recordAfter (snap : MarketSnapshot) (s : Sim) (fill : Fill) (j k : OrderId)
    (o : OrderRecord) : SameOrder o (s.recordAfter rng baseSeed snap fill j k o) := by
  unfold Sim.recordAfter
  have h₁ : SameOrder o (if j = k then (o.played rng baseSeed snap s fill).1 else o) := by
    split
    · exact sameOrder_played snap s fill o
    · exact SameOrder.refl o
  have h₂ := fun o' : OrderRecord => (show SameOrder o'
      (if k ∈ s.activated j then o'.transition .submitted else o') by
    split
    · exact sameOrder_transition o' _
    · exact SameOrder.refl o')
  have h₃ := fun o' : OrderRecord => (show SameOrder o'
      (if s.siblingOf j = some k then o'.transition .cancelled else o') by
    split
    · exact sameOrder_transition o' _
    · exact SameOrder.refl o')
  exact (h₁.trans (h₂ _)).trans (h₃ _)

/-! ### The books -/

/-- The statuses an order without a parent is stored with. -/
def RootStatus (st : OrderStatusCode) : Prop :=
  st = .preSubmitted ∨ st = .submitted ∨ st = .filled ∨ st = .cancelled

/-- The statuses a child is stored with. -/
def ChildStatus (st : OrderStatusCode) : Prop :=
  st = .inactive ∨ st = .submitted ∨ st = .filled ∨ st = .cancelled

/-- The statuses of a child that waits, and of one that was cancelled while it did. -/
def WaitingStatus (st : OrderStatusCode) : Prop := st = .inactive ∨ st = .cancelled

/-- What a call may do to a status: try to fill, to activate or to cancel. -/
structure StatusMoves (st st' : OrderStatusCode) : Prop where
  root : RootStatus st → RootStatus st'
  child : ChildStatus st → ChildStatus st'
  terminal : OrderRecord.isTerminal st = true → st' = st

theorem StatusMoves.refl (st : OrderStatusCode) : StatusMoves st st := ⟨id, id, fun _ => rfl⟩

theorem StatusMoves.trans {st st' st'' : OrderStatusCode} (h : StatusMoves st st')
    (h' : StatusMoves st' st'') : StatusMoves st st'' := by
  refine ⟨h'.root ∘ h.root, h'.child ∘ h.child, fun ht => ?_⟩
  have hst := h.terminal ht
  rw [h'.terminal (hst ▸ ht), hst]

theorem statusMoves_statusAfter (kind : OrderKind) (st tgt : OrderStatusCode)
    (htgt : tgt = .filled ∨ tgt = .submitted ∨ tgt = .cancelled) :
    StatusMoves st (statusAfter kind st tgt) := by
  refine ⟨?_, ?_, statusAfter_of_isTerminal⟩
  · rintro (rfl | rfl | rfl | rfl) <;> rcases htgt with rfl | rfl | rfl <;> cases kind <;>
      simp [statusAfter, transitionAllowed, RootStatus]
  · rintro (rfl | rfl | rfl | rfl) <;> rcases htgt with rfl | rfl | rfl <;> cases kind <;>
      simp [statusAfter, transitionAllowed, ChildStatus]

structure Books (s : Sim) : Prop where
  seen : ∀ k, s.seenOrderIds k = (s.orders.get? k).isSome
  fresh : ∀ k, s.orders.get? k = none → (s.view k).history = [] ∧ (s.view k).bookings = []
  parent : ∀ k, s.bracketChildToParent k = (s.orders.get? k).bind (·.parentId)
  slot : ∀ p g c, s.brackets.get? p = some g → c ∈ g.children →
    ∃ o, s.orders.get? c = some o ∧ o.parentId = some p
  distinct : ∀ p g, s.brackets.get? p = some g → g.children.Nodup
  grouped : ∀ p c o, s.orders.get? c = some o → o.parentId = some p →
    ∃ g, s.brackets.get? p = some g
  waiting : ∀ p g c o, s.brackets.get? p = some g → g.state = .parentWorking →
    s.orders.get? c = some o → o.parentId = some p → WaitingStatus o.status
  rootStatus : ∀ k o, s.orders.get? k = some o → o.parentId = none → RootStatus o.status
  childStatus : ∀ p k o, s.orders.get? k = some o → o.parentId = some p → ChildStatus o.status

theorem books_new : Books Sim.new where
  seen _ := rfl
  fresh _ _ := ⟨rfl, rfl⟩
  parent _ := rfl
  slot _ _ _ h := by cases h
  distinct _ _ h := by cases h
  grouped _ _ _ h := by cases h
  waiting _ _ _ _ h := by cases h
  rootStatus _ _ h := by cases h
  childStatus _ _ _ h := by cases h

/-- A call that moves records and group states along keeps the books, if the children of a group that
    still waits keep waiting. -/
theorem Books.of_moves {s s' : Sim} (hb : Books s) {r : OrderId → OrderRecord → OrderRecord}
    {f : BracketGroup → BracketGroup}
    (hparent : s'.bracketChildToParent = s.bracketChildToParent)
    (hseen : s'.seenOrderIds = s.seenOrderIds)
    (hgroups : ∀ p, s'.brackets.get? p = (s.brackets.get? p).map f)
    (hf : ∀ g, (f g).children = g.children)
    (hrecords : ∀ k, s'.orders.get? k = (s.orders.get? k).map (r k))
    (hsame : ∀ k o, SameOrder o (r k o))
    (hmoves : ∀ k o, s.orders.get? k = some o → StatusMoves o.status (r k o).status)
    (hwait : ∀ p g k o, s.brackets.get? p = some g → (f g).state = .parentWorking →
      s.orders.get? k = some o → o.parentId = some p →
        g.state = .parentWorking ∧ (WaitingStatus o.status → WaitingStatus (r k o).status))
    (hfresh : ∀ k, s.orders.get? k = none → s'.view k = s.view k) : Books s' := by
  have hback : ∀ k o', s'.orders.get? k = some o' → ∃ o, s.orders.get? k = some o ∧ o' = r k o := by
    intro k o' h
    rw [hrecords] at h
    obtain ⟨o, ho, rfl⟩ := Option.map_eq_some_iff.mp h
    exact ⟨o, ho, rfl⟩
  have hgback : ∀ p g', s'.brackets.get? p = some g' → ∃ g, s.brackets.get? p = some g ∧ g' = f g := by
    intro p g' h
    rw [hgroups] at h
    obtain ⟨g, hg, rfl⟩ := Option.map_eq_some_iff.mp h
    exact ⟨g, hg, rfl⟩
  constructor
  case seen => intro k; rw [hseen, hb.seen, hrecords, Option.isSome_map]
  case fresh =>
    intro k hk
    rw [hrecords, Option.map_eq_none_iff] at hk
    rw [hfresh k hk]
    exact hb.fresh k hk
  case parent =>
    intro k
    rw [hparent, hb.parent, hrecords]
    cases s.orders.get? k with
    | none => rfl
    | some o => exact (hsame k o).parentId.symm
  case slot =>
    intro p g' c hg' hc
    obtain ⟨g, hg, rfl⟩ := hgback p g' hg'
    rw [hf] at hc
    obtain ⟨o, ho, hp⟩ := hb.slot p g c hg hc
    exact ⟨r c o, by rw [hrecords, ho]; rfl, (hsame c o).parentId.trans hp⟩
  case distinct =>
    intro p g' hg'
    obtain ⟨g, hg, rfl⟩ := hgback p g' hg'
    rw [hf]
    exact hb.distinct p g hg
  case grouped =>
    intro p c o' ho' hp
    obtain ⟨o, ho, rfl⟩ := hback c o' ho'
    obtain ⟨g, hg⟩ := hb.grouped p c o ho ((hsame c o).parentId ▸ hp)
    exact ⟨f g, by rw [hgroups, hg]; rfl⟩
  case waiting =>
    intro p g' c o' hg' hw ho' hp
    obtain ⟨g, hg, rfl⟩ := hgback p g' hg'
    obtain ⟨o, ho, rfl⟩ := hback c o' ho'
    have hp' : o.parentId = some p := (hsame c o).parentId ▸ hp
    obtain ⟨hgw, hkeep⟩ := hwait p g c o hg hw ho hp'
    exact hkeep (hb.waiting p g c o hg hgw ho hp')
  case rootStatus =>
    intro k o' ho' hp
    obtain ⟨o, ho, rfl⟩ := hback k o' ho'
    exact (hmoves k o ho).root (hb.rootStatus k o ho ((hsame k o).parentId ▸ hp))
  case childStatus =>
    intro p k o' ho' hp
    obtain ⟨o, ho, rfl⟩ := hback k o' ho'
    exact (hmoves k o ho).child (hb.childStatus p k o ho ((hsame k o).parentId ▸ hp))

@[simp] theorem BracketGroup.activate_children (j : OrderId) (g : BracketGroup) :
    (g.activate j).children = g.children := by
  unfold activate
  split <;> rfl

@[simp] theorem BracketGroup.cancel_children (s : Sim) (j : OrderId) (g : BracketGroup) :
    (g.cancel s j).children = g.children := by
  unfold cancel
  split <;> rfl

/-- Only a group that a fill of `j` does not concern goes on waiting for its parent. -/
theorem parentWorking_after {s : Sim} {j : OrderId} {g : BracketGroup}
    (h : ((g.activate j).cancel s j).state = .parentWorking) :
    g.state = .parentWorking ∧ g.parentId ≠ j := by
  unfold BracketGroup.cancel at h
  split at h
  · cases h
  · unfold BracketGroup.activate at h
    split at h
    · cases h
    · rename_i hnot
      exact ⟨h, fun hp => hnot ⟨hp, h⟩⟩

theorem Books.activated_nodup {s : Sim} (hb : Books s) (j : OrderId) : (s.activated j).Nodup := by
  unfold Sim.activated
  split
  · exact List.nodup_nil
  · rename_i g hg
    split
    · exact hb.distinct j g hg
    · exact List.nodup_nil

/-- Whoever a fill of `j` activates is a child of `j`, in a slot of its waiting group. -/
theorem Books.of_mem_activated {s : Sim} (hb : Books s) {j k : OrderId}
    (h : k ∈ s.activated j) : ∃ g o, s.brackets.get? j = some g ∧ g.state = .parentWorking ∧
      s.orders.get? k = some o ∧ o.parentId = some j := by
  unfold Sim.activated at h
  split at h
  · exact (List.not_mem_nil h).elim
  · rename_i g hg
    split at h
    · rename_i hw
      obtain ⟨o, ho, hp⟩ := hb.slot j g k hg h
      exact ⟨g, o, hg, hw, ho, hp⟩
    · exact (List.not_mem_nil h).elim

/-- Siblings have the same parent. -/
theorem Books.of_siblingOf {s : Sim} (hb : Books s) {j k : OrderId} (h : s.siblingOf j = some k) :
    ∃ p oj ok, s.orders.get? j = some oj ∧ oj.parentId = some p ∧
      s.orders.get? k = some ok ∧ ok.parentId = some p := by
  obtain ⟨g, hg, hsib⟩ := Option.bind_eq_some_iff.mp h
  obtain ⟨hp, hget⟩ := parentGroup_eq_some hg
  obtain ⟨ok, hok, hpk⟩ := hb.slot _ g k hget (BracketGroup.mem_children_of_sibling hsib)
  rw [hb.parent] at hp
  obtain ⟨oj, hoj, hpj⟩ := Option.bind_eq_some_iff.mp hp
  exact ⟨g.parentId, oj, ok, hoj, hpj, hok, hpk⟩

theorem waitingStatus_filled {kind : OrderKind} {st : OrderStatusCode} (h : WaitingStatus st) :
    statusAfter kind st .filled = st := by
  rcases h with rfl | rfl <;> cases kind <;> rfl

theorem waitingStatus_cancelled {kind : OrderKind} {st : OrderStatusCode} (h : WaitingStatus st) :
    statusAfter kind st .cancelled = .cancelled := by
  rcases h with rfl | rfl <;> rfl

theorem status_recordAfter (snap : MarketSnapshot) (s : Sim) (fill : Fill) (j k : OrderId)
    (o : OrderRecord) : (s.recordAfter rng baseSeed snap fill j k o).status =
      let st := if j = k then statusAfter o.kind o.status .filled else o.status
      let st := if k ∈ s.activated j then statusAfter o.kind st .submitted else st
      if s.siblingOf j = some k then statusAfter o.kind st .cancelled else st := by
  have hkind : (o.played rng baseSeed snap s fill).1.kind = o.kind :=
    (sameOrder_played snap s fill o).kind
  dsimp only [Sim.recordAfter]
  split <;> split <;> split <;> simp [hkind]

/-- A look keeps the books. -/
theorem books_look {s : Sim} (hb : Books s) (snap : MarketSnapshot) (j : OrderId) :
    Books (look rng baseSeed snap j s).2 := by
  cases hfill : s.fillIn snap j with
  | none =>
    have hgroups := sameGroups_look_of_none rng baseSeed snap hfill
    have hview := view_look_of_none rng baseSeed snap hfill
    refine hb.of_moves (r := fun k o => if j = k then o.seen snap s.slippage else o) (f := id)
      hgroups.bracketChildToParent hgroups.seenOrderIds ?_ (fun _ => rfl) ?_ ?_ ?_ ?_ ?_
    · intro p; rw [hgroups.brackets]; simp
    · intro k
      refine (congrArg View.record (hview k)).trans ?_
      by_cases hk : j = k
      · simp [hk, Sim.view]
      · simp [hk, Sim.view]
    · intro k o
      split
      · exact sameOrder_seen snap _ o
      · exact SameOrder.refl o
    · intro k o _
      split
      · rw [seen_status]; exact StatusMoves.refl _
      · exact StatusMoves.refl _
    · intro p g k o hg hw ho hp
      refine ⟨hw, fun h => ?_⟩
      split
      · rwa [seen_status]
      · exact h
    · intro k hk
      rw [hview]
      by_cases hjk : j = k
      · simp [hjk, Sim.view, hk]
      · simp [hjk]
  | some fill =>
    have hset := sameSettings_look rng baseSeed snap j s
    have hnd := hb.activated_nodup j
    refine hb.of_moves (r := s.recordAfter rng baseSeed snap fill j)
      (f := fun g => (g.activate j).cancel s j) hset.bracketChildToParent hset.seenOrderIds
      (brackets_look_of_some rng baseSeed snap hfill) (by simp)
      (record_look_of_some hfill hnd) (sameOrder_recordAfter snap s fill j) ?_ ?_ ?_
    · intro k o _
      have hif : ∀ (P : Prop) [Decidable P] (st tgt : OrderStatusCode),
          (tgt = .filled ∨ tgt = .submitted ∨ tgt = .cancelled) →
            StatusMoves st (if P then statusAfter o.kind st tgt else st) := by
        intro P _ st tgt htgt
        split
        · exact statusMoves_statusAfter o.kind st tgt htgt
        · exact StatusMoves.refl st
      rw [status_recordAfter]
      exact ((hif _ _ .filled (by simp)).trans (hif _ _ .submitted (by simp))).trans
        (hif _ _ .cancelled (by simp))
    · intro p g k o hg hw ho hp
      obtain ⟨hgw, hne⟩ := parentWorking_after hw
      refine ⟨hgw, fun h => ?_⟩
      have hp' : g.parentId = p := Store.key_of_get? hg
      have hact : k ∉ s.activated j := by
        intro hk
        obtain ⟨_, o', -, -, ho', hj⟩ := hb.of_mem_activated hk
        rw [ho] at ho'
        cases ho'
        rw [hp] at hj
        exact hne (hp'.trans (Option.some.inj hj))
      rw [status_recordAfter]
      simp only [hact, if_false, waitingStatus_filled h, ite_self]
      split
      · rw [waitingStatus_cancelled h]; exact Or.inr rfl
      · exact h
    · intro k hk
      have hr : (s.view k).record = none := hk
      rw [view_look_of_some rng baseSeed snap hfill hnd]
      simp [View.fill, View.activate, View.ocaCancel, hr]

theorem unseen_of_accepted {req : PlaceOrderReq} {s : Sim} (h : refusal req s = none) :
    s.seenOrderIds req.orderId = false := by
  unfold refusal at h
  cases hseen : s.seenOrderIds req.orderId with
  | false => rfl
  | true => simp [hseen] at h

/-- An accepted request is for an order that does not exist yet. -/
theorem Books.new_of_accepted {s : Sim} (hb : Books s) {req : PlaceOrderReq}
    (h : refusal req s = none) : s.orders.get? req.orderId = none := by
  have := hb.seen req.orderId
  rw [unseen_of_accepted h] at this
  cases ho : s.orders.get? req.orderId with
  | none => rfl
  | some o => simp [ho] at this

theorem record_place {req : PlaceOrderReq} {s : Sim} (h : refusal req s = none)
    (now : VirtualInstant) (k : OrderId) : (place req now s).2.orders.get? k =
      if req.orderId = k then some (req.record now) else s.orders.get? k := by
  have hview := congrArg View.record (view_place h now k)
  refine hview.trans ?_
  split <;> rfl

theorem seen_place {req : PlaceOrderReq} {s : Sim} (h : refusal req s = none)
    (now : VirtualInstant) :
    (place req now s).2.seenOrderIds = Function.update s.seenOrderIds req.orderId true := by
  unfold place
  simp only [h]
  split <;> rfl

theorem parent_place {s : Sim} (hb : Books s) {req : PlaceOrderReq} (h : refusal req s = none)
    (now : VirtualInstant) : (place req now s).2.bracketChildToParent =
      Function.update s.bracketChildToParent req.orderId req.parentId := by
  have hnone : s.bracketChildToParent req.orderId = none := by
    rw [hb.parent, hb.new_of_accepted h]; rfl
  unfold place
  simp only [h]
  cases hp : req.parentId with
  | some p => rfl
  | none =>
    show s.bracketChildToParent = _
    rw [← hnone, Function.update_eq_self]

/-- The groups after a request is accepted: that of the parent has the child in a slot, and an order
    that heads a group of its own opens it. -/
theorem brackets_place {req : PlaceOrderReq} {s : Sim} (h : refusal req s = none)
    (now : VirtualInstant) (p : OrderId) : (place req now s).2.brackets.get? p =
      match req.parentId with
      | some parentId =>
        if p = parentId then some ((s.groupOf parentId req.ocaGroup).slot req.kind req.orderId)
        else s.brackets.get? p
      | none =>
        if p = req.orderId ∧ req.ocaGroup.isSome then some (s.groupOf p req.ocaGroup)
        else s.brackets.get? p := by
  have hgroup : ∀ k oca, (s.groupOf k oca).parentId = k := by
    intro k oca
    unfold Sim.groupOf
    cases hg : s.brackets.get? k with
    | none => rfl
    | some g => exact Store.key_of_get? hg
  unfold place
  simp only [h]
  cases hp : req.parentId with
  | some parentId =>
    show (s.brackets.put ((s.groupOf parentId req.ocaGroup).slot req.kind req.orderId)).get? p = _
    rw [Store.get?_put, BracketGroup.slot_parentId, hgroup]
  | none =>
    have hid : ∀ o : OrderRecord, o.orderId = req.orderId →
        (if o.kind = .limit then o.transition .submitted else o).orderId = req.orderId := by
      intro o ho
      split
      · simpa using ho
      · exact ho
    have hplaced := hid (((OrderRecord.fromPlaceReq req now).transition .pendingSubmit).transition
      .preSubmitted) (by simp [OrderRecord.fromPlaceReq])
    simp only [placeRoot, Sim.emit, hplaced]
    cases hoca : req.ocaGroup.isSome with
    | false => simp
    | true =>
      simp only [if_true, and_true, Store.get?_put, hgroup]
      split
      · rename_i hpk; rw [hpk]
      · rfl

/-- A group that is looked up or opened has only children it had before. -/
theorem groupOf_cases (s : Sim) (p : OrderId) (oca : Option String) :
    s.brackets.get? p = some (s.groupOf p oca) ∨
      s.brackets.get? p = none ∧ s.groupOf p oca = .new p oca := by
  unfold Sim.groupOf
  cases h : s.brackets.get? p with
  | none => exact Or.inr ⟨rfl, rfl⟩
  | some g => exact Or.inl rfl

/-- A group after a request is accepted. -/
theorem group_place {req : PlaceOrderReq} {s : Sim} (h : refusal req s = none)
    (now : VirtualInstant) {p : OrderId} {g : BracketGroup}
    (hg : (place req now s).2.brackets.get? p = some g) :
    s.brackets.get? p = some g ∨
      (req.parentId = some p ∧ g = (s.groupOf p req.ocaGroup).slot req.kind req.orderId) ∨
      (p = req.orderId ∧ s.brackets.get? p = none ∧ g = .new p req.ocaGroup) := by
  rw [brackets_place h] at hg
  cases hp : req.parentId with
  | some parentId =>
    simp only [hp] at hg
    split at hg
    · rename_i hpk
      subst hpk
      cases hg
      exact Or.inr (Or.inl ⟨rfl, rfl⟩)
    · exact Or.inl hg
  | none =>
    simp only [hp] at hg
    split at hg
    · rename_i hpk
      cases hg
      rcases groupOf_cases s p req.ocaGroup with hold | ⟨hnone, hnew⟩
      · exact Or.inl hold
      · exact Or.inr (Or.inr ⟨hpk.1, hnone, hnew⟩)
    · exact Or.inl hg

theorem nodup_children_slot {g : BracketGroup} {kind : OrderKind} {c : OrderId}
    (h : g.children.Nodup) (hc : c ∉ g.children) : (g.slot kind c).children.Nodup := by
  obtain ⟨p, tp, sl, oca, state⟩ := g
  cases kind <;> cases tp <;> cases sl <;>
    simp_all [BracketGroup.slot, BracketGroup.children, eq_comm]

theorem books_place {s : Sim} (hb : Books s) {req : PlaceOrderReq} (h : refusal req s = none)
    (now : VirtualInstant) : Books (place req now s).2 := by
  have hnew := hb.new_of_accepted h
  have hrec := record_place h now
  have hold : ∀ k o, s.orders.get? k = some o → (place req now s).2.orders.get? k = some o := by
    intro k o ho
    have hne : req.orderId ≠ k := by rintro rfl; rw [hnew] at ho; cases ho
    rw [hrec, if_neg hne, ho]
  have hself : (place req now s).2.orders.get? req.orderId = some (req.record now) := by
    rw [hrec, if_pos rfl]
  -- an order afterwards is the new one or an old one
  have hback : ∀ k o, (place req now s).2.orders.get? k = some o →
      k = req.orderId ∧ o = req.record now ∨ s.orders.get? k = some o := by
    intro k o ho
    rw [hrec] at ho
    split at ho
    · rename_i hk; cases ho; exact Or.inl ⟨hk.symm, rfl⟩
    · exact Or.inr ho
  have hchild : ∀ p, req.orderId ∉ (s.groupOf p req.ocaGroup).children := by
    intro p hmem
    rcases groupOf_cases s p req.ocaGroup with hg | ⟨-, hg⟩
    · obtain ⟨o, ho, -⟩ := hb.slot p _ _ hg hmem
      rw [hnew] at ho; cases ho
    · rw [hg] at hmem; cases hmem
  have hstatus : (req.record now).status =
      if req.parentId.isSome then .inactive else if req.kind = .limit then .submitted
        else .preSubmitted := rfl
  constructor
  case seen =>
    intro k
    rw [seen_place h, hrec]
    by_cases hk : req.orderId = k
    · simp [hk]
    · rw [Function.update_of_ne (Ne.symm hk), if_neg hk, hb.seen]
  case fresh =>
    intro k hk
    have hview := view_place h now k
    rw [hrec] at hk
    split at hk
    · cases hk
    · rename_i hne
      rw [hview, if_neg hne]
      exact hb.fresh k hk
  case parent =>
    intro k
    rw [parent_place hb h, hrec]
    by_cases hk : req.orderId = k
    · subst hk; simp
    · rw [Function.update_of_ne (Ne.symm hk), if_neg hk, hb.parent]
  case slot =>
    intro p g c hg hc
    rcases group_place h now hg with hg | ⟨hp, rfl⟩ | ⟨-, -, rfl⟩
    · obtain ⟨o, ho, hp⟩ := hb.slot p g c hg hc
      exact ⟨o, hold c o ho, hp⟩
    · rcases BracketGroup.mem_children_slot hc with rfl | hc
      · exact ⟨_, hself, hp⟩
      · rcases groupOf_cases s p req.ocaGroup with hg' | ⟨-, hg'⟩
        · obtain ⟨o, ho, hp⟩ := hb.slot p _ c hg' hc
          exact ⟨o, hold c o ho, hp⟩
        · rw [hg'] at hc; cases hc
    · cases hc
  case distinct =>
    intro p g hg
    rcases group_place h now hg with hg | ⟨-, rfl⟩ | ⟨-, -, rfl⟩
    · exact hb.distinct p g hg
    · refine nodup_children_slot ?_ (hchild p)
      rcases groupOf_cases s p req.ocaGroup with hg' | ⟨-, hg'⟩
      · exact hb.distinct p _ hg'
      · rw [hg']; exact List.nodup_nil
    · exact List.nodup_nil
  case grouped =>
    intro p c o ho hp
    have hopen : s.brackets.get? p ≠ none ∨ req.parentId = some p →
        ∃ g, (place req now s).2.brackets.get? p = some g := by
      intro hor
      rw [brackets_place h]
      cases hreq : req.parentId with
      | some parentId =>
        dsimp only
        split
        · exact ⟨_, rfl⟩
        · rename_i hne
          rw [hreq] at hor
          rcases hor with hor | hor
          · exact Option.ne_none_iff_exists'.mp hor
          · exact absurd (Option.some.inj hor).symm hne
      | none =>
        dsimp only
        split
        · exact ⟨_, rfl⟩
        · rw [hreq] at hor
          rcases hor with hor | hor
          · exact Option.ne_none_iff_exists'.mp hor
          · cases hor
    rcases hback c o ho with ⟨rfl, rfl⟩ | ho
    · exact hopen (Or.inr hp)
    · obtain ⟨g, hg⟩ := hb.grouped p c o ho hp
      exact hopen (Or.inl (by rw [hg]; exact Option.some_ne_none g))
  case waiting =>
    intro p g c o hg hw ho hp
    rcases hback c o ho with ⟨rfl, rfl⟩ | ho
    · rw [hstatus]
      have : req.parentId = some p := hp
      simp [this, WaitingStatus]
    · rcases group_place h now hg with hg | ⟨-, rfl⟩ | ⟨-, hnone, -⟩
      · exact hb.waiting p g c o hg hw ho hp
      · rw [BracketGroup.slot_state] at hw
        obtain ⟨g', hg'⟩ := hb.grouped p c o ho hp
        rcases groupOf_cases s p req.ocaGroup with hold' | ⟨hnone, -⟩
        · exact hb.waiting p _ c o hold' hw ho hp
        · rw [hg'] at hnone; cases hnone
      · obtain ⟨g', hg'⟩ := hb.grouped p c o ho hp
        rw [hg'] at hnone; cases hnone
  case rootStatus =>
    intro k o ho hp
    rcases hback k o ho with ⟨rfl, rfl⟩ | ho
    · rw [hstatus]
      have : req.parentId = none := hp
      by_cases hk : req.kind = .limit <;> simp [this, hk, RootStatus]
    · exact hb.rootStatus k o ho hp
  case childStatus =>
    intro p k o ho hp
    rcases hback k o ho with ⟨rfl, rfl⟩ | ho
    · rw [hstatus]
      have : req.parentId = some p := hp
      simp [this, ChildStatus]
    · exact hb.childStatus p k o ho hp

/-- A call that leaves records, groups and views alone keeps the books. -/
theorem Books.of_same {s s' : Sim} (hb : Books s)
    (hparent : s'.bracketChildToParent = s.bracketChildToParent)
    (hseen : s'.seenOrderIds = s.seenOrderIds) (hgroups : s'.brackets = s.brackets)
    (horders : s'.orders = s.orders)
    (hfresh : ∀ k, s.orders.get? k = none → s'.view k = s.view k) : Books s' :=
  hb.of_moves (r := fun _ o => o) (f := id) hparent hseen (by simp [hgroups]) (fun _ => rfl)
    (by simp [horders]) (fun _ o => SameOrder.refl o) (fun _ _ _ => StatusMoves.refl _)
    (fun _ _ _ _ _ hw _ _ => ⟨hw, id⟩) hfresh

theorem books_cancel {s : Sim} (hb : Books s) (orderId : OrderId) :
    Books (cancel orderId s).2 := by
  have hgroups := sameGroups_cancel orderId s
  refine hb.of_moves (r := fun k o => if orderId = k then o.transition .cancelled else o) (f := id)
    hgroups.bracketChildToParent hgroups.seenOrderIds (by simp [hgroups.brackets]) (fun _ => rfl)
    ?_ ?_ ?_ ?_ ?_
  · intro k
    refine (congrArg View.record (view_cancel orderId k s)).trans ?_
    by_cases hk : orderId = k
    · simp [hk, View.record_cancel, Sim.view]
    · simp [hk, Sim.view]
  · intro k o
    split
    · exact sameOrder_transition o _
    · exact SameOrder.refl o
  · intro k o _
    split
    · rw [OrderRecord.transition_status]
      exact statusMoves_statusAfter _ _ _ (by simp)
    · exact StatusMoves.refl _
  · intro p g k o _ hw _ _
    refine ⟨hw, fun h => ?_⟩
    split
    · rw [OrderRecord.transition_status, waitingStatus_cancelled h]
      exact Or.inr rfl
    · exact h
  · intro k hk
    rw [view_cancel]
    simp [View.cancel, Sim.view, hk]

/-- What every look keeps, a snapshot keeps. -/
theorem inv_onMarketSnapshot {I : Sim → Prop} {snap : MarketSnapshot}
    (h : ∀ j s, I s → I (look rng baseSeed snap j s).2) {s : Sim} (hs : I s) :
    I (onMarketSnapshot rng baseSeed snap s).2 := by
  rw [onMarketSnapshot, emitAll_snd]
  induction candidateIds snap s generalizing s with
  | nil => exact hs
  | cons j l ih => exact ih (h j s hs)

theorem books_exec {s : Sim} (hb : Books s) (op : Op) : Books (exec rng baseSeed op s).2 := by
  cases op with
  | place req now =>
    cases h : refusal req s with
    | none => exact books_place hb h now
    | some r =>
      show Books (place req now s).2
      rw [place_of_refusal h]
      exact hb.of_same rfl rfl rfl rfl fun k _ => by rw [view_emit]; simp
  | cancel orderId => exact books_cancel hb orderId
  | snapshot snap => exact inv_onMarketSnapshot (I := Books) (fun j s hs => books_look hs snap j) hb
  | drainDue now => exact hb.of_same rfl rfl rfl rfl fun _ _ => rfl
  | openOrders =>
    refine hb.of_same rfl rfl rfl rfl fun k hk => ?_
    show (openOrdersSnapshot s).2.view k = s.view k
    rw [view_openOrders]
    simp [View.restate, Sim.view, hk]
  | setCommissionDelay orderId delay => exact hb.of_same rfl rfl rfl rfl fun _ _ => rfl
  | armDuplicateOrderStatus => exact hb.of_same rfl rfl rfl rfl fun _ _ => rfl
  | installOutOfOrderSchedule orderId perm => exact hb.of_same rfl rfl rfl rfl fun _ _ => rfl
  | setSlippage slippage => exact hb.of_same rfl rfl rfl rfl fun _ _ => rfl
  | setPartialThreshold t => exact hb.of_same rfl rfl rfl rfl fun _ _ => rfl

theorem books_step {done : Emits} (hb : Books done.2) (op : Op) :
    Books (step rng baseSeed done op).2 :=
  books_exec hb op

/-- The books are in order after every run. -/
theorem books_runFrom (ops : List Op) : Books (runFrom rng baseSeed ops).2 :=
  inv_run (step rng baseSeed) (I := fun done => Books done.2) (fun _ op h => books_step h op)
    books_new ops

end Midas.IbSim
