import HandOfMidas.Lib.KeyFold
import HandOfMidas.IbSim.Simulator

/-! What the simulator does to one order. The view of an order is its record, the statuses and
    executions generated about it, and what it booked on the account. Each stage of a fill changes
    the view of the filled order, of the children it activates and of the sibling it cancels, by a
    function on views; every other view stays. Of the other calls, placing opens one view, cancelling changes one,
    a walk over the open orders repeats the status of each, and none touches any other. -/

namespace Midas.IbSim

/-- Is this a status or an execution of order `k`? -/
def Concerns (k : OrderId) : OrderEmission → Bool
  | .orderStatus m => m.orderId = k
  | .execution x => x.orderId = k
  | _ => false

structure View where
  record : Option OrderRecord
  history : List OrderEmission
  bookings : List Booking

def Sim.view (s : Sim) (k : OrderId) : View where
  record := s.orders.get? k
  history := s.log.filter (Concerns k)
  bookings := s.ledger.filter fun b => b.orderId = k

@[simp] theorem concerns_emitOrderStatus (k : OrderId) (o : OrderRecord) (status : OrderStatusCode) :
    Concerns k (emitOrderStatus o status) = decide (o.orderId = k) := rfl

@[simp] theorem concerns_emitOpenOrder (k : OrderId) (o : OrderRecord) (status : OrderStatusCode) :
    Concerns k (emitOpenOrder o status) = false := rfl

@[simp] theorem concerns_execution (k : OrderId) (o : OrderRecord) (fill : Fill) (counter : ℕ)
    (shares : ℚ) :
    Concerns k (.execution (executionOf o fill counter shares)) = decide (o.orderId = k) := rfl

@[simp] theorem concerns_commission (k : OrderId) (c : CommissionReport) :
    Concerns k (.commission c) = false := rfl

namespace OrderRecord

variable (o : OrderRecord) (shares price : ℚ)

@[simp] theorem book_orderId : (o.book shares price).orderId = o.orderId := rfl
@[simp] theorem book_kind : (o.book shares price).kind = o.kind := rfl
@[simp] theorem book_status : (o.book shares price).status = o.status := rfl
@[simp] theorem book_totalQty : (o.book shares price).totalQty = o.totalQty := rfl
@[simp] theorem book_parentId : (o.book shares price).parentId = o.parentId := rfl
@[simp] theorem book_filledQty : (o.book shares price).filledQty = o.filledQty + shares := rfl
@[simp] theorem book_remainingQty :
    (o.book shares price).remainingQty = max (o.totalQty - (o.filledQty + shares)) 0 := rfl

@[simp] theorem finish_orderId : o.finish.orderId = o.orderId := o.transition_orderId _
@[simp] theorem finish_kind : o.finish.kind = o.kind := o.transition_kind _
@[simp] theorem finish_totalQty : o.finish.totalQty = o.totalQty := o.transition_totalQty _
@[simp] theorem finish_filledQty : o.finish.filledQty = o.filledQty := o.transition_filledQty _
@[simp] theorem finish_parentId : o.finish.parentId = o.parentId := o.transition_parentId _
@[simp] theorem finish_remainingQty : o.finish.remainingQty = 0 := rfl
@[simp] theorem finish_status : o.finish.status = statusAfter o.kind o.status .filled :=
  o.transition_status _

end OrderRecord

/-! ### The pattern -/

section Play

variable (o : OrderRecord) (fill : Fill) (counter : ℕ) (chunks : List ℚ)

/-- What a pattern makes of a record, and the statuses and executions it generates on the way. -/
def PatternKind.play : PatternKind → OrderRecord × List OrderEmission
  | .a =>
    let reported := o.finish
    let booked := reported.book (chunks.getD 0 0) fill.price
    (booked,
      [emitOrderStatus reported .filled,
       .execution (executionOf booked fill (counter + 1) (chunks.getD 0 0))])
  | .b =>
    let booked := o.book (chunks.getD 0 0) fill.price
    let reported := booked.finish
    (reported,
      [.execution (executionOf booked fill (counter + 1) (chunks.getD 0 0)),
       emitOrderStatus reported .filled])
  | .c =>
    let booked := o.book (chunks.getD 0 0) fill.price
    let reported := booked.transition .partiallyFilled
    let booked' := reported.book (chunks.getD 1 0) fill.price
    let reported' := booked'.finish
    (reported',
      [.execution (executionOf booked fill (counter + 1) (chunks.getD 0 0)),
       emitOrderStatus reported .filled,
       .execution (executionOf booked' fill (counter + 2) (chunks.getD 1 0)),
       emitOrderStatus reported' .filled])

variable (rng : Rng) (baseSeed : UInt64) (s : Sim)

theorem fillLoop_working :
    (fillLoop rng baseSeed o fill chunks s).working =
      ((patternOf rng baseSeed o s).play o fill s.execCounter chunks).1 := by
  unfold fillLoop
  cases patternOf rng baseSeed o s <;> cases s.commissionDelay o.orderId <;>
    simp [stepsFor, List.zipIdx, fillStep, FillLoop.push, PatternKind.play]

theorem fillLoop_history (k : OrderId) :
    ((fillLoop rng baseSeed o fill chunks s).messages.map FillMessage.emission).filter (Concerns k) =
      if o.orderId = k then ((patternOf rng baseSeed o s).play o fill s.execCounter chunks).2
      else [] := by
  unfold fillLoop
  by_cases hk : o.orderId = k <;> cases patternOf rng baseSeed o s <;>
    cases s.commissionDelay o.orderId <;>
      simp [stepsFor, List.zipIdx, fillStep, FillLoop.push, PatternKind.play, hk]

@[simp] theorem play_orderId (p : PatternKind) :
    (p.play o fill counter chunks).1.orderId = o.orderId := by
  cases p <;> simp [PatternKind.play]

@[simp] theorem play_kind (p : PatternKind) : (p.play o fill counter chunks).1.kind = o.kind := by
  cases p <;> simp [PatternKind.play]

@[simp] theorem play_totalQty (p : PatternKind) :
    (p.play o fill counter chunks).1.totalQty = o.totalQty := by
  cases p <;> simp [PatternKind.play]

@[simp] theorem play_parentId (p : PatternKind) :
    (p.play o fill counter chunks).1.parentId = o.parentId := by
  cases p <;> simp [PatternKind.play]

/-- Whatever the pattern, a fill leaves the order filled if it may be, and its status alone if not. -/
theorem play_status (p : PatternKind) :
    (p.play o fill counter chunks).1.status = statusAfter o.kind o.status .filled := by
  cases p with
  | a => simp [PatternKind.play]
  | b => simp [PatternKind.play]
  | c => simpa [PatternKind.play] using statusAfter_partiallyFilled_filled o.kind o.status

end Play

/-! ### Stages of a fill, on views -/

/-- The view when messages `out` and ledger entries `booked` come on top. -/
def View.extend (v : View) (out : List OrderEmission) (booked : List Booking) : View :=
  { v with history := v.history ++ out, bookings := v.bookings ++ booked }

/-- The view when the record becomes `o` and messages `out` come on top. -/
def View.become (v : View) (o : OrderRecord) (out : List OrderEmission) : View :=
  { v with record := some o, history := v.history ++ out }

/-- What booking the chunks writes into the ledger, from a position of `before` shares. -/
def bookingsOf (o : OrderRecord) : ℚ → List ℚ → List Booking
  | _, [] => []
  | before, shares :: chunks =>
    ⟨o.orderId, symbolKeyFor o.contract, before, before + o.side.signed shares⟩ ::
      bookingsOf o (before + o.side.signed shares) chunks

/-- The next state knows the same ids and parents, and has the same settings. -/
structure SameSettings (s s' : Sim) : Prop where
  bracketChildToParent : s'.bracketChildToParent = s.bracketChildToParent
  seenOrderIds : s'.seenOrderIds = s.seenOrderIds
  slippage : s'.slippage = s.slippage
  partialThreshold : s'.partialThreshold = s.partialThreshold

theorem SameSettings.refl (s : Sim) : SameSettings s s := ⟨rfl, rfl, rfl, rfl⟩

theorem SameSettings.trans {s s' s'' : Sim} (h : SameSettings s s') (h' : SameSettings s' s'') :
    SameSettings s s'' :=
  ⟨h'.bracketChildToParent.trans h.bracketChildToParent, h'.seenOrderIds.trans h.seenOrderIds,
   h'.slippage.trans h.slippage, h'.partialThreshold.trans h.partialThreshold⟩

/-- The next state has the same groups, too. -/
structure SameGroups (s s' : Sim) : Prop extends SameSettings s s' where
  brackets : s'.brackets = s.brackets

theorem SameGroups.refl (s : Sim) : SameGroups s s := ⟨SameSettings.refl s, rfl⟩

theorem SameGroups.trans {s s' s'' : Sim} (h : SameGroups s s') (h' : SameGroups s' s'') :
    SameGroups s s'' :=
  ⟨h.toSameSettings.trans h'.toSameSettings, h'.brackets.trans h.brackets⟩

section BookChunks

variable (o : OrderRecord) (price : ℚ)

theorem ledger_bookChunk (shares : ℚ) (s : Sim) :
    (bookChunk o price shares s).2.ledger = s.ledger ++
      bookingsOf o (s.account.position (symbolKeyFor o.contract)).shares [shares] := by
  simp only [bookChunk, Sim.emit, bookingsOf]
  rw [AccountState.shares_applyFill]

theorem view_bookChunk (shares : ℚ) (s : Sim) (k : OrderId) :
    (bookChunk o price shares s).2.view k = (s.view k).extend []
      (if o.orderId = k then bookingsOf o (s.account.position (symbolKeyFor o.contract)).shares [shares]
        else []) := by
  have hlog : (bookChunk o price shares s).2.log.filter (Concerns k) = s.log.filter (Concerns k) := by
    simp [bookChunk, Concerns]
  simp only [Sim.view, hlog, ledger_bookChunk, View.extend, List.append_nil]
  split
  · rename_i hk; subst hk; simp [bookChunk, bookingsOf]
  · rename_i hk; simp [bookChunk, bookingsOf, hk]

theorem sameGroups_bookChunks (chunks : List ℚ) (s : Sim) :
    SameGroups s (bookChunks o price chunks s).2 := by
  rw [bookChunks, emitAll_snd]
  induction chunks generalizing s with
  | nil => exact SameGroups.refl s
  | cons shares chunks ih =>
    exact (show SameGroups s (bookChunk o price shares s).2 from ⟨⟨rfl, rfl, rfl, rfl⟩, rfl⟩).trans
      (ih _)

theorem position_bookChunk (shares : ℚ) (s : Sim) :
    ((bookChunk o price shares s).2.account.position (symbolKeyFor o.contract)).shares =
      (s.account.position (symbolKeyFor o.contract)).shares + o.side.signed shares :=
  AccountState.shares_applyFill _ _ _ _ _ _

/-- Booking the chunks of a fill shows in the ledger of its order only. -/
theorem view_bookChunks (chunks : List ℚ) (s : Sim) (k : OrderId) :
    (bookChunks o price chunks s).2.view k = (s.view k).extend []
      (if o.orderId = k then bookingsOf o (s.account.position (symbolKeyFor o.contract)).shares chunks
        else []) := by
  rw [bookChunks, emitAll_snd]
  induction chunks generalizing s with
  | nil => simp [View.extend, bookingsOf]
  | cons shares chunks ih =>
    rw [List.foldl_cons, ih, view_bookChunk, position_bookChunk]
    split <;> simp [View.extend, bookingsOf]

end BookChunks

section Report

variable (rng : Rng) (baseSeed : UInt64) (o : OrderRecord) (fill : Fill) (chunks : List ℚ) (s : Sim)

theorem view_report (k : OrderId) :
    (report rng baseSeed o fill chunks s).2.view k =
      if o.orderId = k then
        (s.view k).become ((patternOf rng baseSeed o s).play o fill s.execCounter chunks).1
          ((patternOf rng baseSeed o s).play o fill s.execCounter chunks).2
      else s.view k := by
  have hhist := fillLoop_history o fill chunks rng baseSeed s k
  simp only [Sim.view, report, List.filter_append, hhist, Store.get?_put, fillLoop_working,
    play_orderId,
    eq_comm (a := k)]
  split <;> simp [View.become]

theorem sameGroups_report : SameGroups s (report rng baseSeed o fill chunks s).2 :=
  ⟨⟨rfl, rfl, rfl, rfl⟩, rfl⟩

end Report

section Activate

variable (rng : Rng) (baseSeed : UInt64)

/-- The view of a child that its parent's fill activates. -/
def View.activate (parentId : OrderId) (v : View) : View :=
  match v.record with
  | none => v
  | some child =>
    v.become (child.transition .submitted)
      [.orderStatus (activationOf parentId (child.transition .submitted))]

theorem view_activateChild (parentId childId : OrderId)
    (done : List (Duration × OrderEmission) × Sim) (k : OrderId) :
    (activateChild rng baseSeed parentId done childId).2.view k =
      if childId = k then (done.2.view k).activate parentId else done.2.view k := by
  unfold activateChild
  cases ho : done.2.orders.get? childId with
  | none =>
    by_cases hk : childId = k
    · subst hk; simp [View.activate, Sim.view, ho]
    · simp [hk]
  | some child =>
    have hid : child.orderId = childId := Store.key_of_get? ho
    simp only [Sim.view, Store.get?_put, OrderRecord.transition_orderId, hid, List.filter_append]
    by_cases hk : childId = k
    · subst hk
      simp [View.activate, View.become, ho, Concerns, activationOf, hid]
    · have hk' : k ≠ childId := Ne.symm hk
      simp [hk, hk', Concerns, activationOf, hid]

theorem sameGroups_activateChild (parentId childId : OrderId)
    (done : List (Duration × OrderEmission) × Sim) :
    SameGroups done.2 (activateChild rng baseSeed parentId done childId).2 := by
  unfold activateChild
  dsimp only
  split
  · exact SameGroups.refl _
  · exact ⟨⟨rfl, rfl, rfl, rfl⟩, rfl⟩

theorem sameGroups_foldl_activateChild (parentId : OrderId) : ∀ (children : List OrderId)
    (done : List (Duration × OrderEmission) × Sim),
    SameGroups done.2 (children.foldl (activateChild rng baseSeed parentId) done).2
  | [], done => SameGroups.refl done.2
  | c :: children, done =>
    (sameGroups_activateChild rng baseSeed parentId c done).trans
      (sameGroups_foldl_activateChild parentId children _)

/-- The children that a fill of `orderId` activates. -/
def Sim.activated (s : Sim) (orderId : OrderId) : List OrderId :=
  match s.brackets.get? orderId with
  | none => []
  | some group => if group.state = .parentWorking then group.children else []

/-- Activation changes the views of the children in the slots, once each. -/
theorem view_activateChildren (orderId k : OrderId) (s : Sim)
    (hnd : (s.activated orderId).Nodup) :
    (activateChildren rng baseSeed orderId s).2.view k =
      if k ∈ s.activated orderId then (s.view k).activate orderId else s.view k := by
  unfold activateChildren Sim.activated at *
  cases hg : s.brackets.get? orderId with
  | none => simp
  | some group =>
    simp only [hg] at hnd ⊢
    split
    · rename_i hw
      simp only [hw, if_true] at hnd
      show (group.children.foldl (activateChild rng baseSeed orderId) ([], s)).2.view k = _
      have hself := fun (d : List (Duration × OrderEmission) × Sim) i (_ : True) =>
        (view_activateChild rng baseSeed orderId i d i).trans (if_pos rfl)
      have hne := fun (d : List (Duration × OrderEmission) × Sim) i k' (_ : True) (h : k' ≠ i) =>
        (view_activateChild rng baseSeed orderId i d k').trans (if_neg (Ne.symm h))
      split
      · rename_i hk
        exact foldl_own_of_mem (fun d => Sim.view d.2) id (fun _ _ => True) hself hne
          group.children ([], s) (by simpa using hnd) (fun _ _ => trivial) hk
      · rename_i hk
        exact foldl_own_of_not_mem (fun d => Sim.view d.2) id (fun _ _ => True) hne
          group.children ([], s) (by simpa using hnd) (fun _ _ => trivial) (by simpa using hk)
    · simp

/-- A group when a fill of `orderId` has activated the children in its slots. -/
def BracketGroup.activate (orderId : OrderId) (g : BracketGroup) : BracketGroup :=
  if g.parentId = orderId ∧ g.state = .parentWorking then { g with state := .parentFilled } else g

theorem brackets_activateChildren (orderId p : OrderId) (s : Sim) :
    (activateChildren rng baseSeed orderId s).2.brackets.get? p =
      (s.brackets.get? p).map (BracketGroup.activate orderId) := by
  have hkey : ∀ {k g}, s.brackets.get? k = some g → g.parentId = k := Store.key_of_get?
  -- a group that is not the working group of `orderId` stays as it is
  have hother : (∀ g, s.brackets.get? orderId = some g → g.state ≠ .parentWorking) →
      s.brackets.get? p = (s.brackets.get? p).map (BracketGroup.activate orderId) := by
    intro hw
    cases hp : s.brackets.get? p with
    | none => rfl
    | some g =>
      have hnot : ¬ (g.parentId = orderId ∧ g.state = .parentWorking) := by
        rintro ⟨h, hgw⟩
        refine hw g ?_ hgw
        rw [← h, hkey hp, hp]
      simp [BracketGroup.activate, hnot]
  unfold activateChildren
  cases hg : s.brackets.get? orderId with
  | none => exact hother (by simp [hg])
  | some group =>
    by_cases hw : group.state = .parentWorking
    · have hgroup : group.parentId = orderId := hkey hg
      subst hgroup
      have hput := Store.get?_put_map (a := { group with state := .parentFilled }) hg p
      simp only [hw, if_true, (sameGroups_foldl_activateChild rng baseSeed _ group.children
        ([], s)).brackets, hput]
      refine Option.map_congr fun g hp => ?_
      rw [BracketGroup.activate]
      by_cases h : g.parentId = group.parentId
      · rw [← h, hkey hp, hp] at hg
        cases hg
        simp [hw]
      · simp [h]
    · simp only [hw, if_false]
      refine hother ?_
      rintro g hg'
      rw [hg] at hg'
      cases hg'
      exact hw

theorem sameSettings_activateChildren (orderId : OrderId) (s : Sim) :
    SameSettings s (activateChildren rng baseSeed orderId s).2 := by
  unfold activateChildren
  split
  · exact SameSettings.refl s
  · rename_i group _
    split
    · have h := sameGroups_foldl_activateChild rng baseSeed orderId group.children ([], s)
      exact ⟨h.bracketChildToParent, h.seenOrderIds, h.slippage, h.partialThreshold⟩
    · exact SameSettings.refl s

end Activate

section Cancel

/-- The view of a child that its sibling's fill cancels. -/
def View.ocaCancel (parentId : OrderId) (v : View) : View :=
  match v.record with
  | none => v
  | some sib =>
    if transitionAllowed sib.kind sib.status .cancelled then
      v.become (sib.transition .cancelled)
        [.orderStatus (ocaCancelOf parentId (sib.transition .cancelled))]
    else v

/-- The sibling that a fill of `orderId` cancels. -/
def Sim.siblingOf (s : Sim) (orderId : OrderId) : Option OrderId :=
  (s.parentGroup orderId).bind (·.sibling orderId)

/-- A group when a fill of `orderId` has cancelled the child in the other slot. -/
def BracketGroup.cancel (s : Sim) (orderId : OrderId) (g : BracketGroup) : BracketGroup :=
  if s.bracketChildToParent orderId = some g.parentId ∧ (g.sibling orderId).isSome then
    { g with state := .oneChildFilled }
  else g

/-- The group that a fill of `orderId` looks for a sibling in. -/
theorem parentGroup_eq_some {s : Sim} {orderId : OrderId} {g : BracketGroup}
    (h : s.parentGroup orderId = some g) : s.bracketChildToParent orderId = some g.parentId ∧
      s.brackets.get? g.parentId = some g := by
  obtain ⟨p, hp, hg⟩ := Option.bind_eq_some_iff.mp h
  obtain rfl : g.parentId = p := Store.key_of_get? hg
  exact ⟨hp, hg⟩

theorem view_cancelChild (parentId childId k : OrderId) (s : Sim) :
    (cancelChild parentId childId s).2.view k =
      if childId = k then (s.view k).ocaCancel parentId else s.view k := by
  unfold cancelChild
  cases ho : s.orders.get? childId with
  | none =>
    by_cases hk : childId = k
    · subst hk; simp [View.ocaCancel, Sim.view, ho]
    · simp [hk]
  | some sib =>
    have hid : sib.orderId = childId := Store.key_of_get? ho
    cases hall : transitionAllowed sib.kind sib.status .cancelled with
    | false =>
      by_cases hk : childId = k
      · subst hk; simp [View.ocaCancel, Sim.view, ho, hall]
      · simp [hk, hall]
    | true =>
      by_cases hk : childId = k
      · subst hk
        simp [View.ocaCancel, View.become, Sim.view, Store.get?_put, Concerns, ocaCancelOf, ho,
          hall, hid]
      · have hk' : k ≠ childId := Ne.symm hk
        simp [Sim.view, Store.get?_put, Concerns, ocaCancelOf, hall, hid, hk, hk']

theorem sameGroups_cancelChild (parentId childId : OrderId) (s : Sim) :
    SameGroups s (cancelChild parentId childId s).2 := by
  unfold cancelChild
  split
  · exact SameGroups.refl s
  · split
    · exact ⟨⟨rfl, rfl, rfl, rfl⟩, rfl⟩
    · exact SameGroups.refl s

theorem cancelSibling_of_none {orderId : OrderId} {s : Sim} (h : s.siblingOf orderId = none) :
    cancelSibling orderId s = ([], s) := by
  unfold cancelSibling
  cases hg : s.parentGroup orderId with
  | none => rfl
  | some g =>
    have hsib : g.sibling orderId = none := by simpa [Sim.siblingOf, hg] using h
    simp only [hsib]

theorem cancelSibling_of_some {orderId sid : OrderId} {s : Sim} {g : BracketGroup}
    (hg : s.parentGroup orderId = some g) (hsib : g.sibling orderId = some sid) :
    (cancelSibling orderId s).2 =
      { (cancelChild g.parentId sid s).2 with
        brackets := s.brackets.put { g with state := .oneChildFilled } } := by
  simp only [cancelSibling, hg, hsib, (sameGroups_cancelChild g.parentId sid s).brackets]

/-- The fill of a child changes the view of the child in the other slot. -/
theorem view_cancelSibling (orderId k : OrderId) (s : Sim) :
    (cancelSibling orderId s).2.view k =
      if s.siblingOf orderId = some k then
        (s.view k).ocaCancel ((s.bracketChildToParent orderId).getD 0)
      else s.view k := by
  cases hsid : s.siblingOf orderId with
  | none => simp [cancelSibling_of_none hsid]
  | some sid =>
    obtain ⟨g, hg, hsib⟩ := Option.bind_eq_some_iff.mp hsid
    rw [cancelSibling_of_some hg hsib, (parentGroup_eq_some hg).1]
    simp only [Option.some.injEq, Option.getD_some]
    exact view_cancelChild g.parentId sid k s

theorem brackets_cancelSibling (orderId p : OrderId) (s : Sim) :
    (cancelSibling orderId s).2.brackets.get? p =
      (s.brackets.get? p).map (BracketGroup.cancel s orderId) := by
  have hkey : ∀ {k g}, s.brackets.get? k = some g → g.parentId = k := Store.key_of_get?
  cases hsid : s.siblingOf orderId with
  | none =>
    rw [cancelSibling_of_none hsid]
    cases hp : s.brackets.get? p with
    | none => rfl
    | some g =>
      have hnot : ¬ (s.bracketChildToParent orderId = some g.parentId ∧
          (g.sibling orderId).isSome) := by
        rintro ⟨hparent, hsib⟩
        simp only [Sim.siblingOf, Sim.parentGroup, hparent, Option.bind_some, hkey hp, hp] at hsid
        simp [hsid] at hsib
      simp [BracketGroup.cancel, hnot]
  | some sid =>
    obtain ⟨g, hg, hsib⟩ := Option.bind_eq_some_iff.mp hsid
    obtain ⟨hparent, hput⟩ := parentGroup_eq_some hg
    rw [cancelSibling_of_some hg hsib]
    refine (Store.get?_put_map (a := { g with state := .oneChildFilled }) hput p).trans ?_
    refine Option.map_congr fun g' hp => ?_
    by_cases h : g'.parentId = g.parentId
    · rw [← h, hkey hp, hp] at hput
      cases hput
      simp [BracketGroup.cancel, hparent, hsib]
    · simp [BracketGroup.cancel, hparent, h, Ne.symm h]

theorem sameSettings_cancelSibling (orderId : OrderId) (s : Sim) :
    SameSettings s (cancelSibling orderId s).2 := by
  cases hsid : s.siblingOf orderId with
  | none => rw [cancelSibling_of_none hsid]; exact SameSettings.refl s
  | some sid =>
    obtain ⟨g, hg, hsib⟩ := Option.bind_eq_some_iff.mp hsid
    have h := (sameGroups_cancelChild g.parentId sid s).toSameSettings
    rw [cancelSibling_of_some hg hsib]
    exact ⟨h.bracketChildToParent, h.seenOrderIds, h.slippage, h.partialThreshold⟩

end Cancel

/-! ### One look at the market -/

section Look

variable (rng : Rng) (baseSeed : UInt64) (snap : MarketSnapshot)

/-- The record of `o` after the look. -/
def OrderRecord.seen (snap : MarketSnapshot) (slippage : SlippageKind) (o : OrderRecord) :
    OrderRecord :=
  (maybeFill o snap.mid snap.bid snap.ask snap.ts slippage).2

/-- The fill that the look finds for `o`, if any. -/
def OrderRecord.fillIn (snap : MarketSnapshot) (slippage : SlippageKind) (o : OrderRecord) :
    Option Fill :=
  (maybeFill o snap.mid snap.bid snap.ask snap.ts slippage).1

/-- The fill that a look at order `k` finds. -/
def Sim.fillIn (s : Sim) (snap : MarketSnapshot) (k : OrderId) : Option Fill :=
  (s.orders.get? k).bind (·.fillIn snap s.slippage)

/-- The record of an order that the look fills, and the messages about it. -/
def OrderRecord.played (rng : Rng) (baseSeed : UInt64) (snap : MarketSnapshot) (s : Sim)
    (fill : Fill) (o : OrderRecord) : OrderRecord × List OrderEmission :=
  let o := o.seen snap s.slippage
  (patternOf rng baseSeed o s).play o fill s.execCounter (chunksOf rng baseSeed o s)

/-- The view of an order that the look fills. -/
def View.fill (rng : Rng) (baseSeed : UInt64) (snap : MarketSnapshot) (s : Sim) (fill : Fill)
    (v : View) : View :=
  match v.record with
  | none => v
  | some o =>
    let played := o.played rng baseSeed snap s fill
    let o := o.seen snap s.slippage
    (v.become played.1 played.2).extend []
      (bookingsOf o (s.account.position (symbolKeyFor o.contract)).shares (chunksOf rng baseSeed o s))

theorem seen_eq (o : OrderRecord) (slippage : SlippageKind) :
    o.seen snap slippage = { o with stopTriggered := (o.seen snap slippage).stopTriggered } :=
  maybeFill_record o snap.mid snap.bid snap.ask snap.ts slippage

@[simp] theorem seen_orderId (o : OrderRecord) (slippage : SlippageKind) :
    (o.seen snap slippage).orderId = o.orderId := by rw [seen_eq]

@[simp] theorem seen_contract (o : OrderRecord) (slippage : SlippageKind) :
    (o.seen snap slippage).contract = o.contract := by rw [seen_eq]

@[simp] theorem seen_side (o : OrderRecord) (slippage : SlippageKind) :
    (o.seen snap slippage).side = o.side := by rw [seen_eq]

@[simp] theorem seen_kind (o : OrderRecord) (slippage : SlippageKind) :
    (o.seen snap slippage).kind = o.kind := by rw [seen_eq]

@[simp] theorem seen_totalQty (o : OrderRecord) (slippage : SlippageKind) :
    (o.seen snap slippage).totalQty = o.totalQty := by rw [seen_eq]

@[simp] theorem seen_filledQty (o : OrderRecord) (slippage : SlippageKind) :
    (o.seen snap slippage).filledQty = o.filledQty := by rw [seen_eq]

@[simp] theorem seen_remainingQty (o : OrderRecord) (slippage : SlippageKind) :
    (o.seen snap slippage).remainingQty = o.remainingQty := by rw [seen_eq]

@[simp] theorem seen_status (o : OrderRecord) (slippage : SlippageKind) :
    (o.seen snap slippage).status = o.status := by rw [seen_eq]

@[simp] theorem seen_parentId (o : OrderRecord) (slippage : SlippageKind) :
    (o.seen snap slippage).parentId = o.parentId := by rw [seen_eq]

/-- A look that does not fill its order may set the stop flag. -/
theorem view_look_of_none {orderId : OrderId} {s : Sim} (h : s.fillIn snap orderId = none)
    (k : OrderId) : (look rng baseSeed snap orderId s).2.view k =
      if orderId = k then { s.view k with record := (s.view k).record.map (·.seen snap s.slippage) }
      else s.view k := by
  unfold look
  cases ho : s.orders.get? orderId with
  | none =>
    by_cases hk : orderId = k
    · subst hk; simp [Sim.view, ho]
    · simp [hk]
  | some o =>
    have hid : o.orderId = orderId := Store.key_of_get? ho
    have hnone : o.fillIn snap s.slippage = none := by simpa [Sim.fillIn, ho] using h
    have hseen : (o.seen snap s.slippage).orderId = orderId := by simpa using hid
    rw [OrderRecord.fillIn] at hnone
    rw [OrderRecord.seen] at hseen
    by_cases hk : orderId = k
    · subst hk
      simp [hnone, Sim.view, Store.get?_put, hseen, ho, OrderRecord.seen]
    · have hk' : k ≠ orderId := Ne.symm hk
      simp [hnone, Sim.view, Store.get?_put, hseen, hk, hk']

theorem sameGroups_look_of_none {orderId : OrderId} {s : Sim} (h : s.fillIn snap orderId = none) :
    SameGroups s (look rng baseSeed snap orderId s).2 := by
  unfold look
  cases ho : s.orders.get? orderId with
  | none => exact SameGroups.refl s
  | some o =>
    have hnone : o.fillIn snap s.slippage = none := by simpa [Sim.fillIn, ho] using h
    rw [OrderRecord.fillIn] at hnone
    simp only [hnone]
    exact ⟨⟨rfl, rfl, rfl, rfl⟩, rfl⟩

@[simp] theorem BracketGroup.activate_parentId (orderId : OrderId) (g : BracketGroup) :
    (g.activate orderId).parentId = g.parentId := by
  unfold activate
  split <;> rfl

@[simp] theorem BracketGroup.activate_sibling (orderId k : OrderId) (g : BracketGroup) :
    (g.activate orderId).sibling k = g.sibling k := by
  unfold activate
  split <;> rfl

@[simp] theorem BracketGroup.cancel_parentId (s : Sim) (orderId : OrderId) (g : BracketGroup) :
    (g.cancel s orderId).parentId = g.parentId := by
  unfold cancel
  split <;> rfl

/-- The stages of a fill, for a look that fills its order. -/
theorem look_of_some {orderId : OrderId} {s : Sim} {fill : Fill}
    (h : s.fillIn snap orderId = some fill) : ∃ s₃ : Sim,
      (look rng baseSeed snap orderId s).2 =
        (cancelSibling orderId (activateChildren rng baseSeed orderId s₃).2).2 ∧
      SameGroups s s₃ ∧ ∀ k, s₃.view k =
        if orderId = k then (s.view k).fill rng baseSeed snap s fill else s.view k := by
  obtain ⟨o, ho, hfill⟩ := Option.bind_eq_some_iff.mp h
  have hid : o.orderId = orderId := Store.key_of_get? ho
  have hseen : (o.seen snap s.slippage).orderId = orderId := by simpa using hid
  have hshares : fill.shares = (o.seen snap s.slippage).remainingQty :=
    (shares_of_maybeFill hfill).trans (seen_remainingQty snap o s.slippage).symm
  set o' := o.seen snap s.slippage with ho'
  set s₁ : Sim := { s with orders := s.orders.put o' } with hs₁
  have hlook : look rng baseSeed snap orderId s = finalizeFill rng baseSeed orderId fill s₁ := by
    rw [OrderRecord.fillIn] at hfill
    rw [OrderRecord.seen] at ho'
    simp only [look, ho, hfill, hs₁, ho']
  have hget : s₁.orders.get? orderId = some o' := by
    rw [hs₁, ← hseen]
    exact Store.get?_put_self _ _
  have hchunks : planChunks rng baseSeed orderId fill.shares (patternOf rng baseSeed o' s₁) =
      chunksOf rng baseSeed o' s := by
    rw [chunksOf, hshares, hseen]
    rfl
  refine ⟨(bookChunks o' fill.price (chunksOf rng baseSeed o' s)
    (report rng baseSeed o' fill (chunksOf rng baseSeed o' s) s₁).2).2, ?_, ?_, ?_⟩
  · rw [hlook]
    simp only [finalizeFill, hget, andEmit_snd, hchunks]
  · exact (show SameGroups s s₁ from ⟨⟨rfl, rfl, rfl, rfl⟩, rfl⟩).trans
      ((sameGroups_report rng baseSeed o' fill _ s₁).trans (sameGroups_bookChunks o' _ _ _))
  · intro k
    rw [view_bookChunks, view_report, hseen]
    by_cases hk : orderId = k
    · subst hk
      simp only [if_true, View.fill, Sim.view, ho]
      rfl
    · have hview : s₁.view k = s.view k := by
        simp only [Sim.view, hs₁, Store.get?_put, hseen, if_neg (Ne.symm hk)]
      simp [hk, hview, View.extend]

/-- What a look that fills its order does to every view: the order fills, the children it activates
    are submitted, and the sibling it cancels is cancelled. -/
theorem view_look_of_some {orderId : OrderId} {s : Sim} {fill : Fill}
    (h : s.fillIn snap orderId = some fill) (hnd : (s.activated orderId).Nodup) (k : OrderId) :
    (look rng baseSeed snap orderId s).2.view k =
      let v := if orderId = k then (s.view k).fill rng baseSeed snap s fill else s.view k
      let v := if k ∈ s.activated orderId then v.activate orderId else v
      if s.siblingOf orderId = some k then v.ocaCancel ((s.bracketChildToParent orderId).getD 0)
      else v := by
  obtain ⟨s₃, hlook, hgroups, hview⟩ := look_of_some rng baseSeed snap h
  have hact : s₃.activated orderId = s.activated orderId := by
    rw [Sim.activated, Sim.activated, hgroups.brackets]
  have hsettings := sameSettings_activateChildren rng baseSeed orderId s₃
  have hparent : (activateChildren rng baseSeed orderId s₃).2.bracketChildToParent =
      s.bracketChildToParent := hsettings.bracketChildToParent.trans hgroups.bracketChildToParent
  have hsib : (activateChildren rng baseSeed orderId s₃).2.siblingOf orderId =
      s.siblingOf orderId := by
    simp only [Sim.siblingOf, Sim.parentGroup, hparent]
    cases s.bracketChildToParent orderId with
    | none => rfl
    | some p =>
      simp only [Option.bind_some, brackets_activateChildren, hgroups.brackets]
      cases s.brackets.get? p <;> simp
  rw [hlook, view_cancelSibling, hsib, hparent, view_activateChildren _ _ _ _ _ (hact ▸ hnd), hact,
    hview]

theorem brackets_look_of_some {orderId : OrderId} {s : Sim} {fill : Fill}
    (h : s.fillIn snap orderId = some fill) (p : OrderId) :
    (look rng baseSeed snap orderId s).2.brackets.get? p =
      (s.brackets.get? p).map fun g => (g.activate orderId).cancel s orderId := by
  obtain ⟨s₃, hlook, hgroups, -⟩ := look_of_some rng baseSeed snap h
  have hsettings := sameSettings_activateChildren rng baseSeed orderId s₃
  rw [hlook, brackets_cancelSibling, brackets_activateChildren, hgroups.brackets, Option.map_map]
  refine Option.map_congr fun g _ => ?_
  simp only [Function.comp, BracketGroup.cancel,
    hsettings.bracketChildToParent.trans hgroups.bracketChildToParent]

theorem sameSettings_look (orderId : OrderId) (s : Sim) :
    SameSettings s (look rng baseSeed snap orderId s).2 := by
  cases h : s.fillIn snap orderId with
  | none => exact (sameGroups_look_of_none rng baseSeed snap h).toSameSettings
  | some fill =>
    obtain ⟨s₃, hlook, hgroups, -⟩ := look_of_some rng baseSeed snap h
    rw [hlook]
    exact (hgroups.toSameSettings.trans (sameSettings_activateChildren rng baseSeed orderId s₃)).trans
      (sameSettings_cancelSibling orderId _)

end Look

/-! ### The other calls -/

/-- Messages that concern nobody leave every view as it is. -/
theorem view_emit (out : List OrderEmission) (s : Sim) (k : OrderId) :
    (s.emit out).2.view k = (s.view k).extend (out.filter (Concerns k)) [] := by
  simp [Sim.view, View.extend, Sim.emit]

@[simp] theorem concerns_reject (k orderId : OrderId) (code : Int32) (message : String) :
    Concerns k (.reject orderId code message) = false := rfl

@[simp] theorem extend_nil (v : View) : v.extend [] [] = v := by simp [View.extend]

namespace PlaceOrderReq

variable (req : PlaceOrderReq) (now : VirtualInstant)

/-- The record of an accepted request. -/
def record : OrderRecord :=
  { OrderRecord.fromPlaceReq req now with
    status :=
      if req.parentId.isSome then .inactive
      else if req.kind = .limit then .submitted
      else .preSubmitted }

/-- The statuses emitted when the request is accepted. -/
def statuses : List OrderStatusCode :=
  if req.parentId.isSome then [.inactive]
  else if req.kind = .limit then [.preSubmitted, .submitted]
  else [.preSubmitted]

/-- The record of an accepted order without a parent before it is submitted. -/
def waiting : OrderRecord := { OrderRecord.fromPlaceReq req now with status := .preSubmitted }

@[simp] theorem record_orderId : (req.record now).orderId = req.orderId := rfl
@[simp] theorem record_parentId : (req.record now).parentId = req.parentId := rfl
@[simp] theorem record_kind : (req.record now).kind = req.kind := rfl

end PlaceOrderReq

/-- Writing one record, with messages about it, changes one view. -/
theorem view_of_put (s s' : Sim) (o : OrderRecord) (out : List OrderEmission)
    (horders : s'.orders = s.orders.put o) (hlog : s'.log = s.log ++ out)
    (hledger : s'.ledger = s.ledger) (hout : ∀ k ≠ o.orderId, out.filter (Concerns k) = [])
    (k : OrderId) : s'.view k =
      if o.orderId = k then (s.view k).become o (out.filter (Concerns k)) else s.view k := by
  simp only [Sim.view, horders, hlog, hledger, Store.get?_put, List.filter_append]
  by_cases hk : o.orderId = k
  · subst hk; simp [View.become]
  · simp [hk, Ne.symm hk, hout k (Ne.symm hk)]

/-- An order without a parent is submitted if it is a limit order, and waits otherwise. -/
theorem placeRoot_eq {req : PlaceOrderReq} {now : VirtualInstant} {s : Sim}
    (hp : req.parentId = none) :
    (placeRoot req now s).2.orders = s.orders.put (req.record now) ∧
      (placeRoot req now s).2.log = s.log ++ emitOpenOrder (req.waiting now) .preSubmitted ::
        req.statuses.map (emitOrderStatus (req.record now)) := by
  have hwaiting : ((OrderRecord.fromPlaceReq req now).transition .pendingSubmit).transition
      .preSubmitted = req.waiting now := by
    unfold OrderRecord.transition
    cases hk : req.kind <;>
      simp [OrderRecord.fromPlaceReq, PlaceOrderReq.waiting, hk, transitionAllowed]
  have hkind : (req.waiting now).kind = req.kind := rfl
  have hstatus : ∀ status, emitOrderStatus (req.waiting now) status =
      emitOrderStatus (req.record now) status := fun _ => rfl
  unfold placeRoot
  by_cases hk : req.kind = .limit
  · have hresting : (req.waiting now).transition .submitted = req.record now := by
      unfold OrderRecord.transition
      simp [PlaceOrderReq.waiting, PlaceOrderReq.record, OrderRecord.fromPlaceReq, hk, hp,
        transitionAllowed]
    simp [hwaiting, hkind, hk, hresting, hstatus, PlaceOrderReq.statuses, hp]
  · have hrecord : req.record now = req.waiting now := by
      simp [PlaceOrderReq.record, PlaceOrderReq.waiting, hk, hp]
    simp [hwaiting, hkind, hk, hrecord, PlaceOrderReq.statuses, hp]

/-- Accepting a request opens the view of its order. -/
theorem view_place {req : PlaceOrderReq} {s : Sim} (h : refusal req s = none) (now : VirtualInstant)
    (k : OrderId) : (place req now s).2.view k =
      if req.orderId = k then
        (s.view k).become (req.record now) (req.statuses.map (emitOrderStatus (req.record now)))
      else s.view k := by
  have hstatuses : ∀ k, (req.statuses.map (emitOrderStatus (req.record now))).filter (Concerns k) =
      if req.orderId = k then req.statuses.map (emitOrderStatus (req.record now)) else [] := by
    intro k
    by_cases hk : req.orderId = k <;> simp [List.filter_map, Function.comp_def, hk]
  have hview : ∀ (s' : Sim) (e : OrderEmission), (∀ k, Concerns k e = false) →
      s'.orders = s.orders.put (req.record now) → s'.ledger = s.ledger →
      s'.log = s.log ++ e :: req.statuses.map (emitOrderStatus (req.record now)) →
        s'.view k = if req.orderId = k then
          (s.view k).become (req.record now) (req.statuses.map (emitOrderStatus (req.record now)))
        else s.view k := by
    intro s' e he horders hledger hlog
    rw [view_of_put s s' _ _ horders hlog hledger ?_ k]
    · by_cases hk : req.orderId = k <;> simp [hk, hstatuses, he]
    · intro k hk
      have hk' : req.orderId ≠ k := fun h => hk h.symm
      simp [hstatuses, hk', he]
  unfold place
  simp only [h]
  cases hp : req.parentId with
  | some p =>
    have hrecord : ({ OrderRecord.fromPlaceReq req now with status := .inactive } : OrderRecord) =
        req.record now := by
      simp [PlaceOrderReq.record, hp]
    refine hview _ (emitOpenOrder (req.record now) .inactive) (fun _ => rfl) ?_ rfl ?_
    · simp only [placeChild, Sim.emit, hrecord]
    · simp [placeChild, Sim.emit, hrecord, PlaceOrderReq.statuses, hp]
  | none =>
    exact hview _ (emitOpenOrder (req.waiting now) .preSubmitted) (fun _ => rfl)
      (placeRoot_eq hp).1 rfl (placeRoot_eq hp).2

theorem place_of_refusal {req : PlaceOrderReq} {s : Sim} {r : Int32 × String}
    (h : refusal req s = some r) (now : VirtualInstant) :
    place req now s = s.emit [.reject req.orderId r.1 r.2] := by
  simp only [place, h]

/-- The view of an order that a client cancels. -/
def View.cancel (v : View) : View :=
  match v.record with
  | none => v
  | some o =>
    if transitionAllowed o.kind o.status .cancelled then
      v.become (o.transition .cancelled) [emitOrderStatus (o.transition .cancelled) .cancelled]
    else v

theorem view_cancel (orderId k : OrderId) (s : Sim) :
    (cancel orderId s).2.view k = if orderId = k then (s.view k).cancel else s.view k := by
  have hrefused : ∀ code message, (∀ o, s.orders.get? orderId = some o →
      transitionAllowed o.kind o.status .cancelled = false) →
        (s.emit [.reject orderId code message]).2.view k =
          if orderId = k then (s.view k).cancel else s.view k := by
    intro code message hno
    rw [view_emit]
    by_cases hk : orderId = k
    · subst hk
      cases ho : s.orders.get? orderId with
      | none => simp [View.cancel, Sim.view, ho, View.extend]
      | some o => simp [View.cancel, Sim.view, ho, View.extend, hno o ho]
    · simp [hk]
  unfold cancel
  cases ho : s.orders.get? orderId with
  | none => exact hrefused _ _ (by simp [ho])
  | some o =>
    have hid : o.orderId = orderId := Store.key_of_get? ho
    by_cases hf : o.isFilled = true
    · have hstatus : o.status = .filled := by simp_all [OrderRecord.isFilled]
      simp only [hf, if_true]
      refine hrefused _ _ ?_
      rintro o' ho'
      rw [ho] at ho'; cases ho'
      rw [hstatus]; rfl
    · cases hall : transitionAllowed o.kind o.status .cancelled with
      | false =>
        simp only [hf, hall, Bool.false_eq_true, if_false]
        refine hrefused _ _ ?_
        rintro o' ho'
        rw [ho] at ho'; cases ho'
        exact hall
      | true =>
        simp only [hf, hall, Bool.false_eq_true, if_false, if_true]
        have hview : ∀ s' : Sim, s'.orders = s.orders.put (o.transition .cancelled) →
            s'.log = s.log ++ [emitOrderStatus (o.transition .cancelled) .cancelled] →
              s'.ledger = s.ledger →
                s'.view k = if orderId = k then (s.view k).cancel else s.view k := by
          intro s' horders hlog hledger
          rw [view_of_put s s' _ _ horders hlog hledger (by simp +contextual [eq_comm]) k]
          by_cases hk : orderId = k
          · subst hk; simp [View.cancel, Sim.view, ho, hall, hid]
          · simp [hk, hid]
        exact hview _ rfl rfl rfl

theorem sameGroups_cancel (orderId : OrderId) (s : Sim) : SameGroups s (cancel orderId s).2 := by
  unfold cancel
  split
  · exact ⟨⟨rfl, rfl, rfl, rfl⟩, rfl⟩
  · split
    · exact ⟨⟨rfl, rfl, rfl, rfl⟩, rfl⟩
    · split <;> exact ⟨⟨rfl, rfl, rfl, rfl⟩, rfl⟩

/-- The view of an order whose status is repeated while it is live. -/
def View.restate (v : View) : View :=
  match v.record with
  | none => v
  | some o =>
    if !o.isFilled && !o.isCancelled then v.extend [emitOrderStatus o o.status] [] else v

/-- Of messages made for a list of records, an order sees those made for its own. -/
theorem filter_flatMap_records (k : OrderId) : ∀ (l : List OrderRecord),
    (l.map (·.orderId)).Nodup →
      (l.flatMap fun o => [emitOpenOrder o o.status, emitOrderStatus o o.status]).filter (Concerns k) =
        ((l.find? fun o => decide (o.orderId = k)).map fun o => emitOrderStatus o o.status).toList
  | [], _ => rfl
  | o :: l, hnd => by
    rw [List.map_cons, List.nodup_cons] at hnd
    have hrec := filter_flatMap_records k l hnd.2
    rw [List.flatMap_cons, List.filter_append, hrec]
    by_cases hk : o.orderId = k
    · have hnone : l.find? (fun o => decide (o.orderId = k)) = none := by
        rw [List.find?_eq_none]
        intro o' ho'
        have : o'.orderId ≠ k := by
          rintro rfl
          exact hnd.1 (hk ▸ List.mem_map_of_mem ho')
        simpa using this
      rw [hnone, List.find?_cons_of_pos (by simpa using hk)]
      simp [hk]
    · rw [List.find?_cons_of_neg (by simpa using hk)]
      simp [hk]

theorem view_openOrders (k : OrderId) (s : Sim) :
    (openOrdersSnapshot s).2.view k = (s.view k).restate := by
  set live := s.orders.items.filter fun o => !o.isFilled && !o.isCancelled with hlive
  set byId := live.insertionSort fun a b => a.orderId ≤ b.orderId with hbyId
  have hperm : byId.Perm live := List.perm_insertionSort _ live
  have hnd : (byId.map (·.orderId)).Nodup :=
    ((hperm.map _).nodup_iff).mpr (s.orders.nodup.sublist (List.filter_sublist.map _))
  have hmem : ∀ o, o ∈ byId ↔ o ∈ s.orders.items ∧ (!o.isFilled && !o.isCancelled) = true :=
    fun o => hperm.mem_iff.trans List.mem_filter
  have hfind : byId.find? (fun o => decide (o.orderId = k)) =
      (s.orders.get? k).bind fun o => if !o.isFilled && !o.isCancelled then some o else none := by
    -- the walk is itself a store, with some of the records of the book
    show (⟨byId, hnd⟩ : Store OrderRecord.orderId).get? k = _
    ext o
    rw [Option.bind_eq_some_iff]
    constructor
    · intro h
      obtain rfl : o.orderId = k := Store.key_of_get? h
      obtain ⟨hitem, hlive⟩ := (hmem o).mp (Store.mem_of_get? h)
      exact ⟨o, Store.get?_of_mem hitem, by rw [hlive]; rfl⟩
    · rintro ⟨o', ho', hlive⟩
      split at hlive
      · rename_i hl
        cases hlive
        obtain rfl : o.orderId = k := Store.key_of_get? ho'
        exact Store.get?_of_mem (s := ⟨byId, hnd⟩) ((hmem o).mpr ⟨Store.mem_of_get? ho', hl⟩)
      · cases hlive
  show (s.emit _).2.view k = _
  rw [view_emit, filter_flatMap_records k byId hnd, hfind]
  cases ho : s.orders.get? k with
  | none => simp [View.restate, Sim.view, ho, View.extend]
  | some o =>
    simp only [Option.bind_some, View.restate, Sim.view, ho]
    split <;> simp [View.extend]

end Midas.IbSim
