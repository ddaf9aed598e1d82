import HandOfMidas.Broker.SimLife

/-! What each function of the simulator does to the view of each order, one equation a function. A
    price step makes two passes over the orders; each rewrites the orders it picks, under their own
    ids, and then cancels the siblings of those it filled. Both halves are instances of the fold
    lemmas of `KeyFold`, so the order in which a hash map hands the orders out never matters. -/

namespace Midas.Broker

variable (cfg : SimOrderConfig)

/-! ### Single events -/

theorem view_setOrder (s : SimState) (o : SimulatedOrder) (k : Int32) :
    (s.setOrder o).view k = if k = o.ibOrderId then ⟨some o, (s.view k).statuses⟩ else s.view k := by
  unfold SimState.view
  rw [SimState.setOrder_orders, SimState.setOrder_orderTx, Store.get?_put]
  split <;> rfl

theorem view_send_status (s : SimState) (id : Int32) (st : OrderStatus) (a b c : ℚ) (k : Int32) :
    (s.send (.statusChanged id st a b c)).view k =
      if k = id then ⟨(s.view k).record, (s.view k).statuses ++ [st]⟩ else s.view k := by
  unfold SimState.view
  rw [SimState.send_orders, SimState.send_orderTx, statusesOf_append]
  split
  · rename_i h; simp [statusesOf, h]
  · rename_i h; simp [statusesOf, Ne.symm h]

theorem view_send_submitted (s : SimState) (id k : Int32) :
    (s.send (.submitted id)).view k = s.view k := by
  simp [SimState.view, statusesOf]

theorem view_send_cancelled (s : SimState) (id k : Int32) :
    (s.send (.cancelled id)).view k = s.view k := by
  simp [SimState.view, statusesOf]

theorem view_send_rejected (s : SimState) (id : Int32) (reason : String) (k : Int32) :
    (s.send (.rejected id reason)).view k = s.view k := by
  simp [SimState.view, statusesOf]

/-- A record is put back under its own id and its status is sent. -/
theorem view_restatus (s : SimState) {id : Int32} {o : SimulatedOrder} (hid : o.ibOrderId = id)
    (st : OrderStatus) (a b c : ℚ) (k : Int32) :
    ((s.setOrder o).send (.statusChanged id st a b c)).view k =
      if k = id then ⟨some o, (s.view k).statuses ++ [st]⟩ else s.view k := by
  rw [view_send_status, view_setOrder, hid]
  split <;> rfl

/-! ### Fills -/

/-- What a complete fill does to the view of the order filled. -/
def View.fill (price : ℚ) (v : View) : View :=
  match v.record with
  | some o =>
    if 0 < o.quantity then ⟨some (o.filledAt price), v.statuses ++ fillStatuses cfg o.quantity⟩
    else v
  | none => v

/-- Filling an order that nothing has filled yet fills it whole and touches no other. -/
theorem view_executeFill {id : Int32} {s : SimState} {o : SimulatedOrder} {shares : ℚ} (price : ℚ)
    (h : s.orders.get? id = some o) (hfilled : o.filledQty = 0) (hshares : o.quantity ≤ shares)
    (k : Int32) : (executeFill cfg id shares price s).view k =
      if k = id then (s.view k).fill cfg price else s.view k := by
  by_cases hq : 0 < o.quantity
  · have hid : (o.filledAt price).ibOrderId = id := Store.key_of_get? (a := o) h
    rw [SimState.view, executeFill_orders cfg price h hfilled hq hshares, Store.get?_put, hid,
      statusesOf_executeFill cfg price h hfilled hq hshares]
    split
    · rename_i hk; subst hk; simp [View.fill, h, hq]
    · simp [SimState.view]
  · rw [executeFill_of_done cfg h (by rw [hfilled, sub_zero]; exact not_lt.mp hq)]
    split
    · rename_i hk; subst hk; simp [View.fill, h, hq]
    · rfl

theorem view_fillMarketOrder (live : Live) {id : Int32} {s : SimState} {o : SimulatedOrder}
    (h : s.orders.get? id = some o) (hfilled : o.filledQty = 0) (k : Int32) :
    (fillMarketOrder cfg live id s).view k =
      if k = id then
        (s.view k).fill cfg (marketFillPrice cfg (getMarketPrice live s o.symbol) o.action)
      else s.view k := by
  simp only [fillMarketOrder, h]
  exact view_executeFill cfg _ h hfilled le_rfl k

/-! ### Cancellation, alone and of siblings -/

def View.cancel (v : View) : View :=
  match v.record with
  | some o =>
    if o.status.isTerminal then v
    else ⟨some { o with status := .cancelled }, v.statuses ++ [.cancelled]⟩
  | none => v

theorem View.cancel_of_none {v : View} (h : v.record = none) : v.cancel = v := by
  simp [View.cancel, h]

theorem View.cancel_of_terminal {v : View} {o : SimulatedOrder} (h : v.record = some o)
    (ht : o.status.isTerminal = true) : v.cancel = v := by
  simp [View.cancel, h, ht]

theorem View.cancel_of_live {v : View} {o : SimulatedOrder} (h : v.record = some o)
    (ht : o.status.isTerminal = false) :
    v.cancel = ⟨some { o with status := .cancelled }, v.statuses ++ [.cancelled]⟩ := by
  simp [View.cancel, h, ht]

/-- Cancelling twice is cancelling once. -/
theorem View.cancel_cancel (v : View) : v.cancel.cancel = v.cancel := by
  cases h : v.record with
  | none => rw [View.cancel_of_none h, View.cancel_of_none h]
  | some o =>
    cases ht : o.status.isTerminal with
    | true => rw [View.cancel_of_terminal h ht, View.cancel_of_terminal h ht]
    | false => rw [View.cancel_of_live h ht]; exact View.cancel_of_terminal rfl rfl

/-- The streams that wait for a cancellation are no part of any view. -/
theorem view_foldl_sendCancel (e : CancelOrderEvent) (k : Int32) :
    ∀ (streams : List ℕ) (s : SimState),
      (streams.foldl (fun s tx => s.sendCancel tx e) s).view k = s.view k
  | [], _ => rfl
  | tx :: streams, s => view_foldl_sendCancel e k streams (s.sendCancel tx e)

theorem view_cancelOrderInner (id : Int32) (s : SimState) (k : Int32) :
    (cancelOrderInner id s).view k = if k = id then (s.view k).cancel else s.view k := by
  unfold cancelOrderInner
  cases h : s.orders.get? id with
  | none =>
    have hview : (if k = id then (s.view k).cancel else s.view k) = s.view k := by
      split
      · rename_i hk; exact View.cancel_of_none (by rw [SimState.view_record, hk, h])
      · rfl
    rw [hview]
    dsimp only
    split
    · rfl
    · rw [view_foldl_sendCancel]; rfl
  | some o =>
    have hid : o.ibOrderId = id := Store.key_of_get? h
    cases ht : o.status.isTerminal with
    | true =>
      simp only [ht, if_true]
      split
      · rename_i hk
        exact (View.cancel_of_terminal (by rw [SimState.view_record, hk, h]) ht).symm
      · rfl
    | false =>
      simp only [ht, Bool.false_eq_true, if_false]
      have hview : (((s.setOrder { o with status := .cancelled }).send
          (.statusChanged id .cancelled o.filledQty (o.quantity - o.filledQty) o.avgFillPrice)).send
            (.cancelled id)).view k = if k = id then (s.view k).cancel else s.view k := by
        rw [view_send_cancelled,
          view_restatus (o := { o with status := .cancelled }) s hid .cancelled]
        split
        · rename_i hk
          rw [View.cancel_of_live (by rw [SimState.view_record, hk, h]) ht]
        · rfl
      rw [← hview]
      split
      · rfl
      · rw [view_foldl_sendCancel]; rfl

/-- The orders linked under the same parent as `id`, without `id` itself. -/
def siblingsOf (s : SimState) (id : Int32) : List Int32 :=
  ((((s.orders.get? id).bind (·.parentId)).bind s.bracketLinks).getD []).filter (· ≠ id)

theorem checkOcaInner_eq (id : Int32) (s : SimState) :
    checkOcaInner id s = (siblingsOf s id).foldl (fun s k => cancelOrderInner k s) s := by
  unfold checkOcaInner siblingsOf
  cases s.orders.get? id with
  | none => rfl
  | some o =>
    cases hp : o.parentId with
    | none => simp [hp]
    | some p =>
      cases hl : s.bracketLinks p with
      | none => simp [hp, hl]
      | some links => simp [hp, hl, List.foldl_filter]

/-- Two states with the same parents and the same brackets have the same siblings. -/
structure SameFamily (s s' : SimState) : Prop where
  parents : ∀ k, (s'.orders.get? k).bind (·.parentId) = (s.orders.get? k).bind (·.parentId)
  bracketLinks : s'.bracketLinks = s.bracketLinks

theorem SameFamily.refl (s : SimState) : SameFamily s s := ⟨fun _ => rfl, rfl⟩

theorem SameFamily.trans {s s' s'' : SimState} (h : SameFamily s s') (h' : SameFamily s' s'') :
    SameFamily s s'' :=
  ⟨fun k => (h'.parents k).trans (h.parents k), h'.bracketLinks.trans h.bracketLinks⟩

theorem SameFamily.siblingsOf {s s' : SimState} (h : SameFamily s s') (id : Int32) :
    siblingsOf s' id = siblingsOf s id := by
  unfold Broker.siblingsOf; rw [h.parents, h.bracketLinks]

theorem View.cancel_parent (v : View) :
    v.cancel.record.bind (·.parentId) = v.record.bind (·.parentId) := by
  cases h : v.record with
  | none => rw [View.cancel_of_none h, h]
  | some o =>
    cases ht : o.status.isTerminal with
    | true => rw [View.cancel_of_terminal h ht, h]
    | false => rw [View.cancel_of_live h ht]; rfl

theorem bracketLinks_foldl_sendCancel (e : CancelOrderEvent) :
    ∀ (streams : List ℕ) (s : SimState),
      (streams.foldl (fun s tx => s.sendCancel tx e) s).bracketLinks = s.bracketLinks
  | [], _ => rfl
  | tx :: streams, s => bracketLinks_foldl_sendCancel e streams (s.sendCancel tx e)

theorem cancelOrderInner_bracketLinks (id : Int32) (s : SimState) :
    (cancelOrderInner id s).bracketLinks = s.bracketLinks := by
  unfold cancelOrderInner
  dsimp only
  repeat' split
  all_goals first | rfl | exact bracketLinks_foldl_sendCancel _ _ _

theorem sameFamily_cancelOrderInner (id : Int32) (s : SimState) :
    SameFamily s (cancelOrderInner id s) := by
  refine ⟨fun k => ?_, cancelOrderInner_bracketLinks id s⟩
  have hv := view_cancelOrderInner id s k
  rw [← SimState.view_record, ← SimState.view_record, hv]
  split
  · exact View.cancel_parent _
  · rfl

theorem view_foldl_cancel (ids : List Int32) (s : SimState) (k : Int32) :
    (ids.foldl (fun s k => cancelOrderInner k s) s).view k =
      if k ∈ ids then (s.view k).cancel else s.view k := by
  have h := foldl_mark SimState.view (fun j k => k = j) (fun _ => True) (fun _ _ _ => trivial)
    View.cancel_cancel (fun s j k _ => view_cancelOrderInner j s k) (k := k) ids s trivial
  rw [h]
  simp

theorem sameFamily_foldl_cancel : ∀ (ids : List Int32) (s : SimState),
    SameFamily s (ids.foldl (fun s k => cancelOrderInner k s) s)
  | [], s => SameFamily.refl s
  | id :: ids, s =>
    (sameFamily_cancelOrderInner id s).trans (sameFamily_foldl_cancel ids (cancelOrderInner id s))

theorem view_checkOcaInner (id : Int32) (s : SimState) (k : Int32) :
    (checkOcaInner id s).view k =
      if k ∈ siblingsOf s id then (s.view k).cancel else s.view k := by
  rw [checkOcaInner_eq, view_foldl_cancel]

theorem sameFamily_checkOcaInner (id : Int32) (s : SimState) :
    SameFamily s (checkOcaInner id s) := by
  rw [checkOcaInner_eq]; exact sameFamily_foldl_cancel _ s

/-- A pass of OCA checks cancels the live siblings of every order it is given. -/
theorem view_foldl_checkOca (ids : List Int32) (s : SimState) (k : Int32) :
    (ids.foldl (fun s id => checkOcaInner id s) s).view k =
      if ∃ j ∈ ids, k ∈ siblingsOf s j then (s.view k).cancel else s.view k := by
  exact foldl_mark SimState.view (fun j k => k ∈ siblingsOf s j) (SameFamily s)
    (fun s j h => h.trans (sameFamily_checkOcaInner j s)) View.cancel_cancel
    (fun s j k h => by rw [view_checkOcaInner, h.siblingsOf]) ids s (SameFamily.refl s)

theorem sameFamily_foldl_checkOca : ∀ (ids : List Int32) (s : SimState),
    SameFamily s (ids.foldl (fun s id => checkOcaInner id s) s)
  | [], s => SameFamily.refl s
  | id :: ids, s =>
    (sameFamily_checkOcaInner id s).trans (sameFamily_foldl_checkOca ids (checkOcaInner id s))

end Midas.Broker
