import HandOfMidas.Broker.SimOca

/-! Cancelling an entry cancels its bracket: every live order of it once, and no other order. -/

namespace Midas.Broker

/-- The order `id` itself, or a child of it. -/
def SimulatedOrder.OfBracket (id : Int32) (o : SimulatedOrder) : Prop :=
  o.ibOrderId = id ∨ o.parentId = some id

instance (id : Int32) (o : SimulatedOrder) : Decidable (o.OfBracket id) :=
  inferInstanceAs (Decidable (_ ∨ _))

/-- The record under `k`, while the order is live. -/
def SimState.live (s : SimState) (k : Int32) : Option SimulatedOrder :=
  (s.orders.get? k).filter fun o => !o.status.isTerminal

theorem SimState.live_eq_some {s : SimState} {k : Int32} {o : SimulatedOrder} :
    s.live k = some o ↔ s.orders.get? k = some o ∧ o.status.isTerminal = false := by
  simp [SimState.live, Option.filter_eq_some_iff]

/-- What is sent when a live order is cancelled. -/
def SimulatedOrder.cancelEvents (o : SimulatedOrder) : List OrderEvent :=
  [.statusChanged o.ibOrderId .cancelled o.filledQty (o.quantity - o.filledQty) o.avgFillPrice,
    .cancelled o.ibOrderId]

theorem count_cancelEvents (k : Int32) (orders : List SimulatedOrder) :
    (orders.flatMap SimulatedOrder.cancelEvents).count (.cancelled k) =
      (orders.map SimulatedOrder.ibOrderId).count k := by
  induction orders with
  | nil => rfl
  | cons o orders ih =>
    simp [SimulatedOrder.cancelEvents, List.count_cons, ih, add_comm]

/-! ### One order -/

theorem orderTx_foldl_sendCancel (e : CancelOrderEvent) (streams : List ℕ) (s : SimState) :
    (streams.foldl (fun s tx => s.sendCancel tx e) s).orderTx = s.orderTx :=
  inv_run (fun (s : SimState) tx => s.sendCancel tx e)
    (I := fun s' : SimState => s'.orderTx = s.orderTx)
    (fun _ _ h => h) rfl streams

theorem orderTx_cancelOrderInner (id : Int32) (s : SimState) :
    (cancelOrderInner id s).orderTx =
      s.orderTx ++ (s.live id).toList.flatMap SimulatedOrder.cancelEvents := by
  unfold cancelOrderInner
  cases ho : s.orders.get? id with
  | none =>
    have hlive : s.live id = none := by simp [SimState.live, ho]
    rw [hlive]
    simp only [Option.toList_none, List.flatMap_nil, List.append_nil]
    split
    · rfl
    · exact orderTx_foldl_sendCancel _ _ _
  | some o =>
    obtain rfl : o.ibOrderId = id := Store.key_of_get? ho
    cases ht : o.status.isTerminal with
    | true =>
      have hlive : s.live o.ibOrderId = none := by simp [SimState.live, ho, ht]
      simp [hlive, ht]
    | false =>
      have hlive : s.live o.ibOrderId = some o := SimState.live_eq_some.mpr ⟨ho, ht⟩
      have hsent : ((((s.setOrder { o with status := .cancelled }).send (.statusChanged o.ibOrderId
          .cancelled o.filledQty (o.quantity - o.filledQty) o.avgFillPrice)).send
            (.cancelled o.ibOrderId)).orderTx) =
          s.orderTx ++ (s.live o.ibOrderId).toList.flatMap SimulatedOrder.cancelEvents := by
        simp [hlive, SimulatedOrder.cancelEvents]
      rw [← hsent]
      simp only [ht, Bool.false_eq_true, if_false]
      split
      · rfl
      · exact orderTx_foldl_sendCancel _ _ _

theorem live_cancelOrderInner (id : Int32) (s : SimState) (k : Int32) :
    (cancelOrderInner id s).live k = if k = id then none else s.live k := by
  have hview := congrArg View.record (view_cancelOrderInner id s k)
  rw [SimState.view_record] at hview
  unfold SimState.live
  rw [hview]
  split
  · cases ho : s.orders.get? k with
    | none => rw [View.cancel_of_none ho, SimState.view_record, ho, Option.filter_none]
    | some o =>
      cases ht : o.status.isTerminal with
      | true => simp [View.cancel_of_terminal (v := s.view k) ho ht, ho, ht]
      | false => simp [View.cancel_of_live (v := s.view k) ho ht, SimOrderStatus.isTerminal]
  · rfl

/-! ### The cascade -/

/-- The orders that a cascade over `ids` cancels, each once, however often its id occurs. -/
theorem orderTx_foldl_cancel (ids : List Int32) (s : SimState) :
    ∃ orders : List SimulatedOrder, (orders.map SimulatedOrder.ibOrderId).Nodup ∧
      (∀ o, o ∈ orders ↔ o.ibOrderId ∈ ids ∧ s.live o.ibOrderId = some o) ∧
      (ids.foldl (fun s c => cancelOrderInner c s) s).orderTx =
        s.orderTx ++ orders.flatMap SimulatedOrder.cancelEvents := by
  induction ids generalizing s with
  | nil => exact ⟨[], List.nodup_nil, by simp, by simp⟩
  | cons id ids ih =>
    obtain ⟨orders, hnodup, hmem, htx⟩ := ih (cancelOrderInner id s)
    simp only [live_cancelOrderInner] at hmem
    have hid : ∀ o ∈ s.live id, o.ibOrderId = id := fun o ho =>
      Store.key_of_get? (SimState.live_eq_some.mp ho).1
    refine ⟨(s.live id).toList ++ orders, ?_, ?_, ?_⟩
    · have hnew : id ∉ orders.map SimulatedOrder.ibOrderId := by
        intro h
        obtain ⟨o, ho, rfl⟩ := List.mem_map.mp h
        simpa using ((hmem o).mp ho).2
      cases hlive : s.live id with
      | none => exact hnodup
      | some o =>
        have := hid o hlive
        simp only [Option.toList_some, List.singleton_append, List.map_cons, List.nodup_cons]
        exact ⟨this ▸ hnew, hnodup⟩
    · intro o
      rw [List.mem_append, hmem, List.mem_cons, Option.mem_toList]
      constructor
      · rintro (ho | ⟨ho, hlive⟩)
        · rw [hid o ho]
          exact ⟨.inl rfl, ho⟩
        · split at hlive
          · exact absurd hlive.symm (Option.some_ne_none o)
          · exact ⟨.inr ho, hlive⟩
      · rintro ⟨ho, hlive⟩
        by_cases heq : o.ibOrderId = id
        · exact .inl (heq ▸ hlive)
        · exact .inr ⟨ho.resolve_left heq, by rw [if_neg heq, hlive]⟩
    · rw [List.foldl_cons, htx, orderTx_cancelOrderInner, List.flatMap_append, List.append_assoc]

/-! ### The bracket -/

/-- What it means that the bracket of `id` is cancelled, once, and nothing else is. -/
structure CancelsBracket (id : Int32) (s s' : SimState) : Prop where
  ended : ∀ k o, s'.orders.get? k = some o → o.OfBracket id → o.status.isTerminal = true
  cancelled : ∀ k o, s.live k = some o → o.OfBracket id →
    s'.orders.get? k = some { o with status := .cancelled }
  untouched : ∀ k, (∀ o, s.live k = some o → ¬o.OfBracket id) → s'.orders.get? k = s.orders.get? k
  told : ∃ orders : List SimulatedOrder,
    (∀ o, o ∈ orders ↔ s.live o.ibOrderId = some o ∧ o.OfBracket id) ∧
      s'.orderTx = s.orderTx ++ orders.flatMap SimulatedOrder.cancelEvents ∧
      (∀ k o, s.live k = some o → o.OfBracket id →
        (orders.flatMap SimulatedOrder.cancelEvents).count (.cancelled k) = 1) ∧
      ∀ k, (∀ o, s.live k = some o → ¬o.OfBracket id) →
        (orders.flatMap SimulatedOrder.cancelEvents).count (.cancelled k) = 0

/-- Of a bracket, what is live is linked. -/
theorem Kept.mem_links_iff {s : SimState} (h : Kept s) {id k : Int32} {o : SimulatedOrder}
    (hlive : s.live k = some o) : k ∈ id :: (s.bracketLinks id).getD [] ↔ o.OfBracket id := by
  obtain ⟨ho, ht⟩ := SimState.live_eq_some.mp hlive
  obtain rfl : o.ibOrderId = k := Store.key_of_get? ho
  rw [List.mem_cons]
  refine or_congr_right ⟨?_, ?_⟩
  · intro hlinked
    have := h.1.children _ id hlinked
    rwa [ho] at this
  · intro hparent
    refine h.2 _ o id ho hparent ?_
    intro hrejected
    rw [hrejected] at ht
    cases ht

theorem Kept.cancelsBracket {s : SimState} (h : Kept s) {id : Int32} {p : SimulatedOrder}
    (hp : s.live id = some p) : CancelsBracket id s (cancelOrder id s).2 := by
  obtain ⟨hget, hterm⟩ := SimState.live_eq_some.mp hp
  have hview : ∀ k, (cancelOrder id s).2.orders.get? k =
      ((if k ∈ id :: (s.bracketLinks id).getD [] then (s.view k).cancel else s.view k).record) := by
    intro k
    rw [← SimState.view_record, cancelOrder_of_live hget hterm, view_foldl_cancel]
    rfl
  have hcancelled : ∀ k o, s.live k = some o → o.OfBracket id →
      (cancelOrder id s).2.orders.get? k = some { o with status := .cancelled } := by
    intro k o ho hof
    obtain ⟨hget, ht⟩ := SimState.live_eq_some.mp ho
    rw [hview, if_pos ((h.mem_links_iff ho).mpr hof), View.cancel_of_live (v := s.view k) hget ht]
  have huntouched : ∀ k, (∀ o, s.live k = some o → ¬o.OfBracket id) →
      (cancelOrder id s).2.orders.get? k = s.orders.get? k := by
    intro k hk
    rw [hview]
    split
    · rename_i hlinked
      cases hget : s.orders.get? k with
      | none => rw [View.cancel_of_none hget, SimState.view_record, hget]
      | some o =>
        cases ht : o.status.isTerminal with
        | true => rw [View.cancel_of_terminal hget ht, SimState.view_record, hget]
        | false =>
          have hlive := SimState.live_eq_some.mpr ⟨hget, ht⟩
          exact absurd ((h.mem_links_iff hlive).mp hlinked) (hk o hlive)
    · rfl
  refine ⟨?_, hcancelled, huntouched, ?_⟩
  · intro k o ho hof
    by_cases hk : ∀ o, s.live k = some o → ¬o.OfBracket id
    · rw [huntouched k hk] at ho
      by_contra hlive
      exact hk o (SimState.live_eq_some.mpr ⟨ho, Bool.eq_false_iff.mpr hlive⟩) hof
    · push Not at hk
      obtain ⟨o', ho', hof'⟩ := hk
      rw [hcancelled k o' ho' hof', Option.some.injEq] at ho
      rw [← ho]
      rfl
  · obtain ⟨orders, hnodup, hmem, htx⟩ :=
      orderTx_foldl_cancel (id :: (s.bracketLinks id).getD []) (s.awaiting id)
    have hmem' : ∀ o, o ∈ orders ↔ s.live o.ibOrderId = some o ∧ o.OfBracket id := by
      intro o
      rw [hmem, and_comm]
      exact and_congr_right fun hlive => h.mem_links_iff hlive
    refine ⟨orders, hmem', ?_, ?_, ?_⟩
    · rw [cancelOrder_of_live hget hterm, htx]
      rfl
    · intro k o ho hof
      obtain rfl : o.ibOrderId = k := Store.key_of_get? (SimState.live_eq_some.mp ho).1
      rw [count_cancelEvents]
      exact List.count_eq_one_of_mem hnodup (List.mem_map_of_mem ((hmem' o).mpr ⟨ho, hof⟩))
    · intro k hk
      rw [count_cancelEvents, List.count_eq_zero]
      intro hin
      obtain ⟨o, ho, rfl⟩ := List.mem_map.mp hin
      obtain ⟨hlive, hof⟩ := (hmem' o).mp ho
      exact hk o hlive hof

/-- In every reachable state: the cancellation of a live order cancels its live children with it, each
    once, and touches no other order. -/
theorem bracket_cancelled_once (cfg : SimOrderConfig) (ops : List Op) {id : Int32}
    {p : SimulatedOrder} (hp : (runFrom cfg ops).live id = some p) :
    CancelsBracket id (runFrom cfg ops) (step cfg (runFrom cfg ops) (.cancel id)) :=
  (kept_runFrom cfg ops).cancelsBracket hp

/-- A resting entry with a take-profit and a stop-loss. -/
def restingBracket : List Op :=
  let buy : OrderSpec := { symbol := ⟨1, "AAPL"⟩, quantity := 100, transmit := false }
  let sell : OrderSpec := { buy with action := .sell, parentId := some 1 }
  [.place .unpaired { buy with ibOrderId := 1, orderType := .limit, limitPrice := some 150 },
    .place .unpaired { sell with ibOrderId := 2, orderType := .limit, limitPrice := some 160 },
    .place .unpaired
      { sell with ibOrderId := 3, orderType := .stop, stopPrice := some 140, transmit := true }]

theorem bracket_cancelled_once_resting :
    CancelsBracket 1 (runFrom {} restingBracket) (runFrom {} (restingBracket ++ [.cancel 1])) := by
  have hlive : ((runFrom {} restingBracket).live 1).isSome = true := by decide +kernel
  obtain ⟨p, hp⟩ := Option.isSome_iff_exists.mp hlive
  rw [runFrom.eq_def _ (_ ++ _), run_append]
  exact bracket_cancelled_once {} restingBracket hp

end Midas.Broker
