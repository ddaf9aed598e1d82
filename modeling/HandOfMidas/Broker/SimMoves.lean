import HandOfMidas.Broker.SimBooks
import HandOfMidas.Broker.SimRefines

/-! What a call does to the state as a whole, as a path of moves: a note that is no record and no money,
    a new status, a fill, new terms, a new order. What every move keeps, every call keeps. -/

namespace Midas.Broker

open Relation

variable (cfg : SimOrderConfig)

/-- One move. `C` says which orders are created, and `A` to what an order may be amended. -/
inductive Move (C : SimulatedOrder → Prop) (A : SimulatedOrder → SimulatedOrder → Prop) (s : SimState) :
    SimState → Prop
  | note (s') (horders : s'.orders = s.orders) (hmoney : s'.money = s.money) : Move C A s s'
  | restatus (o st) (ho : s.orders.get? o.ibOrderId = some o) (hlive : o.status.isTerminal = false)
      (hst : st ≠ .filled) : Move C A s (s.setOrder { o with status := st })
  | fill (o shares price) (ho : s.orders.get? o.ibOrderId = some o) (hworking : o.status = .working)
      (hshares : shares = o.quantity ∨ shares = o.quantity - o.filledQty) :
      Move C A s (executeFill cfg o.ibOrderId shares price s)
  | amend (o o') (ho : s.orders.get? o.ibOrderId = some o) (hid : o'.ibOrderId = o.ibOrderId)
      (htally : o'.tally = o.tally) (hstatus : o'.status = o.status) (hA : A o o') :
      Move C A s (s.setOrder o')
  | create (o) (hnew : s.orders.get? o.ibOrderId = none) (hstatus : o.status ≠ .filled)
      (hfilled : o.filledQty = 0) (havg : o.avgFillPrice = 0) (hC : C o) : Move C A s (s.setOrder o)

abbrev Moves (C : SimulatedOrder → Prop) (A : SimulatedOrder → SimulatedOrder → Prop) :
    SimState → SimState → Prop :=
  ReflTransGen (Move cfg C A)

variable {cfg} {C : SimulatedOrder → Prop} {A : SimulatedOrder → SimulatedOrder → Prop}
    {s s' : SimState}

/-! ### Notes -/

theorem Moves.note (h : Moves cfg C A s s') (s'' : SimState) (horders : s''.orders = s'.orders)
    (hmoney : s''.money = s'.money) : Moves cfg C A s s'' :=
  h.tail (.note s'' horders hmoney)

/-- Only executions and commissions are more than a note. -/
theorem Moves.send (h : Moves cfg C A s s') (e : OrderEvent) (he : e.execution? = none)
    (hc : e.charge? = none) : Moves cfg C A s (s'.send e) :=
  h.note _ rfl (money_send s' he hc)

theorem moves_foldl {ι : Type} {f : SimState → ι → SimState} (hf : ∀ s i, Moves cfg C A s (f s i))
    (is : List ι) (s : SimState) : Moves cfg C A s (is.foldl f s) :=
  inv_run f (I := Moves cfg C A s) (fun s' i h => h.trans (hf s' i)) .refl is

/-! ### Cancellations -/

/-- The streams that wait for a cancellation. -/
theorem moves_flush (id : Int32) (s : SimState) : Moves cfg C A s (match s.cancelStreams id with
    | none => s
    | some streams => streams.foldl (fun s tx => s.sendCancel tx (.cancelled id))
        { s with cancelStreams := Function.update s.cancelStreams id none }) := by
  split
  · exact .refl
  rename_i streams _
  have htaken : Moves cfg C A s { s with cancelStreams := Function.update s.cancelStreams id none } :=
    Moves.note .refl _ rfl rfl
  exact htaken.trans
    (moves_foldl (fun s tx => .single (.note (s.sendCancel tx (.cancelled id)) rfl rfl)) streams _)

theorem moves_cancelOrderInner (id : Int32) (s : SimState) :
    Moves cfg C A s (cancelOrderInner id s) := by
  unfold cancelOrderInner
  cases h : s.orders.get? id with
  | none => exact moves_flush id s
  | some o =>
    obtain rfl : o.ibOrderId = id := Store.key_of_get? h
    dsimp only
    split
    · exact .refl
    rename_i hlive
    have hset : Moves cfg C A s (s.setOrder { o with status := .cancelled }) :=
      .single (.restatus o .cancelled h (Bool.eq_false_iff.mpr hlive) (by decide))
    have hsent :=
      (hset.send (.statusChanged o.ibOrderId .cancelled o.filledQty (o.quantity - o.filledQty)
      o.avgFillPrice) rfl rfl).send (.cancelled o.ibOrderId) rfl rfl
    exact hsent.trans (moves_flush o.ibOrderId _)

theorem moves_checkOcaInner (id : Int32) (s : SimState) : Moves cfg C A s (checkOcaInner id s) := by
  unfold checkOcaInner
  split
  · exact .refl
  split
  · exact .refl
  split
  · exact .refl
  refine moves_foldl (fun s sibling => ?_) _ s
  split
  · exact moves_cancelOrderInner sibling s
  · exact .refl

theorem moves_checkOca {ι : Type} (id : ι → Int32) (is : List ι) (s : SimState) :
    Moves cfg C A s (is.foldl (fun s i => checkOcaInner (id i) s) s) :=
  moves_foldl (fun s i => moves_checkOcaInner (id i) s) is s

/-! ### Activation -/

/-- A live order gets another status, and reports are sent. -/
theorem moves_restatus {o : SimulatedOrder} (h : s.orders.get? o.ibOrderId = some o)
    (hlive : o.status.isTerminal = false) {st : SimOrderStatus} (hst : st ≠ .filled)
    (report : OrderStatus)
    (filled remaining avg : ℚ) : Moves cfg C A s ((s.setOrder { o with status := st }).send
      (.statusChanged o.ibOrderId report filled remaining avg)) :=
  Moves.send (.single (.restatus o st h hlive hst)) _ rfl rfl

theorem moves_activateChild (parentFilled : Bool) (s : SimState) (id : Int32) :
    Moves cfg C A s (activateChild parentFilled s id) := by
  unfold activateChild
  cases h : s.orders.get? id with
  | none => exact .refl
  | some o =>
    obtain rfl : o.ibOrderId = id := Store.key_of_get? h
    dsimp only
    split
    · exact .refl
    rename_i hheld
    have hlive : o.status.isTerminal = false := by simp [not_not.mp hheld, SimOrderStatus.isTerminal]
    have htriggered : Moves cfg C A s ((s.setOrder { o with status := .triggered }).send
        (.statusChanged o.ibOrderId .preSubmitted 0 o.quantity 0)) :=
      moves_restatus h hlive (by decide) _ _ _ _
    split
    · split
      · exact htriggered
      · exact htriggered
      · have hworking : Moves cfg C A s (s.setOrder { o with status := .working }) :=
          .single (.restatus o .working h hlive (by decide))
        exact (hworking.send _ rfl rfl).send _ rfl rfl
    · exact htriggered

theorem moves_fillMarketOrder (live : Live) {o : SimulatedOrder}
    (h : s.orders.get? o.ibOrderId = some o)
    (hworking : o.status = .working) : Moves cfg C A s (fillMarketOrder cfg live o.ibOrderId s) := by
  simp only [fillMarketOrder, h]
  exact .single (.fill o o.quantity _ h hworking (.inl rfl))

theorem moves_activateBracket (live : Live) (parentId : Int32) (s : SimState) :
    Moves cfg C A s (activateBracket cfg live parentId s) := by
  unfold activateBracket
  cases h : s.orders.get? parentId with
  | none => exact .refl
  | some p =>
    obtain rfl : p.ibOrderId = parentId := Store.key_of_get? h
    dsimp only
    split
    · exact .refl
    rename_i hheld
    have hlive : p.status.isTerminal = false := by simp [not_not.mp hheld, SimOrderStatus.isTerminal]
    have hset : Moves cfg C A s (s.setOrder { p with status := .working }) :=
      .single (.restatus p .working h hlive (by decide))
    have hsent := (hset.send (.submitted p.ibOrderId) rfl rfl).send
      (.statusChanged p.ibOrderId .submitted 0 p.quantity 0) rfl rfl
    refine Relation.ReflTransGen.trans ?_ (moves_foldl (moves_activateChild _) _ _)
    split
    · exact hsent.trans (moves_fillMarketOrder live (o := { p with status := .working }) (by simp) rfl)
    · exact hsent

/-! ### Price steps -/

/-- The loop keeps whatever of an order booking keeps. -/
theorem fillTranches_keeps {τ : Type} {f : SimulatedOrder → τ}
    (hf : ∀ (o : SimulatedOrder) shares price, f (o.book shares price) = f o) (price trancheSize : ℚ) :
    ∀ (n : ℕ) (st : FillLoop), f (fillTranches cfg price trancheSize n st).order = f st.order
  | 0, _ => rfl
  | n + 1, st =>
    (fillTranches_keeps hf price trancheSize n (fillTranche cfg price trancheSize (n == 0) st)).trans
      (hf ..)

variable (cfg) in
/-- A fill puts one record back, under its own id and with its own quantity. -/
theorem executeFill_put {id : Int32} {o : SimulatedOrder} (ho : s.orders.get? id = some o)
    (shares price : ℚ) :
    executeFill cfg id shares price s = s ∨ ∃ o',
      (executeFill cfg id shares price s).orders = s.orders.put o' ∧
      o'.ibOrderId = id ∧ o'.quantity = o.quantity := by
  obtain rfl : o.ibOrderId = id := Store.key_of_get? ho
  simp only [executeFill, ho]
  split
  · exact .inl rfl
  refine .inr ?_
  set st := fillTranches cfg price (min shares (o.quantity - o.filledQty) /
    (trancheCount cfg (min shares (o.quantity - o.filledQty)) : ℚ))
      (trancheCount cfg (min shares (o.quantity - o.filledQty))) ⟨s, o,
        min shares (o.quantity - o.filledQty)⟩
  have hbook : st.sim.orders = s.orders := (sameBook_fillTranches cfg price _ _ _).orders
  have hid : st.order.ibOrderId = o.ibOrderId :=
    fillTranches_keeps (f := SimulatedOrder.ibOrderId) (fun _ _ _ => rfl) _ _ _ _
  have hquantity : st.order.quantity = o.quantity :=
    fillTranches_keeps (f := SimulatedOrder.quantity) (fun _ _ _ => rfl) _ _ _ _
  refine ⟨_, by rw [SimState.setOrder_orders, hbook], ?_, ?_⟩
  · split_ifs <;> exact hid
  · split_ifs <;> exact hquantity

/-- A fill touches no other order. -/
theorem executeFill_get?_of_ne {id k : Int32} (hk : k ≠ id) (shares price : ℚ) (s : SimState) :
    (executeFill cfg id shares price s).orders.get? k = s.orders.get? k := by
  cases ho : s.orders.get? id with
  | none => rw [executeFill_of_none cfg ho]
  | some o =>
    rcases executeFill_put cfg ho shares price with h | ⟨o', horders, hid, -⟩
    · rw [h]
    · rw [horders, Store.get?_put, if_neg (hid ▸ hk)]

/-- A fill changes no quantity. -/
theorem executeFill_quantity {id : Int32} {o : SimulatedOrder} (ho : s.orders.get? id = some o)
    (shares price : ℚ) {k : Int32} {o' : SimulatedOrder}
    (ho' : (executeFill cfg id shares price s).orders.get? k = some o') :
    ∃ o, s.orders.get? k = some o ∧ o'.quantity = o.quantity := by
  rcases executeFill_put cfg ho shares price with h | ⟨o'', horders, hid, hquantity⟩
  · exact ⟨o', h ▸ ho', rfl⟩
  rw [horders, Store.get?_put, hid] at ho'
  split at ho'
  · rename_i hk
    exact ⟨o, hk ▸ ho, Option.some.inj ho' ▸ hquantity⟩
  · exact ⟨o', ho', rfl⟩

/-- A pass over distinct orders that are all in one status when it starts. -/
theorem moves_pass {σ ι : Type} {f : σ → ι → σ} (state : σ → SimState) (key : ι → Int32)
    (st : SimOrderStatus)
    (hmoves : ∀ a i o, (state a).orders.get? (key i) = some o → o.status = st →
      Moves cfg C A (state a) (state (f a i)))
    (hne : ∀ a i k, k ≠ key i → (state (f a i)).orders.get? k = (state a).orders.get? k) {is : List ι}
    (hnodup : (is.map key).Nodup) : ∀ {a : σ},
      (∀ i ∈ is, ∃ o, (state a).orders.get? (key i) = some o ∧ o.status = st) →
        Moves cfg C A (state a) (state (is.foldl f a)) := by
  induction is with
  | nil => exact fun _ => .refl
  | cons i is ih =>
    intro a hready
    obtain ⟨hnew, hnodup⟩ := List.nodup_cons.mp hnodup
    obtain ⟨o, ho, hst⟩ := hready i List.mem_cons_self
    refine (hmoves a i o ho hst).trans (ih hnodup fun j hj => ?_)
    have hij : key j ≠ key i := fun h => hnew (h ▸ List.mem_map_of_mem hj)
    rw [hne a i _ hij]
    exact hready j (List.mem_cons_of_mem i hj)

theorem moves_checkLimitFills (visit : Visit) (symbol : String) (price : ℚ) (s : SimState) :
    Moves cfg C A s (checkLimitFills cfg visit symbol price s) := by
  have hfills : Moves cfg C A s ((limitPicks visit symbol price s).foldl (limitFillStep cfg) s) := by
    refine moves_pass (fun s => s) Prod.fst .working (fun s p o ho hworking => ?_) (fun s p k hk => ?_)
      (nodup_limitPicks visit symbol price) fun p hp => ?_
    · have hid : o.ibOrderId = p.1 := Store.key_of_get? ho
      simp only [limitFillStep, ho]
      rw [← hid] at ho ⊢
      exact .single (.fill o _ p.2 ho hworking (.inr rfl))
    · unfold limitFillStep
      split
      · exact executeFill_get?_of_ne hk _ _ s
      · rfl
    · obtain ⟨o, ho, hpick⟩ := Option.bind_eq_some_iff.mp ((mem_limitPicks visit symbol price).mp hp)
      exact ⟨o, ho, (limitFill?_eq_some hpick).2.1⟩
  exact hfills.trans (moves_checkOca Prod.fst _ _)

theorem moves_triggerStop (price : ℚ) {acc : SimState × List Int32} {o : SimulatedOrder}
    (ho : acc.1.orders.get? o.ibOrderId = some o) (htriggered : o.status = .triggered) :
    Moves cfg C A acc.1 (triggerStop cfg price acc o.ibOrderId).1 := by
  have hreleased : Moves cfg C A acc.1 (acc.1.released o.ibOrderId o) :=
    moves_restatus ho (by simp [htriggered, SimOrderStatus.isTerminal]) (by decide) _ _ _ _
  rw [triggerStop_eq cfg ho]
  cases stopFill? cfg price o with
  | none => exact hreleased
  | some p =>
    exact hreleased.tail
      (.fill { o with status := .working } _ p (by simp [SimState.released]) rfl (.inr rfl))

theorem moves_checkStopTriggers (visit : Visit) (symbol : String) (price : ℚ) (s : SimState) :
    Moves cfg C A s (checkStopTriggers cfg visit symbol price s) := by
  have htriggers : Moves cfg C A s
      ((stopPicks visit symbol price s).foldl (triggerStop cfg price) (s, [])).1 := by
    refine moves_pass Prod.fst (fun id => id) .triggered (a := (s, []))
      (fun acc id o ho htriggered => ?_) (fun acc id k hk => ?_) (nodup_stopPicks visit symbol price)
        fun id hid => ?_
    · obtain rfl : o.ibOrderId = id := Store.key_of_get? ho
      exact moves_triggerStop price ho htriggered
    · cases ho : acc.1.orders.get? id with
      | none => simp [triggerStop, ho]
      | some o =>
        obtain rfl : o.ibOrderId = id := Store.key_of_get? ho
        have hother : (acc.1.released o.ibOrderId o).orders.get? k = acc.1.orders.get? k := by
          simp [SimState.released, Store.get?_put, hk]
        rw [triggerStop_eq cfg ho]
        cases stopFill? cfg price o with
        | none => exact hother
        | some p => exact (executeFill_get?_of_ne hk _ _ _).trans hother
    · obtain ⟨o, ho, hhit⟩ := get_stopPicks visit symbol price hid
      obtain ⟨j, hj⟩ := Option.isSome_iff_exists.mp hhit
      exact ⟨o, ho, (stopHit?_eq_some hj).2.1⟩
  exact htriggers.trans (moves_checkOca (fun id => id) _ _)

/-! ### Every call -/

/-- The order that a call gives new terms, if it exists. -/
def Op.target : Op → Option Int32
  | .place _ spec => some spec.ibOrderId
  | .modify id _ => some id
  | _ => none

/-- The order with these terms. -/
def Op.amended (o : SimulatedOrder) : Op → SimulatedOrder
  | .place _ spec => { o with
      limitPrice := spec.limitPrice.or o.limitPrice
      stopPrice := spec.stopPrice.or o.stopPrice }
  | .modify _ spec => { o with
      quantity := spec.quantity.getD o.quantity
      limitPrice := spec.limitPrice.or o.limitPrice
      stopPrice := spec.stopPrice.or o.stopPrice
      tif := spec.tif.getD o.tif
      outsideRth := spec.outsideRth.getD o.outsideRth }
  | _ => o

theorem moves_placeOrder (live : Live) (spec : OrderSpec) (s : SimState)
    (hC : s.orders.get? spec.ibOrderId = none → C (.ofSpec spec (shouldReject cfg (s.orderCount + 1))))
    (hA : ∀ o, s.orders.get? spec.ibOrderId = some o → A o ((Op.place live spec).amended o)) :
    Moves cfg C A s (placeOrder cfg live spec s).2 := by
  unfold placeOrder
  cases ho : s.orders.get? spec.ibOrderId with
  | some o =>
    have hid : o.ibOrderId = spec.ibOrderId := Store.key_of_get? ho
    have hset : Moves cfg C A s (s.setOrder ((Op.place live spec).amended o)) :=
      .single (.amend o _ (hid ▸ ho) rfl rfl rfl (hA o ho))
    simp only [replaceOrder]
    cases hl : spec.limitPrice <;> cases hsp : spec.stopPrice <;>
      simp only [Op.amended, hl, hsp, Option.or] at hset <;> exact hset.send _ rfl rfl
  | none =>
    dsimp only
    set reject := shouldReject cfg (s.orderCount + 1)
    have hcounted : Moves cfg C A s { s with orderCount := s.orderCount + 1 } :=
      Moves.note .refl _ rfl rfl
    have hplaced : Moves cfg C A s
        ({ s with orderCount := s.orderCount + 1 }.setOrder (.ofSpec spec reject)) := by
      refine hcounted.tail (.create (.ofSpec spec reject) ho ?_ rfl rfl (hC ho))
      cases reject <;> simp [SimulatedOrder.ofSpec]
    split
    · exact hplaced.send _ rfl rfl
    cases spec.parentId with
    | none =>
      split
      · exact hplaced.trans (moves_activateBracket live _ _)
      · exact hplaced
    | some pid =>
      have hlinked : Moves cfg C A s (({ s with orderCount := s.orderCount + 1 }.setOrder
          (.ofSpec spec reject)).linkChild pid spec.ibOrderId) := hplaced.note _ rfl rfl
      split
      · exact hlinked.trans (moves_activateBracket live _ _)
      · exact hlinked

theorem moves_cancelOrder (id : Int32) (s : SimState) : Moves cfg C A s (cancelOrder id s).2 := by
  unfold cancelOrder
  dsimp only
  split
  · exact Moves.note .refl _ rfl rfl
  split
  · exact Moves.note .refl _ rfl rfl
  have hawaiting : Moves cfg C A s (s.awaiting id) := Moves.note .refl _ rfl rfl
  have hcancelled := hawaiting.trans (moves_cancelOrderInner id _)
  split
  · exact hcancelled.trans (moves_foldl (fun s c => moves_cancelOrderInner c s) _ _)
  · exact hcancelled

theorem moves_modifyOrder (id : Int32) (spec : OrderModify) (s : SimState)
    (hA : ∀ o, s.orders.get? id = some o → A o ((Op.modify id spec).amended o)) :
    Moves cfg C A s (modifyOrder id spec s).2 := by
  unfold modifyOrder
  cases ho : s.orders.get? id with
  | none => exact .refl
  | some o =>
    have hid : o.ibOrderId = id := Store.key_of_get? ho
    exact .single (.amend o _ (hid ▸ ho) rfl rfl rfl (hA o ho))

/-- What a call creates and amends is all that its moves create and amend. -/
theorem moves_step {s : SimState} {op : Op}
    (hC : ∀ live spec, op = .place live spec → s.orders.get? spec.ibOrderId = none →
      C (.ofSpec spec (shouldReject cfg (s.orderCount + 1))))
    (hA : ∀ k o, op.target = some k → s.orders.get? k = some o → A o (op.amended o)) :
    Moves cfg C A s (step cfg s op) := by
  cases op with
  | nextOrderId => exact Moves.note .refl _ rfl rfl
  | place live spec => exact moves_placeOrder live spec s (hC live spec rfl) fun o => hA _ o rfl
  | modify id spec => exact moves_modifyOrder id spec s fun o => hA _ o rfl
  | cancel id => exact moves_cancelOrder id s
  | setMarketPrice limits stops symbol price =>
    have hpriced : Moves cfg C A s (s.priced symbol price) := Moves.note .refl _ rfl rfl
    exact (hpriced.trans (moves_checkLimitFills limits symbol price _)).trans
      (moves_checkStopTriggers stops symbol price _)

end Midas.Broker
