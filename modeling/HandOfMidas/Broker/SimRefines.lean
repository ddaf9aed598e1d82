import HandOfMidas.Broker.SimPasses

/-! Every call on the simulator does to every order nothing but steps of its life (`life_step`), so
    what a life keeps holds in every reachable state. Which orders a call executes is a predicate on
    the state before it (`Executes`), and `hasFill_step` says that it is the right one. -/

namespace Midas.Broker

variable {cfg : SimOrderConfig} {C R : SimulatedOrder → Prop}

/-! ### The passes as lives -/

theorem life_fill {v : View} {o : SimulatedOrder} (h : v.record = some o) (hs : o.status = .working)
    (price : ℚ) : Life cfg C R v (v.fill cfg price) := by
  unfold View.fill
  simp only [h]
  split
  · rename_i hq; exact .single (.fill o price h hs hq)
  · exact .refl

theorem life_cancel (v : View) : Life cfg C R v v.cancel := by
  cases h : v.record with
  | none => rw [View.cancel_of_none h]
  | some o =>
    cases ht : o.status.isTerminal with
    | true => rw [View.cancel_of_terminal h ht]
    | false => rw [View.cancel_of_live h ht]; exact .single (.cancel o h ht)

theorem life_limit (symbol : String) (price : ℚ) (v : View) :
    Life cfg C R v (v.limit cfg symbol price) := by
  unfold View.limit
  split
  · rename_i p hp
    obtain ⟨o, ho, hpick⟩ := Option.bind_eq_some_iff.mp hp
    exact life_fill ho (limitFill?_eq_some hpick).2.1 p.2
  · exact .refl

theorem life_trigger {v : View} {o : SimulatedOrder} (h : v.record = some o)
    (hs : o.status = .triggered) (price : ℚ) : Life cfg C R v (v.trigger cfg price) := by
  have htrigger : LifeStep cfg C R v
      ⟨some { o with status := .working }, v.statuses ++ [.submitted]⟩ := .trigger o h hs
  simp only [View.trigger, h]
  split
  · exact .head htrigger (life_fill rfl rfl _)
  · exact .single htrigger

theorem life_stop (symbol : String) (price : ℚ) (v : View) :
    Life cfg C R v (v.stop cfg symbol price) := by
  unfold View.stop
  split
  · rename_i h
    obtain ⟨j, hj⟩ := Option.isSome_iff_exists.mp h
    obtain ⟨o, ho, hhit⟩ := Option.bind_eq_some_iff.mp hj
    exact life_trigger ho (stopHit?_eq_some hhit).2.1 price
  · exact .refl

theorem life_activate (parentFilled : Bool) {v : View} {p : Int32}
    (hchild : v.record.bind (·.parentId) = some p) :
    Life cfg C R v (v.activate parentFilled) := by
  unfold View.activate
  split
  · rename_i o h
    split
    · rename_i hheld
      split
      · exact .single (.release o h hheld)
      · refine .single (.park o h hheld ?_)
        rw [h, Option.bind_some] at hchild
        simp [hchild]
    · exact .refl
  · exact .refl

theorem life_enter {v : View} {o : SimulatedOrder} (h : v.record = some o) (hheld : o.status = .held)
    (price : ℚ) : Life cfg C R v (v.enter cfg price) := by
  have hrelease : LifeStep cfg C R v
      ⟨some { o with status := .working }, v.statuses ++ [.submitted]⟩ := .release o h hheld
  simp only [View.enter, h]
  split
  · exact .head hrelease (life_fill rfl rfl _)
  · exact .single hrelease

/-! ### The calls as lives -/

theorem life_ite {p : Prop} [Decidable p] {v w w' : View} (h : p → Life cfg C R v w)
    (h' : ¬ p → Life cfg C R v w') : Life cfg C R v (if p then w else w') := by
  split
  · exact h ‹_›
  · exact h' ‹_›

theorem life_checkLimitFills (visit : Visit) (symbol : String) (price : ℚ) {s : SimState}
    (hs : Sound s) (k : Int32) :
    Life cfg C R (s.view k) ((checkLimitFills cfg visit symbol price s).view k) := by
  rw [view_checkLimitFills cfg visit symbol price hs]
  exact life_ite (fun _ => (life_limit symbol price _).trans (life_cancel _))
    fun _ => life_limit symbol price _

variable (cfg) in
theorem life_checkStopTriggers (visit : Visit) (symbol : String) (price : ℚ) {s : SimState}
    (hs : Sound s) (k : Int32) :
    Life cfg C R (s.view k) ((checkStopTriggers cfg visit symbol price s).view k) := by
  rw [view_checkStopTriggers cfg visit symbol price hs]
  exact life_ite (fun _ => (life_stop symbol price _).trans (life_cancel _))
    fun _ => life_stop symbol price _

/-- A life that leaves the links alone keeps a state sound. -/
theorem Sound.of_life {s s' : SimState} (hs : Sound s)
    (hlife : ∀ k, Life cfg (fun _ => True) (fun _ => True) (s.view k) (s'.view k))
    (hlinks : s'.bracketLinks = s.bracketLinks) : Sound s' := by
  refine ⟨fun k => (hlife k).sound (hs.views k), fun k p hk => ?_⟩
  rw [hlinks] at hk
  obtain ⟨o, ho, hp⟩ := Option.bind_eq_some_iff.mp (hs.children k p hk)
  obtain ⟨o', ho', hsame⟩ := (hlife k).same ho
  rw [← SimState.view_record, ho', Option.bind_some, hsame.parentId, hp]

variable (cfg) in
theorem sound_checkLimitFills (visit : Visit) (symbol : String) (price : ℚ) {s : SimState}
    (hs : Sound s) : Sound (checkLimitFills cfg visit symbol price s) :=
  hs.of_life (fun k => life_checkLimitFills visit symbol price hs k)
    (sameFamily_checkLimitFills cfg visit symbol price hs).bracketLinks

/-- The price step without the note it makes of the price. -/
def SimState.priced (s : SimState) (symbol : String) (price : ℚ) : SimState :=
  { s with marketPrices := Function.update s.marketPrices symbol (some price) }

theorem Sound.priced {s : SimState} (hs : Sound s) (symbol : String) (price : ℚ) :
    Sound (s.priced symbol price) :=
  ⟨hs.views, hs.children⟩

theorem life_setMarketPrice (limits stops : Visit) (symbol : String) (price : ℚ) {s : SimState}
    (hs : Sound s) (k : Int32) :
    Life cfg C R (s.view k) ((setMarketPrice cfg limits stops symbol price s).view k) := by
  have hs' := hs.priced symbol price
  exact (life_checkLimitFills limits symbol price hs' k).trans
    (life_checkStopTriggers cfg stops symbol price (sound_checkLimitFills cfg limits symbol price hs') k)

variable (cfg) in
theorem life_activateBracket (live : Live) (t : Int32) {s : SimState} (hs : Sound s) (k : Int32) :
    Life cfg C R (s.view k) ((activateBracket cfg live t s).view k) := by
  by_cases h : ∀ o, s.orders.get? t = some o → o.status ≠ .held
  · rw [activateBracket_of_not_held cfg live h]
  · push Not at h
    obtain ⟨p, hp, hheld⟩ := h
    have hf : p.filledQty = 0 := (hs.wellKept hp).filledQty_eq (by simp [hheld])
    obtain ⟨price, hview⟩ := view_activateBracket cfg live hp hheld hf
    rw [hview]
    refine life_ite (fun hk => ?_) fun _ =>
      life_ite (fun hk => life_activate _ (hs.children k t hk)) fun _ => .refl
    exact life_enter (by rw [SimState.view_record, hk, hp]) hheld price

/-- The order a specification makes is accepted under a new id. -/
def Accepts (cfg : SimOrderConfig) (s : SimState) (spec : OrderSpec) : Prop :=
  s.orders.get? spec.ibOrderId = none ∧ shouldReject cfg (s.orderCount + 1) = false

instance (s : SimState) (spec : OrderSpec) : Decidable (Accepts cfg s spec) :=
  inferInstanceAs (Decidable (_ ∧ _))

/-- The state once an accepted order is recorded and linked, before any activation. -/
def SimState.admitted (s : SimState) (spec : OrderSpec) : SimState :=
  let s := { s with orderCount := s.orderCount + 1 }.setOrder (.ofSpec spec false)
  match spec.parentId with
  | some pid => s.linkChild pid spec.ibOrderId
  | none => s

/-- The order that a transmitted specification activates: its parent, or itself. -/
def OrderSpec.target (spec : OrderSpec) : Int32 := spec.parentId.getD spec.ibOrderId

theorem view_admitted (s : SimState) (spec : OrderSpec) (k : Int32) :
    (s.admitted spec).view k = if k = spec.ibOrderId then
      ⟨some (.ofSpec spec false), (s.view k).statuses⟩ else s.view k := by
  have h := view_setOrder { s with orderCount := s.orderCount + 1 } (.ofSpec spec false) k
  unfold SimState.admitted
  cases spec.parentId <;> exact h

theorem placeOrder_of_accepts {s : SimState} {spec : OrderSpec} (h : Accepts cfg s spec)
    (live : Live) : (placeOrder cfg live spec s).2 =
      if spec.transmit then activateBracket cfg live spec.target (s.admitted spec)
      else s.admitted spec := by
  simp only [placeOrder, h.1, h.2, Bool.false_eq_true, if_false]
  rfl

theorem view_placeOrder_of_reject {s : SimState} {spec : OrderSpec}
    (hnew : s.orders.get? spec.ibOrderId = none)
    (hrej : shouldReject cfg (s.orderCount + 1) = true) (live : Live) (k : Int32) :
    (placeOrder cfg live spec s).2.view k = if k = spec.ibOrderId then
      ⟨some (.ofSpec spec true), (s.view k).statuses⟩ else s.view k := by
  simp only [placeOrder, hnew, hrej, if_true]
  rw [view_send_rejected]
  exact view_setOrder { s with orderCount := s.orderCount + 1 } (.ofSpec spec true) k

variable (cfg) in
theorem view_replaceOrder {s : SimState} {spec : OrderSpec} {o : SimulatedOrder}
    (ho : s.orders.get? spec.ibOrderId = some o) (live : Live) : ∃ o', Amended o o' ∧ ∀ k,
    (placeOrder cfg live spec s).2.view k = if k = spec.ibOrderId then
      ⟨some o', (s.view k).statuses ++ [restatedStatus o.status]⟩ else s.view k := by
  have hid : o.ibOrderId = spec.ibOrderId := Store.key_of_get? ho
  refine ⟨{ o with
    limitPrice := spec.limitPrice.or o.limitPrice
    stopPrice := spec.stopPrice.or o.stopPrice }, ⟨rfl, rfl, rfl, rfl, rfl, rfl, rfl, rfl⟩, ?_⟩
  intro k
  rw [← view_restatus s (o := { o with
    limitPrice := spec.limitPrice.or o.limitPrice
    stopPrice := spec.stopPrice.or o.stopPrice }) hid _ o.filledQty (o.quantity - o.filledQty)
    o.avgFillPrice k]
  simp only [placeOrder, ho, replaceOrder]
  cases hl : spec.limitPrice <;> cases hsp : spec.stopPrice <;> simp

theorem life_admitted {s : SimState} {spec : OrderSpec} (h : Accepts cfg s spec)
    {k : Int32} (hC : k = spec.ibOrderId → C (.ofSpec spec false)) :
    Life cfg C R (s.view k) ((s.admitted spec).view k) := by
  rw [view_admitted]
  refine life_ite (fun hk => ?_) fun _ => .refl
  exact .single (.create _ (by rw [SimState.view_record, hk, h.1]) (hC hk) (Or.inl rfl) rfl)

/-- The links of a new order: under its parent, if it has one. -/
theorem mem_links_admitted {s : SimState} {spec : OrderSpec} {k p : Int32} :
    k ∈ ((s.admitted spec).bracketLinks p).getD [] ↔
      k ∈ (s.bracketLinks p).getD [] ∨ k = spec.ibOrderId ∧ spec.parentId = some p := by
  unfold SimState.admitted
  cases spec.parentId with
  | none => simp [SimState.setOrder]
  | some pid =>
    by_cases hp : p = pid
    · subst hp; simp [SimState.linkChild]
    · simp [SimState.linkChild, Function.update_of_ne hp, Ne.symm hp]

theorem sound_admitted {s : SimState} {spec : OrderSpec} (h : Accepts cfg s spec) (hs : Sound s) :
    Sound (s.admitted spec) := by
  refine ⟨fun k => Life.sound (C := fun _ => True) (R := fun _ => True)
    (life_admitted h fun _ => trivial) (hs.views k), fun k p hk => ?_⟩
  rw [← SimState.view_record, view_admitted]
  rcases mem_links_admitted.mp hk with hk | ⟨rfl, hp⟩
  · have hparent := hs.children k p hk
    have hne : k ≠ spec.ibOrderId := by rintro rfl; rw [h.1] at hparent; cases hparent
    rw [if_neg hne]
    exact hparent
  · rw [if_pos rfl]
    exact hp

theorem life_placeOrder (live : Live) (spec : OrderSpec) {s : SimState} (hs : Sound s) {k : Int32}
    (hC : k = spec.ibOrderId → s.orders.get? k = none →
      C (.ofSpec spec (shouldReject cfg (s.orderCount + 1))))
    (hR : k = spec.ibOrderId → ∀ o, s.orders.get? k = some o → R o) :
    Life cfg C R (s.view k) ((placeOrder cfg live spec s).2.view k) := by
  cases hnew : s.orders.get? spec.ibOrderId with
  | some o =>
    obtain ⟨o', ha, hview⟩ := view_replaceOrder cfg hnew live
    rw [hview]
    refine life_ite (fun hk => ?_) fun _ => .refl
    have hk' : s.orders.get? k = some o := by rw [hk, hnew]
    exact .single (.restate o o' hk' ha (hR hk o hk'))
  | none =>
    have hC := fun hk : k = spec.ibOrderId => hC hk (by rw [hk, hnew])
    cases hrej : shouldReject cfg (s.orderCount + 1) with
    | true =>
      rw [hrej] at hC
      rw [view_placeOrder_of_reject hnew hrej]
      refine life_ite (fun hk => ?_) fun _ => .refl
      exact .single (.create _ (by rw [SimState.view_record, hk, hnew]) (hC hk) (Or.inr rfl) rfl)
    | false =>
      rw [hrej] at hC
      have hacc : Accepts cfg s spec := ⟨hnew, hrej⟩
      rw [placeOrder_of_accepts hacc]
      refine (life_admitted hacc hC).trans ?_
      cases spec.transmit with
      | true => exact life_activateBracket cfg live _ (sound_admitted hacc hs) k
      | false => exact .refl

theorem view_modifyOrder (id : Int32) (spec : OrderModify) {s : SimState} {o : SimulatedOrder}
    (ho : s.orders.get? id = some o) : ∃ o', Amended o o' ∧ ∀ k,
      (modifyOrder id spec s).2.view k =
        if k = id then ⟨some o', (s.view k).statuses⟩ else s.view k := by
  have hid : o.ibOrderId = id := Store.key_of_get? ho
  refine ⟨{ o with
    quantity := spec.quantity.getD o.quantity
    limitPrice := spec.limitPrice.or o.limitPrice
    stopPrice := spec.stopPrice.or o.stopPrice
    tif := spec.tif.getD o.tif
    outsideRth := spec.outsideRth.getD o.outsideRth },
    ⟨rfl, rfl, rfl, rfl, rfl, rfl, rfl, rfl⟩, fun k => ?_⟩
  simp only [modifyOrder, ho, view_setOrder, hid]

theorem life_modifyOrder (id : Int32) (spec : OrderModify) (s : SimState) (k : Int32) :
    Life cfg C R (s.view k) ((modifyOrder id spec s).2.view k) := by
  cases ho : s.orders.get? id with
  | none => simp only [modifyOrder, ho]; exact .refl
  | some o =>
    obtain ⟨o', ha, hview⟩ := view_modifyOrder id spec ho
    rw [hview]
    refine life_ite (fun hk => ?_) fun _ => .refl
    exact .single (.amend o o' (by rw [SimState.view_record, hk, ho]) ha)

/-- The state in which `cancel_order` has opened a stream for a live order and cancelled nothing. -/
def SimState.awaiting (s : SimState) (id : Int32) : SimState :=
  let stream := s.cancelTx.length
  let s := { s with cancelTx := s.cancelTx ++ [[]] }.sendCancel stream (.submitted id)
  { s with cancelStreams :=
      Function.update s.cancelStreams id (some ((s.cancelStreams id).getD [] ++ [stream])) }

/-- The cancellation of a live order cancels it, and then what is linked under it. -/
theorem cancelOrder_of_live {id : Int32} {s : SimState} {o : SimulatedOrder}
    (ho : s.orders.get? id = some o) (ht : o.status.isTerminal = false) :
    (cancelOrder id s).2 =
      (id :: (s.bracketLinks id).getD []).foldl (fun s c => cancelOrderInner c s) (s.awaiting id) := by
  have hlinks : (cancelOrderInner id (s.awaiting id)).bracketLinks = s.bracketLinks :=
    cancelOrderInner_bracketLinks id (s.awaiting id)
  rw [List.foldl_cons, ← hlinks]
  simp only [cancelOrder, ho, ht, Bool.false_eq_true, if_false]
  rw [← SimState.awaiting]
  cases (cancelOrderInner id (s.awaiting id)).bracketLinks id <;> rfl

/-- A cancellation cancels the order, if it is live, and with it its live children. -/
theorem view_cancelOrder (id : Int32) (s : SimState) (k : Int32) :
    (cancelOrder id s).2.view k =
      if (∃ o, s.orders.get? id = some o ∧ o.status.isTerminal = false) ∧
        (k = id ∨ k ∈ (s.bracketLinks id).getD []) then (s.view k).cancel else s.view k := by
  cases ho : s.orders.get? id with
  | none =>
    rw [if_neg (by simp)]
    simp only [cancelOrder, ho]
    rfl
  | some o =>
    cases ht : o.status.isTerminal with
    | true =>
      rw [if_neg (by simp [ht])]
      simp only [cancelOrder, ho, ht, if_true]
      rfl
    | false =>
      have hview : (s.awaiting id).view k = s.view k := rfl
      rw [cancelOrder_of_live ho ht, view_foldl_cancel, hview]
      simp [ht]

theorem life_cancelOrder (id : Int32) (s : SimState) (k : Int32) :
    Life cfg C R (s.view k) ((cancelOrder id s).2.view k) := by
  rw [view_cancelOrder]
  exact life_ite (fun _ => life_cancel _) fun _ => .refl

variable (cfg) in
/-- Every call does to every order nothing but steps of its life. It creates an order only when it is
    a `place_order` under a new id, and reports a status again only when it is one under an old id. -/
theorem life_step {s : SimState} (hs : Sound s) (op : Op) {k : Int32}
    (hC : ∀ live spec, op = .place live spec → k = spec.ibOrderId → s.orders.get? k = none →
      C (.ofSpec spec (shouldReject cfg (s.orderCount + 1))))
    (hR : ∀ live spec, op = .place live spec → k = spec.ibOrderId →
      ∀ o, s.orders.get? k = some o → R o) :
    Life cfg C R (s.view k) ((step cfg s op).view k) := by
  cases op with
  | nextOrderId => exact .refl
  | place live spec =>
    exact life_placeOrder live spec hs (hC live spec rfl) (hR live spec rfl)
  | modify id spec => exact life_modifyOrder id spec s k
  | cancel id => exact life_cancelOrder id s k
  | setMarketPrice limits stops symbol price =>
    exact life_setMarketPrice limits stops symbol price hs k

variable (cfg) in
/-- `life_step` with nothing said about which orders are created or restated. -/
theorem life_step_any {s : SimState} (hs : Sound s) (op : Op) (k : Int32) :
    Life cfg (fun _ => True) (fun _ => True) (s.view k) ((step cfg s op).view k) :=
  life_step cfg hs op (fun _ _ _ _ _ => trivial) (fun _ _ _ _ _ _ => trivial)

/-! ### Links -/

/-- An activation keeps whatever single records, messages and fills keep. -/
theorem activateBracket_keeps {τ : Type*} (f : SimState → τ)
    (hset : ∀ s o, f (SimState.setOrder s o) = f s) (hsend : ∀ s e, f (SimState.send s e) = f s)
    (hfill : ∀ id shares price s, f (executeFill cfg id shares price s) = f s) (live : Live)
    (t : Int32) (s : SimState) : f (activateBracket cfg live t s) = f s := by
  have hchild : ∀ (b : Bool) (ids : List Int32) (s : SimState),
      f (ids.foldl (activateChild b) s) = f s := by
    intro b ids
    induction ids with
    | nil => intro s; rfl
    | cons id ids ih =>
      intro s
      rw [List.foldl_cons, ih]
      unfold activateChild
      repeat' split
      all_goals simp only [hset, hsend]
  unfold activateBracket
  split
  · rfl
  · split
    · rfl
    · dsimp only
      rw [hchild]
      split
      · unfold fillMarketOrder
        split
        · simp only [hset, hsend]
        · simp only [hset, hsend, hfill]
      · simp only [hset, hsend]

theorem bracketLinks_activateBracket (live : Live) (t : Int32) (s : SimState) :
    (activateBracket cfg live t s).bracketLinks = s.bracketLinks :=
  activateBracket_keeps SimState.bracketLinks (fun _ _ => rfl) (fun _ _ => rfl)
    (executeFill_bracketLinks cfg) live t s

theorem orderCount_activateBracket (live : Live) (t : Int32) (s : SimState) :
    (activateBracket cfg live t s).orderCount = s.orderCount :=
  activateBracket_keeps SimState.orderCount (fun _ _ => rfl) (fun _ _ => rfl)
    (fun id shares price s => (executeFill_keeps cfg id shares price s).2) live t s

theorem bracketLinks_modifyOrder (id : Int32) (spec : OrderModify) (s : SimState) :
    (modifyOrder id spec s).2.bracketLinks = s.bracketLinks := by
  unfold modifyOrder
  split <;> rfl

theorem bracketLinks_cancelOrder (id : Int32) (s : SimState) :
    (cancelOrder id s).2.bracketLinks = s.bracketLinks := by
  unfold cancelOrder
  dsimp only
  split
  · rfl
  · split
    · rfl
    · dsimp only
      split
      · exact ((sameFamily_foldl_cancel _ _).bracketLinks).trans
          (cancelOrderInner_bracketLinks id _)
      · exact cancelOrderInner_bracketLinks id _

theorem bracketLinks_placeOrder_of_accepts {s : SimState} {spec : OrderSpec}
    (h : Accepts cfg s spec) (live : Live) :
    (placeOrder cfg live spec s).2.bracketLinks = (s.admitted spec).bracketLinks := by
  rw [placeOrder_of_accepts h]
  split
  · exact bracketLinks_activateBracket live _ _
  · rfl

theorem bracketLinks_placeOrder_of_not_accepts {s : SimState} {spec : OrderSpec}
    (h : ¬ Accepts cfg s spec) (live : Live) :
    (placeOrder cfg live spec s).2.bracketLinks = s.bracketLinks := by
  cases hnew : s.orders.get? spec.ibOrderId with
  | some o => simp only [placeOrder, hnew]; rfl
  | none =>
    have hrej : shouldReject cfg (s.orderCount + 1) = true := by
      by_contra hr
      exact h ⟨hnew, by simpa using hr⟩
    simp only [placeOrder, hnew, hrej, if_true]
    rfl

variable (cfg) in
/-- The links after a call: only an accepted order under a new id changes them. -/
theorem bracketLinks_step {s : SimState} (hs : Sound s) (op : Op) :
    (step cfg s op).bracketLinks = s.bracketLinks ∨ ∃ live spec, op = .place live spec ∧
      Accepts cfg s spec ∧ (step cfg s op).bracketLinks = (s.admitted spec).bracketLinks := by
  cases op with
  | nextOrderId => exact Or.inl rfl
  | modify id spec => exact Or.inl (bracketLinks_modifyOrder id spec s)
  | cancel id => exact Or.inl (bracketLinks_cancelOrder id s)
  | setMarketPrice limits stops symbol price =>
    have hs' := hs.priced symbol price
    have h := (sameFamily_checkLimitFills cfg limits symbol price hs').trans
      (sameFamily_checkStopTriggers cfg stops symbol price
        (sound_checkLimitFills cfg limits symbol price hs'))
    exact Or.inl h.bracketLinks
  | place live spec =>
    by_cases hacc : Accepts cfg s spec
    · exact Or.inr ⟨live, spec, rfl, hacc, bracketLinks_placeOrder_of_accepts hacc live⟩
    · exact Or.inl (bracketLinks_placeOrder_of_not_accepts hacc live)

theorem sound_step {s : SimState} (hs : Sound s) (op : Op) : Sound (step cfg s op) := by
  rcases bracketLinks_step cfg hs op with hlinks | ⟨live, spec, rfl, hacc, -⟩
  · exact hs.of_life (fun k => life_step_any cfg hs op k) hlinks
  · have hadm := sound_admitted hacc hs
    rw [step, placeOrder_of_accepts hacc]
    split
    · exact hadm.of_life (fun k => life_activateBracket cfg live _ hadm k)
        (bracketLinks_activateBracket live _ _)
    · exact hadm

theorem sound_new (cfg : SimOrderConfig) : Sound (.new cfg) :=
  ⟨fun _ => ⟨fun _ h => (Option.some_ne_none _ h.symm).elim, fun _ => rfl⟩,
    fun _ _ h => (List.not_mem_nil h).elim⟩

theorem sound_runFrom (cfg : SimOrderConfig) (ops : List Op) : Sound (runFrom cfg ops) :=
  inv_run (I := Sound) (step cfg) (fun _ op hs => sound_step hs op) (sound_new cfg) ops

end Midas.Broker
