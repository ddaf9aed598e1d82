import HandOfMidas.Broker.SimExecutes

/-! Liveness of marketable orders: which orders a price step is bound to execute. A pass looks only
    at the orders in the status it expects of their kind: limits that are working, stops that wait
    for their trigger. An order that has not been transmitted is in neither and is not executed at
    any price; a parentless limit order is working from the moment it is transmitted, and the
    children of a transmitted order are where their pass looks when the order fills at once. -/

namespace Midas.Broker

variable {cfg : SimOrderConfig}

/-! ### Marketable orders -/

/-- Could the order trade at `price`? A stop-limit must also have been triggered, now or before. -/
def Marketable (price : ℚ) (triggered : Prop) (o : SimulatedOrder) : Prop :=
  match o.orderType with
  | .limit => ∃ limit, o.limitPrice = some limit ∧ limitMet price limit o.action = true
  | .stop => ∃ stop, o.stopPrice = some stop ∧ stopMet price stop o.action = true
  | .stopLimit =>
    (triggered ∨ ∃ stop, o.stopPrice = some stop ∧ stopMet price stop o.action = true) ∧
      ∃ limit, o.limitPrice = some limit ∧ limitMet price limit o.action = true
  | _ => False

/-- Some price step of the run has triggered the order `k`. -/
def TriggeredIn (cfg : SimOrderConfig) (ops : List Op) (k : Int32) : Prop :=
  ∃ pre limits stops symbol price o, pre ++ [.setMarketPrice limits stops symbol price] <+: ops ∧
    (runFrom cfg pre).orders.get? k = some o ∧ (stopHit? symbol price o).isSome

/-- The order is in the status in which the pass for its kind looks for it. -/
def Released (o : SimulatedOrder) : Prop :=
  (o.orderType = .limit ∧ o.status = .working) ∨
    ((o.orderType = .stop ∨ o.orderType = .stopLimit) ∧ o.status = .triggered)

theorem limitFill?_isSome {symbol : String} {price : ℚ} {o : SimulatedOrder}
    (hsym : o.symbol.symbol = symbol) (htype : o.orderType = .limit) (hst : o.status = .working)
    (hm : Marketable price False o) : (limitFill? symbol price o).isSome := by
  simp only [Marketable, htype] at hm
  obtain ⟨limit, hl, hmet⟩ := hm
  simp [limitFill?, hsym, htype, hst, hl, hmet]

variable (cfg) in
theorem stopHit?_isSome {symbol : String} {price : ℚ} {o : SimulatedOrder}
    (hsym : o.symbol.symbol = symbol) (htype : o.orderType = .stop ∨ o.orderType = .stopLimit)
    (hst : o.status = .triggered) (hm : Marketable price False o) :
    (stopHit? symbol price o).isSome ∧ (stopFill? cfg price o).isSome := by
  rcases htype with htype | htype <;> simp only [Marketable, htype, false_or] at hm
  · obtain ⟨stop, hsp, hmet⟩ := hm
    simp [stopHit?, stopFill?, hsym, htype, hst, hsp, hmet]
  · obtain ⟨⟨stop, hsp, hmet⟩, limit, hl, hlmet⟩ := hm
    simp [stopHit?, stopFill?, hsym, htype, hst, hsp, hmet, hl, hlmet]

/-! ### The price step -/

variable (cfg) in
theorem View.limit_of_met {symbol : String} {price : ℚ} {v : View} {o : SimulatedOrder}
    (h : v.record = some o) (hpick : (limitFill? symbol price o).isSome) (hq : 0 < o.quantity) :
    ∃ p, (v.limit cfg symbol price).record = some (o.filledAt p) := by
  obtain ⟨p, hp⟩ := Option.isSome_iff_exists.mp hpick
  exact ⟨p.2, by simp [View.limit, View.fill, h, hp, hq]⟩

theorem View.stop_of_hit {symbol : String} {price : ℚ} {v : View} {o : SimulatedOrder}
    (h : v.record = some o) (hhit : (stopHit? symbol price o).isSome)
    (hfire : (stopFill? cfg price o).isSome) (hq : 0 < o.quantity) :
    ∃ p, ∃ o', o'.status = .working ∧
      (v.stop cfg symbol price).record = some (SimulatedOrder.filledAt o' p) := by
  obtain ⟨p, hp⟩ := Option.isSome_iff_exists.mp hfire
  exact ⟨p, { o with status := .working }, rfl, by
    simp [View.stop, View.trigger, View.fill, h, hhit, hp, hq]⟩

/-- What has been filled survives an OCA check. -/
theorem View.cancel_filledAt {v : View} {o : SimulatedOrder} {p : ℚ}
    (h : v.record = some (o.filledAt p)) : v.cancel.record = some (o.filledAt p) := by
  rw [View.cancel_of_terminal h rfl, h]

variable (cfg) in
/-- Terminal in the middle of a price step, terminal after it. -/
theorem terminal_of_limits {limits : Visit} (stops : Visit) {symbol : String} {price : ℚ}
    {s : SimState} (hs : Sound s) {k : Int32} {o : SimulatedOrder}
    (ho : (checkLimitFills cfg limits symbol price (s.priced symbol price)).orders.get? k = some o)
    (ht : o.status.isTerminal = true) :
    ∃ o', (step cfg s (.setMarketPrice limits stops symbol price)).orders.get? k = some o' ∧
      o'.status = o.status := by
  have hs₁ := sound_checkLimitFills cfg limits symbol price (hs.priced symbol price)
  obtain ⟨o', ho', hst, -⟩ := (life_checkStopTriggers cfg (C := fun _ => True)
    (R := fun _ => True) stops symbol price hs₁ k).terminal ho ht
  exact ⟨o', ho', hst⟩

variable (cfg) in
/-- A limit order that is working and met is filled. -/
theorem limit_filled (limits stops : Visit) {symbol : String} {price : ℚ} {s : SimState}
    (hs : Sound s) {k : Int32} {o : SimulatedOrder} (ho : s.orders.get? k = some o)
    (hpick : (limitFill? symbol price o).isSome) (hq : 0 < o.quantity) :
    ∃ o', (step cfg s (.setMarketPrice limits stops symbol price)).orders.get? k = some o' ∧
      o'.status = .filled := by
  have hview := view_checkLimitFills cfg limits symbol price (hs.priced symbol price) k
  obtain ⟨p, hp⟩ := View.limit_of_met cfg
    (v := (s.priced symbol price).view k) ho hpick hq
  have hrec : (checkLimitFills cfg limits symbol price (s.priced symbol price)).orders.get? k
      = some (o.filledAt p) := by
    rw [← SimState.view_record, hview]
    split
    · exact View.cancel_filledAt hp
    · exact hp
  exact terminal_of_limits cfg stops hs hrec rfl

/-- A stop that waits, is hit and can fill is filled, unless the fill of a limit order of the same
    bracket has just cancelled it. -/
theorem stop_filled_or_cancelled {limits stops : Visit} {symbol : String} {price : ℚ} {s : SimState}
    (hs : Sound s) {k : Int32} {o : SimulatedOrder} (ho : s.orders.get? k = some o)
    (hhit : (stopHit? symbol price o).isSome) (hfire : (stopFill? cfg price o).isSome)
    (hq : 0 < o.quantity) :
    ∃ o', (step cfg s (.setMarketPrice limits stops symbol price)).orders.get? k = some o' ∧
      (o'.status = .filled ∨ o'.status = .cancelled) := by
  obtain ⟨j, hj⟩ := Option.isSome_iff_exists.mp hhit
  have htrig := (stopHit?_eq_some hj).2.1
  have hs' := hs.priced symbol price
  have hview := view_checkLimitFills cfg limits symbol price hs' k
  have hlimit : ((s.priced symbol price).view k).limit cfg symbol price = s.view k := by
    have hnone : limitFill? symbol price o = none := by simp [limitFill?, htrig]
    have hrec : ((s.priced symbol price).view k).record = some o := ho
    simp only [View.limit, hrec, Option.bind_some, hnone]
    rfl
  rw [hlimit] at hview
  by_cases hoca : LimitOca (s.priced symbol price) symbol price k
  · rw [if_pos hoca, View.cancel_of_live (o := o) ho (by rw [htrig]; rfl)] at hview
    obtain ⟨o', ho', hst⟩ := terminal_of_limits cfg stops hs
      (o := { o with status := .cancelled }) (by rw [← SimState.view_record, hview]) rfl
    exact ⟨o', ho', Or.inr hst⟩
  · rw [if_neg hoca] at hview
    have hs₁ := sound_checkLimitFills cfg limits symbol price hs'
    have hstop := view_checkStopTriggers cfg stops symbol price hs₁ k
    rw [hview] at hstop
    obtain ⟨p, o₁, -, hp⟩ := View.stop_of_hit (v := s.view k) ho hhit hfire hq
    refine ⟨o₁.filledAt p, ?_, Or.inl rfl⟩
    show ((checkStopTriggers cfg stops symbol price
      (checkLimitFills cfg limits symbol price (s.priced symbol price))).view k).record = _
    rw [hstop]
    split
    · exact View.cancel_filledAt hp
    · exact hp

/-! ### Which orders are released -/

/-- Only the child of some order is ever parked until its stop is hit. -/
def View.RootNotParked (v : View) : Prop :=
  ∀ o, v.record = some o → o.parentId = none → o.status ≠ .triggered

theorem LifeStep.rootNotParked {C R : SimulatedOrder → Prop} {v v' : View}
    (hstep : LifeStep cfg C R v v') (hv : v.RootNotParked) : v'.RootNotParked := by
  cases hstep with
  | create o h hm hs => rintro _ ⟨⟩ -; rcases hs with hs | hs <;> simp [hs]
  | amend o o' h ha | restate o o' h ha =>
    rintro _ ⟨⟩
    rw [ha.parentId, ha.status]
    exact hv o h
  | park o h hs hchild => rintro _ ⟨⟩ hroot; exact absurd hroot hchild
  | release | trigger | cancel => rintro _ ⟨⟩ -; simp
  | fill o price => rintro _ ⟨⟩ -; simp [SimulatedOrder.filledAt]

theorem rootNotParked_runFrom (cfg : SimOrderConfig) (ops : List Op) (k : Int32) :
    ((runFrom cfg ops).view k).RootNotParked := by
  have h := inv_run (step cfg) (I := fun s => Sound s ∧ (s.view k).RootNotParked)
    (s := .new cfg) ?_ ⟨sound_new cfg, fun o ho => (Option.some_ne_none _ ho.symm).elim⟩ ops
  · exact h.2
  · rintro s op ⟨hs, hk⟩
    exact ⟨sound_step hs op, inv_of_path (I := View.RootNotParked)
      (fun _ _ h => h.rootNotParked) (life_step_any cfg hs op k) hk⟩

/-- A parentless order that has been released is working until it is terminal. -/
theorem root_working {ops : List Op} {k : Int32} {o : SimulatedOrder}
    (ho : (runFrom cfg ops).orders.get? k = some o) (hroot : o.parentId = none)
    (hheld : o.status ≠ .held) : o.status = .working ∨ o.status.isTerminal = true := by
  have hparked := rootNotParked_runFrom cfg ops k o ho hroot
  have hunfinished := ((sound_runFrom cfg ops).wellKept ho).ne_partiallyFilled
  cases hst : o.status <;> simp_all [SimOrderStatus.isTerminal]

/-- The held children of an order that is transmitted: their limits work when the order fills at
    once, their stops wait for their trigger in any case. -/
theorem children_of_activated {live : Live} {s : SimState} (hs : Sound s) {spec : OrderSpec}
    (hacc : Accepts cfg s spec) (ht : spec.transmit = true) {p : SimulatedOrder}
    (hp : (s.admitted spec).orders.get? spec.target = some p) (hheld : p.status = .held)
    {k : Int32} (hk : k ∈ ((s.admitted spec).bracketLinks spec.target).getD [])
    (hne : k ≠ spec.target) {o : SimulatedOrder} (ho : (s.admitted spec).orders.get? k = some o)
    (hoheld : o.status = .held) :
    ∃ o', (step cfg s (.place live spec)).orders.get? k = some o' ∧
      o'.status = if fillsOnEntry cfg p && !waitsForStop o then .working else .triggered := by
  have hf : p.filledQty = 0 :=
    ((sound_admitted hacc hs).wellKept hp).filledQty_eq (by simp [hheld])
  obtain ⟨price, hview⟩ := view_activateBracket cfg live hp hheld hf
  have hstep : ((step cfg s (.place live spec)).view k).record =
      (((s.admitted spec).view k).activate (fillsOnEntry cfg p)).record := by
    rw [step, placeOrder_of_accepts hacc, ht, if_pos rfl, hview, if_neg hne, if_pos hk]
  have hrec : ((s.admitted spec).view k).record = some o := ho
  rw [← SimState.view_record, hstep]
  simp only [View.activate, hrec, hoheld, if_true]
  cases fillsOnEntry cfg p && !waitsForStop o with
  | true => exact ⟨_, rfl, rfl⟩
  | false => exact ⟨_, rfl, rfl⟩

/-- A limit order at 150 placed without transmit. -/
def untransmittedLimit : OrderSpec where
  ibOrderId := 1
  symbol := ⟨1, "AAPL"⟩
  quantity := 100
  orderType := .limit
  limitPrice := some 150
  transmit := false

end Midas.Broker
