import HandOfMidas.Lib.Run
import HandOfMidas.Broker.SimRefines

/-! The simulator against the order state machine: the statuses broadcast for an order, from the one
    it was created in, are a path of `validate_transition`, and the last of them is the one stored.
    One step of an order's life after another keeps this, except a `place_order` under the id of an
    order that is neither working nor waiting for its trigger: it reports `Submitted` for an order
    that is not. -/

namespace Midas.Broker

open OrderStatus

variable {cfg : SimOrderConfig}

/-- The status an order was created in: `Rejected` orders were, and never leave it. -/
def SimulatedOrder.createdAs (o : SimulatedOrder) : OrderStatus :=
  if o.status = .rejected then .rejected else .preSubmitted

/-- A status report of an order that is where it is reported to be. -/
def restatedTruly (o : SimulatedOrder) : Prop := o.status = .working ∨ o.status = .triggered

theorem restatedStatus_eq_iff {o : SimulatedOrder} :
    restatedStatus o.status = mapStatus o.status ↔ restatedTruly o := by
  unfold restatedTruly
  cases o.status <;> decide

/-! ### One order -/

/-- The statuses broadcast lead from the one the order was created in to the one stored. -/
def View.Faithful (v : View) : Prop :=
  ∀ o, v.record = some o → Traces Follows o.createdAs v.statuses (mapStatus o.status)

/-- A complete fill is reported as a path from `Submitted` to `Filled`. -/
theorem traces_fillStatuses (q : ℚ) : Traces Follows .submitted (fillStatuses cfg q) .filled := by
  unfold fillStatuses
  cases trancheCount cfg q - 1 with
  | zero => exact (Traces.nil _).snoc (by decide)
  | succ n =>
    have hfirst : Traces Follows .submitted [.partiallyFilled] .partiallyFilled :=
      (Traces.nil _).snoc (by decide)
    have hrest : Traces Follows .partiallyFilled (List.replicate n .partiallyFilled)
        .partiallyFilled := Traces.replicate (by decide) n
    rw [List.replicate_succ, ← List.singleton_append]
    exact (hfirst.append hrest).snoc (by decide)

/-- A live order can be cancelled from whatever status it is in. -/
theorem follows_cancelled {st : SimOrderStatus} (h : st.isTerminal = false) :
    Follows (mapStatus st) .cancelled := by
  cases st <;> first | decide | cases h

theorem LifeStep.faithful {C : SimulatedOrder → Prop} {v v' : View}
    (hstep : LifeStep cfg C restatedTruly v v') (hs : v.Sound) (hf : v.Faithful) : v'.Faithful := by
  -- Steps that move a live order from one live status to another.
  have hmove : ∀ (o : SimulatedOrder) (a b : SimOrderStatus), v.record = some o → o.status = a →
      a ≠ .rejected → b ≠ .rejected → Follows (mapStatus a) (mapStatus b) →
      View.Faithful ⟨some { o with status := b }, v.statuses ++ [mapStatus b]⟩ := by
    rintro o a b h rfl ha hb hab _ ⟨⟩
    have htrace := hf o h
    simp only [SimulatedOrder.createdAs, if_neg ha] at htrace
    simp only [SimulatedOrder.createdAs, if_neg hb]
    exact htrace.snoc hab
  cases hstep with
  | create o h hm hs' hq =>
    rintro _ ⟨⟩
    rw [hs.silent h]
    rcases hs' with hs' | hs' <;> simp only [SimulatedOrder.createdAs, hs'] <;> exact Traces.nil _
  | amend o o' h ha =>
    rintro _ ⟨⟩
    have htrace := hf o h
    simpa only [SimulatedOrder.createdAs, ha.status] using htrace
  | restate o o' h ha hm =>
    rintro _ ⟨⟩
    have htrace := hf o h
    rw [restatedStatus_eq_iff.mpr hm]
    simp only [SimulatedOrder.createdAs, ha.status]
    refine htrace.snoc ⟨?_, Or.inl rfl⟩
    rcases hm with hm | hm <;> rw [hm] <;> decide
  | release o h hs' => exact hmove o .held .working h hs' (by simp) (by simp) (by decide)
  | park o h hs' => exact hmove o .held .triggered h hs' (by simp) (by simp) (by decide)
  | trigger o h hs' => exact hmove o .triggered .working h hs' (by simp) (by simp) (by decide)
  | fill o price h hs' hq =>
    rintro _ ⟨⟩
    have htrace := hf o h
    simp only [SimulatedOrder.createdAs, hs', mapStatus] at htrace
    exact htrace.append (traces_fillStatuses o.quantity)
  | cancel o h hs' =>
    have hne : o.status ≠ .rejected := by rintro hr; rw [hr] at hs'; cases hs'
    exact hmove o o.status .cancelled h rfl hne (by simp) (follows_cancelled hs')

theorem LifeStep.createdAs {C R : SimulatedOrder → Prop} {v v' : View}
    (hstep : LifeStep cfg C R v v') {o : SimulatedOrder} (ho : v.record = some o) :
    ∃ o', v'.record = some o' ∧ o'.createdAs = o.createdAs := by
  cases hstep with
  | create _ h => simp [h] at ho
  | amend _ o' h ha | restate _ o' h ha =>
    rw [ho] at h; cases h; exact ⟨o', rfl, by simp [SimulatedOrder.createdAs, ha.status]⟩
  | release _ h hs | park _ h hs | trigger _ h hs =>
    rw [ho] at h; cases h; exact ⟨_, rfl, by simp [SimulatedOrder.createdAs, hs]⟩
  | fill _ _ h hs =>
    rw [ho] at h; cases h
    exact ⟨_, rfl, by simp [SimulatedOrder.createdAs, SimulatedOrder.filledAt, hs]⟩
  | cancel _ h hs =>
    rw [ho] at h; cases h
    have hne : o.status ≠ .rejected := by rintro hr; rw [hr] at hs; cases hs
    exact ⟨_, rfl, by simp [SimulatedOrder.createdAs, hne]⟩

theorem Life.createdAs {C R : SimulatedOrder → Prop} {v v' : View} (hlife : Life cfg C R v v')
    {o : SimulatedOrder} (ho : v.record = some o) :
    ∃ o', v'.record = some o' ∧ o'.createdAs = o.createdAs := by
  refine inv_of_path (I := fun w => ∃ o', w.record = some o' ∧ o'.createdAs = o.createdAs) ?_
    hlife ⟨o, ho, rfl⟩
  rintro w w' h ⟨o₁, ho₁, hc⟩
  obtain ⟨o₂, ho₂, hc'⟩ := h.createdAs ho₁
  exact ⟨o₂, ho₂, hc'.trans hc⟩

/-! ### One call -/

variable (cfg) in
/-- The records there are stay, created as they were. -/
theorem record_step {s : SimState} (hs : Sound s) (op : Op) {k : Int32} {o : SimulatedOrder}
    (ho : s.orders.get? k = some o) :
    ∃ o', (step cfg s op).orders.get? k = some o' ∧ o'.createdAs = o.createdAs :=
  (life_step_any cfg hs op k).createdAs ho

/-- The history of every order is a path that ends in the status stored. -/
def StatusFaithful (s : SimState) : Prop := ∀ k, (s.view k).Faithful

/-- A `place_order` under the id of an existing order finds it working or waiting for its trigger. -/
def RestatesTruly (s : SimState) (op : Op) : Prop :=
  ∀ live spec o, op = .place live spec → s.orders.get? spec.ibOrderId = some o → restatedTruly o

theorem statusFaithful_step_iff {s : SimState} (op : Op) (hs : Sound s) (hf : StatusFaithful s) :
    StatusFaithful (step cfg s op) ↔ RestatesTruly s op := by
  constructor
  · rintro hf' live spec o rfl ho
    obtain ⟨o', ha, hview⟩ := view_replaceOrder cfg ho live
    have htrace := hf' spec.ibOrderId
    rw [step, hview, if_pos rfl] at htrace
    have hlast := (htrace o' rfl).last
    rw [ha.status, List.getLast_cons (by simp), List.getLast_append_singleton] at hlast
    exact restatedStatus_eq_iff.mp hlast
  · intro hr k
    have hlife := life_step cfg (k := k) (C := fun _ => True) (R := restatedTruly) hs op
      (fun _ _ _ _ _ => trivial) (fun live spec hop hk o ho => hr live spec o hop (hk ▸ ho))
    have h := inv_of_path (I := fun v => v.Sound ∧ v.Faithful)
      (fun v v' h hv => ⟨h.sound hv.1, h.faithful hv.1 hv.2⟩) hlife ⟨hs.views k, hf k⟩
    exact h.2

/-! ### Whole runs -/

/-- In the run `ops` the order `k` was created in the status `first`. -/
def CreatedIn (cfg : SimOrderConfig) (ops : List Op) (k : Int32) (first : OrderStatus) : Prop :=
  ∃ pre live spec, pre ++ [.place live spec] <+: ops ∧ spec.ibOrderId = k ∧
    (runFrom cfg pre).orders.get? k = none ∧ first = mapStatus (SimulatedOrder.ofSpec spec
      (shouldReject cfg ((runFrom cfg pre).orderCount + 1))).status

theorem createdAs_ofSpec (spec : OrderSpec) (b : Bool) :
    (SimulatedOrder.ofSpec spec b).createdAs = mapStatus (SimulatedOrder.ofSpec spec b).status := by
  cases b <;> rfl

variable (cfg) in
/-- A `place_order` under a new id makes a record, created in the status the specification got. -/
theorem createdAs_placeOrder {s : SimState} (hs : Sound s) (live : Live) {spec : OrderSpec}
    (hnew : s.orders.get? spec.ibOrderId = none) :
    ∃ o, (step cfg s (.place live spec)).orders.get? spec.ibOrderId = some o ∧ o.createdAs =
      (SimulatedOrder.ofSpec spec (shouldReject cfg (s.orderCount + 1))).createdAs := by
  cases hrej : shouldReject cfg (s.orderCount + 1) with
  | true =>
    refine ⟨_, ?_, rfl⟩
    rw [← SimState.view_record, step, view_placeOrder_of_reject hnew hrej, if_pos rfl]
  | false =>
    have hacc : Accepts cfg s spec := ⟨hnew, hrej⟩
    have hadm : ((s.admitted spec).view spec.ibOrderId).record = some (.ofSpec spec false) := by
      rw [view_admitted, if_pos rfl]
    rw [step, placeOrder_of_accepts hacc]
    split
    · exact (life_activateBracket cfg (C := fun _ => True) (R := fun _ => True) live spec.target
        (sound_admitted hacc hs) spec.ibOrderId).createdAs hadm
    · exact ⟨_, hadm, rfl⟩

/-- A call makes no record but the one it places. -/
theorem record_of_step {s : SimState} (hs : Sound s) {op : Op} {k : Int32} {o : SimulatedOrder}
    (ho : (step cfg s op).orders.get? k = some o) : (∃ o', s.orders.get? k = some o') ∨
      ∃ live spec, op = .place live spec ∧ spec.ibOrderId = k ∧ s.orders.get? k = none := by
  cases hk : s.orders.get? k with
  | some o' => exact Or.inl ⟨o', rfl⟩
  | none =>
    refine Or.inr ?_
    by_contra hno
    have hlife := life_step cfg (k := k) (C := fun _ => False) (R := fun _ => True) hs op
      (fun live spec hop hid _ => hno ⟨live, spec, hop, hid.symm, rfl⟩) (fun _ _ _ _ _ _ => trivial)
    have hnone := inv_of_path (I := fun v => v.record = none) ?_ hlife hk
    · rw [SimState.view_record, ho] at hnone; cases hnone
    · rintro v v' h hv
      cases h with
      | create _ _ hm => exact hm.elim
      | amend _ _ h | restate _ _ h | release _ h | park _ h | trigger _ h | cancel _ h =>
        rw [hv] at h; cases h
      | fill _ _ h => rw [hv] at h; cases h

theorem createdIn_append (ops : List Op) (op : Op) (k : Int32) (first : OrderStatus) :
    CreatedIn cfg (ops ++ [op]) k first ↔ CreatedIn cfg ops k first ∨
      ∃ live spec, op = .place live spec ∧ spec.ibOrderId = k ∧
        (runFrom cfg ops).orders.get? k = none ∧ first = mapStatus (SimulatedOrder.ofSpec spec
          (shouldReject cfg ((runFrom cfg ops).orderCount + 1))).status := by
  constructor
  · rintro ⟨pre, live, spec, hpre, hrest⟩
    rcases List.prefix_concat_iff.mp hpre with heq | hpre
    · obtain ⟨rfl, hop⟩ := List.append_inj' heq rfl
      cases hop
      exact Or.inr ⟨live, spec, rfl, hrest⟩
    · exact Or.inl ⟨pre, live, spec, hpre, hrest⟩
  · rintro (⟨pre, live, spec, hpre, hrest⟩ | ⟨live, spec, rfl, hrest⟩)
    · exact ⟨pre, live, spec, hpre.trans (List.prefix_append ops [op]), hrest⟩
    · exact ⟨ops, live, spec, List.prefix_rfl, hrest⟩

/-- The records of a reachable state are the orders its run created. -/
theorem createdIn_iff (cfg : SimOrderConfig) (k : Int32) (first : OrderStatus) : ∀ ops : List Op,
    CreatedIn cfg ops k first ↔
      ∃ o, (runFrom cfg ops).orders.get? k = some o ∧ o.createdAs = first := by
  intro ops
  induction ops using List.reverseRecOn with
  | nil =>
    refine iff_of_false ?_ ?_
    · rintro ⟨pre, live, spec, hpre, -⟩
      simp at hpre
    · rintro ⟨o, ho, -⟩
      exact Option.some_ne_none _ ho.symm
  | append_singleton ops op ih =>
    have hs : Sound (runFrom cfg ops) := sound_runFrom cfg ops
    have hrun : runFrom cfg (ops ++ [op]) = step cfg (runFrom cfg ops) op := run_concat ..
    rw [createdIn_append, ih, hrun]
    constructor
    · rintro (⟨o, ho, rfl⟩ | ⟨live, spec, rfl, rfl, hnew, rfl⟩)
      · exact record_step cfg hs op ho
      · obtain ⟨o, ho, hc⟩ := createdAs_placeOrder cfg hs live hnew
        exact ⟨o, ho, hc.trans (createdAs_ofSpec _ _)⟩
    · rintro ⟨o, ho, rfl⟩
      rcases record_of_step hs ho with ⟨o', ho'⟩ | ⟨live, spec, rfl, rfl, hnew⟩
      · obtain ⟨o'', ho'', hc⟩ := record_step cfg hs op ho'
        obtain rfl : o = o'' := Option.some.inj (ho.symm.trans ho'')
        exact Or.inl ⟨o', ho', hc.symm⟩
      · obtain ⟨o'', ho'', hc⟩ := createdAs_placeOrder cfg hs live hnew
        obtain rfl : o = o'' := Option.some.inj (ho.symm.trans ho'')
        exact Or.inr ⟨live, spec, rfl, rfl, hnew, hc.trans (createdAs_ofSpec _ _)⟩

/-- After `ops` the statuses broadcast for `k` are a path of the state machine from `first` to the
    status stored. -/
def StatusPath (cfg : SimOrderConfig) (ops : List Op) (k : Int32) (first : OrderStatus) : Prop :=
  ∃ o, (runFrom cfg ops).orders.get? k = some o ∧
    Traces Follows first (statusesOf k (runFrom cfg ops).orderTx) (mapStatus o.status)

theorem statusPath_iff_statusFaithful (cfg : SimOrderConfig) (ops : List Op) :
    (∀ k first, CreatedIn cfg ops k first → StatusPath cfg ops k first) ↔
      StatusFaithful (runFrom cfg ops) := by
  constructor
  · intro h k o ho
    obtain ⟨o', ho', htrace⟩ := h k _ ((createdIn_iff cfg k _ ops).mpr ⟨o, ho, rfl⟩)
    obtain rfl : o = o' := Option.some.inj (ho.symm.trans ho')
    exact htrace
  · rintro hf k first hcreated
    obtain ⟨o, ho, rfl⟩ := (createdIn_iff cfg k first ops).mp hcreated
    exact ⟨o, ho, hf k o ho⟩

/-- Along any run, after every call the statuses broadcast for every order created so far are a path
    of `validate_transition` from the status it was created in to the one stored, exactly when every
    `place_order` under the id of an existing order finds it working or waiting for its trigger.
    Nothing is ever broadcast for an id that was not placed. -/
theorem status_path_iff (cfg : SimOrderConfig) (ops : List Op) :
    ((∀ pre, pre <+: ops → ∀ k first, CreatedIn cfg pre k first → StatusPath cfg pre k first) ↔
        AllSteps (step cfg) RestatesTruly (.new cfg) ops) ∧
      ∀ k, (runFrom cfg ops).orders.get? k = none → statusesOf k (runFrom cfg ops).orderTx = [] := by
  refine ⟨?_, fun k hk => ((sound_runFrom cfg ops).views k).silent hk⟩
  rw [← allStates_iff_allSteps (step cfg) (Q := StatusFaithful) (fun _ op hs => sound_step hs op)
    (fun _ op hs hf => statusFaithful_step_iff op hs hf) (sound_new cfg)
    (fun _ _ ho => (Option.some_ne_none _ ho.symm).elim) ops]
  exact forall₂_congr fun pre _ => statusPath_iff_statusFaithful cfg pre

/-- A take-profit is placed and held, then placed again with another price. -/
def replacedWhileHeld : List Op :=
  let spec : OrderSpec := { ibOrderId := 1, symbol := ⟨1, "AAPL"⟩, quantity := 100,
                            orderType := .limit, limitPrice := some 150, transmit := false }
  [.place .unpaired spec, .place .unpaired { spec with limitPrice := some 151 }]

theorem replaced_order_reports_submitted : ¬ ∀ (cfg : SimOrderConfig) (ops : List Op) (k : Int32)
    (first : OrderStatus), CreatedIn cfg ops k first → StatusPath cfg ops k first := by
  intro h
  have hstatus : ((runFrom {} replacedWhileHeld).orders.get? 1).map (·.status) = some .held := by
    decide +kernel
  have hsent : statusesOf 1 (runFrom {} replacedWhileHeld).orderTx = [.submitted] := by
    decide +kernel
  obtain ⟨o, ho, hheld⟩ := Option.map_eq_some_iff.mp hstatus
  obtain ⟨o', ho', htrace⟩ :=
    h {} replacedWhileHeld 1 _ ((createdIn_iff {} 1 _ _).mpr ⟨o, ho, rfl⟩)
  obtain rfl : o = o' := Option.some.inj (ho.symm.trans ho')
  have hlast := htrace.last
  simp only [hsent, hheld] at hlast
  cases hlast

end Midas.Broker
