import HandOfMidas.Broker.SimExecutes

/-! One cancels all: of the children of one parent at most one executes. A fill cancels the live
    siblings, but only after the whole pass that filled it has run, so two children that one pass
    picks together both execute; and an activation that fills a child at once cancels nothing. The
    law holds of a run exactly when no call of it executes a child beside a sibling
    (`OneOfBracket`). What always holds: a take-profit that is met keeps a stop-loss of the same
    bracket from executing in the same price step, and a cancelled child never executes. -/

namespace Midas.Broker

variable {cfg : SimOrderConfig}

/-! ### Children are linked under their parents -/

/-- Every child that was not rejected is listed under its parent. -/
def Linked (s : SimState) : Prop :=
  ∀ k o p, s.orders.get? k = some o → o.parentId = some p → o.status ≠ .rejected →
    k ∈ (s.bracketLinks p).getD []

/-- `Linked` of one view, for given links. -/
def View.LinkedIn (links : Int32 → Option (List Int32)) (k : Int32) (v : View) : Prop :=
  ∀ o p, v.record = some o → o.parentId = some p → o.status ≠ .rejected →
    k ∈ (links p).getD []

theorem LifeStep.linkedIn {C R : SimulatedOrder → Prop} {links : Int32 → Option (List Int32)}
    {k : Int32} {v v' : View}
    (hC : ∀ o, C o → ∀ p, o.parentId = some p → o.status ≠ .rejected → k ∈ (links p).getD [])
    (hstep : LifeStep cfg C R v v') (hv : v.LinkedIn links k) : v'.LinkedIn links k := by
  cases hstep with
  | create o h hm => rintro _ p ⟨⟩; exact hC o hm p
  | amend o o' h ha | restate o o' h ha =>
    rintro _ p ⟨⟩
    rw [ha.parentId, ha.status]
    exact hv o p h
  | release o h hs | park o h hs | trigger o h hs =>
    rintro _ p ⟨⟩ hp _
    exact hv o p h hp (by simp [hs])
  | fill o price h hs =>
    rintro _ p ⟨⟩ hp _
    exact hv o p h hp (by simp [hs])
  | cancel o h hs =>
    rintro _ p ⟨⟩ hp _
    exact hv o p h hp (by rintro hr; simp [hr, SimOrderStatus.isTerminal] at hs)

/-- The links only grow. -/
theorem mem_links_step {s : SimState} (hs : Sound s) (op : Op) {k p : Int32}
    (h : k ∈ (s.bracketLinks p).getD []) : k ∈ ((step cfg s op).bracketLinks p).getD [] := by
  rcases bracketLinks_step cfg hs op with he | ⟨live, spec, -, -, he⟩
  · rwa [he]
  · rw [he]; exact mem_links_admitted.mpr (Or.inl h)

theorem linked_step {s : SimState} (op : Op) (hs : Sound s) (hl : Linked s) :
    Linked (step cfg s op) := by
  intro k
  set links := (step cfg s op).bracketLinks with hlinks
  have hlife := life_step cfg (k := k)
    (C := fun o => ∀ p, o.parentId = some p → o.status ≠ .rejected → k ∈ (links p).getD [])
    (R := fun _ => True) hs op ?_ (fun _ _ _ _ _ _ => trivial)
  · exact inv_of_path (I := fun v => v.LinkedIn links k)
      (fun v v' h hv => h.linkedIn (fun o ho => ho) hv) hlife
      fun o p ho hp hst => mem_links_step hs op (hl k o p ho hp hst)
  · -- the order a call creates: it is linked unless it is rejected
    rintro live spec rfl rfl hnew p hp hst
    have hrej : shouldReject cfg (s.orderCount + 1) = false := by
      by_contra hr
      simp [SimulatedOrder.ofSpec, hr] at hst
    have hstep : links = (s.admitted spec).bracketLinks := by
      rw [hlinks, step, bracketLinks_placeOrder_of_accepts ⟨hnew, hrej⟩]
    rw [hstep]
    exact mem_links_admitted.mpr (Or.inr ⟨rfl, hp⟩)

/-- What every reachable state keeps. -/
def Kept (s : SimState) : Prop := Sound s ∧ Linked s

theorem kept_step {s : SimState} (op : Op) (h : Kept s) : Kept (step cfg s op) :=
  ⟨sound_step h.1 op, linked_step op h.1 h.2⟩

theorem kept_runFrom (cfg : SimOrderConfig) (ops : List Op) : Kept (runFrom cfg ops) :=
  inv_run (I := Kept) (step cfg) (fun _ op h => kept_step op h)
    ⟨sound_new cfg, fun _ _ _ h => (Option.some_ne_none _ h.symm).elim⟩ ops

/-! ### At most one of a bracket -/

/-- Of the children of one parent at most one has something filled. -/
def OcaExclusive (s : SimState) : Prop :=
  ∀ a b oa ob p, a ≠ b → s.orders.get? a = some oa → s.orders.get? b = some ob →
    oa.parentId = some p → ob.parentId = some p → ¬ (0 < oa.filledQty ∧ 0 < ob.filledQty)

/-- The call executes no child beside a sibling: neither one that has been filled before, nor one
    that the same call executes too. -/
def OneOfBracket (cfg : SimOrderConfig) (s : SimState) (op : Op) : Prop :=
  ∀ o o' p, Executes cfg s op o → o.parentId = some p → o'.parentId = some p →
    o'.ibOrderId ≠ o.ibOrderId →
    ¬ (s.orders.get? o'.ibOrderId = some o' ∧ 0 < o'.filledQty) ∧ ¬ Executes cfg s op o'

theorem ocaExclusive_step_iff {s : SimState} (op : Op) (hs : Sound s) (hx : OcaExclusive s) :
    OcaExclusive (step cfg s op) ↔ OneOfBracket cfg s op := by
  constructor
  · intro hx' o o' p he hp hp' hne
    obtain ⟨w, hw, hsame⟩ := he.record hs
    have hfill : 0 < w.filledQty :=
      (View.hasFill_iff hw).mp ((hasFill_step cfg hs op _).mpr (Or.inr ⟨o, he, rfl⟩))
    constructor
    · rintro ⟨ho', hpos⟩
      obtain ⟨w', hw', hsame'⟩ := (life_step_any cfg hs op o'.ibOrderId).same ho'
      have hfill' : 0 < w'.filledQty :=
        (View.hasFill_iff hw').mp ((hasFill_step cfg hs op _).mpr (Or.inl ⟨o', ho', hpos⟩))
      exact hx' _ _ w' w p hne hw' hw (hsame'.parentId.trans hp') (hsame.parentId.trans hp)
        ⟨hfill', hfill⟩
    · rintro he'
      obtain ⟨w', hw', hsame'⟩ := he'.record hs
      have hfill' : 0 < w'.filledQty :=
        (View.hasFill_iff hw').mp ((hasFill_step cfg hs op _).mpr (Or.inr ⟨o', he', rfl⟩))
      exact hx' _ _ w' w p hne hw' hw (hsame'.parentId.trans hp') (hsame.parentId.trans hp)
        ⟨hfill', hfill⟩
  · rintro hone a b wa wb p hne ha hb hpa hpb ⟨hfa, hfb⟩
    -- each of the two was filled before, or executes now
    have hcases : ∀ k w, (step cfg s op).orders.get? k = some w → 0 < w.filledQty →
        w.parentId = some p → ∃ o, o.ibOrderId = k ∧ o.parentId = some p ∧
          ((s.orders.get? k = some o ∧ 0 < o.filledQty) ∨ Executes cfg s op o) := by
      intro k w hw hpos hp
      rcases (hasFill_step cfg hs op k).mp ⟨w, hw, hpos⟩ with ⟨o, ho, hpos'⟩ | ⟨o, he, rfl⟩
      · obtain ⟨w', hw', hsame⟩ := (life_step_any cfg hs op k).same ho
        obtain rfl : w = w' := Option.some.inj (hw.symm.trans hw')
        exact ⟨o, Store.key_of_get? ho, hsame.parentId.symm.trans hp, Or.inl ⟨ho, hpos'⟩⟩
      · obtain ⟨w', hw', hsame⟩ := he.record hs
        obtain rfl : w = w' := Option.some.inj (hw.symm.trans hw')
        exact ⟨o, rfl, hsame.parentId.symm.trans hp, Or.inr he⟩
    obtain ⟨oa, rfl, hpa', ha'⟩ := hcases a wa ha hfa hpa
    obtain ⟨ob, rfl, hpb', hb'⟩ := hcases b wb hb hfb hpb
    rcases ha' with ha' | ha'
    · rcases hb' with hb' | hb'
      · exact hx _ _ oa ob p hne ha'.1 hb'.1 hpa' hpb' ⟨ha'.2, hb'.2⟩
      · exact (hone ob oa p hb' hpb' hpa' hne).1 ha'
    · rcases hb' with hb' | hb'
      · exact (hone oa ob p ha' hpa' hpb' hne.symm).1 hb'
      · exact (hone oa ob p ha' hpa' hpb' hne.symm).2 hb'

/-! ### What always holds -/

/-- A sibling of a limit order that is met is cancelled by it. -/
theorem limitOca_of_sibling {s : SimState} (hl : Linked s) {symbol : String} {price : ℚ}
    {oa ob : SimulatedOrder} {a b p : Int32} (hne : a ≠ b) (ha : s.orders.get? a = some oa)
    (hb : s.orders.get? b = some ob) (hpa : oa.parentId = some p) (hpb : ob.parentId = some p)
    (hmet : (limitFill? symbol price oa).isSome) (hst : ob.status ≠ .rejected) :
    LimitOca s symbol price b := by
  refine ⟨oa, Store.mem_of_get? ha, hmet, ?_⟩
  have hlinked := hl b ob p hb hpb hst
  simp [siblingsOf, Store.key_of_get? ha, ha, hpa, hlinked, hne.symm]

/-- A price step that meets a take-profit executes no stop of the same bracket. -/
theorem stop_not_executed {s : SimState} (hk : Kept s) {limits stops : Visit} {symbol : String}
    {price : ℚ} {oa ob : SimulatedOrder} {a b p : Int32} (ha : s.orders.get? a = some oa)
    (hb : s.orders.get? b = some ob) (hpa : oa.parentId = some p) (hpb : ob.parentId = some p)
    (hmet : (limitFill? symbol price oa).isSome) (hhit : (stopHit? symbol price ob).isSome) :
    ¬ ((step cfg s (.setMarketPrice limits stops symbol price)).view b).HasFill := by
  obtain ⟨j, hj⟩ := Option.isSome_iff_exists.mp hhit
  obtain ⟨q, hq⟩ := Option.isSome_iff_exists.mp hmet
  have htrig := (stopHit?_eq_some hj).2.1
  have hwork := (limitFill?_eq_some hq).2.1
  have hne : a ≠ b := by
    rintro rfl
    rw [ha] at hb; cases hb; simp [hwork] at htrig
  rw [hasFill_step cfg hk.1]
  rintro (⟨o, ho, hpos⟩ | ⟨o, ⟨ho, _, hexec⟩, rfl⟩)
  · rw [SimState.view_record, hb] at ho; cases ho
    rw [(hk.1.wellKept hb).filledQty_eq (by simp [htrig])] at hpos
    exact lt_irrefl _ hpos
  · obtain rfl : o = ob := Option.some.inj (ho.symm.trans hb)
    rcases hexec with hpick | ⟨_, _, hoca⟩
    · obtain ⟨r, hr⟩ := Option.isSome_iff_exists.mp hpick
      simp [(limitFill?_eq_some hr).2.1] at htrig
    · exact hoca (limitOca_of_sibling hk.2 hne ha hb hpa hpb hmet (by simp [htrig]))

variable (cfg) in
/-- Once terminal, an order keeps its status and its fills to the end of every run. -/
theorem terminal_run {s : SimState} (hs : Sound s) {k : Int32} {o : SimulatedOrder}
    (ho : s.orders.get? k = some o) (ht : o.status.isTerminal = true) (ops : List Op) :
    ∃ o', (run (step cfg) s ops).orders.get? k = some o' ∧ o'.status = o.status ∧
      o'.filledQty = o.filledQty := by
  have h := inv_run (step cfg) (I := fun s => Sound s ∧ ∃ o', s.orders.get? k = some o' ∧
    o'.status = o.status ∧ o'.filledQty = o.filledQty) ?_ ⟨hs, o, ho, rfl, rfl⟩ ops
  · exact h.2
  · rintro s op ⟨hs, o₁, ho₁, hst, hfq⟩
    obtain ⟨o₂, ho₂, hst', hfq'⟩ :=
      (life_step_any cfg hs op k).terminal ho₁ (by rw [hst]; exact ht)
    exact ⟨sound_step hs op, o₂, ho₂, hst'.trans hst, hfq'.trans hfq⟩

/-- Along any run at most one child of each parent executes exactly when no call executes a child
    beside a sibling. In every run, a price step that meets a take-profit and hits a stop-loss of one
    bracket leaves the stop-loss unfilled, and a cancelled child stays unfilled. -/
theorem oca_exclusive_iff (cfg : SimOrderConfig) (ops : List Op) :
    (AllStates (step cfg) OcaExclusive (.new cfg) ops ↔
        AllSteps (step cfg) (OneOfBracket cfg) (.new cfg) ops) ∧
      (∀ limits stops symbol price a b oa ob p,
        (runFrom cfg ops).orders.get? a = some oa → (runFrom cfg ops).orders.get? b = some ob →
        oa.parentId = some p → ob.parentId = some p →
        (limitFill? symbol price oa).isSome → (stopHit? symbol price ob).isSome →
        ¬ ((step cfg (runFrom cfg ops) (.setMarketPrice limits stops symbol price)).view b).HasFill) ∧
      (∀ k o ops', (runFrom cfg ops).orders.get? k = some o → o.status = .cancelled →
        ∃ o', (runFrom cfg (ops ++ ops')).orders.get? k = some o' ∧ o'.status = .cancelled ∧
          o'.filledQty = 0) := by
  have hk := kept_runFrom cfg ops
  refine ⟨?_, ?_, ?_⟩
  · exact allStates_iff_allSteps (step cfg) (fun _ op hs => sound_step hs op)
      (fun _ op hs hx => ocaExclusive_step_iff op hs hx) (sound_new cfg)
      (fun _ _ _ _ _ _ ho => (Option.some_ne_none _ ho.symm).elim) ops
  · intro limits stops symbol price a b oa ob p ha hb hpa hpb hmet hhit
    exact stop_not_executed hk ha hb hpa hpb hmet hhit
  · intro k o ops' ho hst
    obtain ⟨o', ho', hst', hfq⟩ := terminal_run cfg hk.1 ho (by simp [hst,
      SimOrderStatus.isTerminal]) ops'
    refine ⟨o', ?_, hst'.trans hst, ?_⟩
    · rw [runFrom, run_append]; exact ho'
    · rw [hfq, (hk.1.wellKept ho).filledQty_eq (by simp [hst])]

/-- A market entry with two take-profits, at 160 and at 170, and a price of 175 that meets both. -/
def twoTakeProfits : List Op :=
  let buy : OrderSpec := { symbol := ⟨1, "AAPL"⟩, quantity := 100, transmit := false }
  let sell : OrderSpec := { buy with action := .sell, orderType := .limit, parentId := some 1 }
  [.place .unpaired { buy with ibOrderId := 1 },
    .place .unpaired { sell with ibOrderId := 2, limitPrice := some 160 },
    .place .unpaired { sell with ibOrderId := 3, limitPrice := some 170, transmit := true },
    .setMarketPrice .asStored .asStored "AAPL" 175]

theorem two_children_execute : ¬ ∀ (cfg : SimOrderConfig) (ops : List Op),
    AllStates (step cfg) OcaExclusive (.new cfg) ops := by
  intro h
  have hx : OcaExclusive (runFrom {} twoTakeProfits) := (h {} twoTakeProfits).last
  have hfilled : ∀ k : Int32, k = 2 ∨ k = 3 → ((runFrom {} twoTakeProfits).orders.get? k).map
      (fun o => (o.parentId, o.filledQty)) = some (some 1, 100) := by
    rintro k (rfl | rfl) <;> decide +kernel
  obtain ⟨oa, ha, hfa⟩ := Option.map_eq_some_iff.mp (hfilled 2 (Or.inl rfl))
  obtain ⟨ob, hb, hfb⟩ := Option.map_eq_some_iff.mp (hfilled 3 (Or.inr rfl))
  obtain ⟨hpa, hqa⟩ := Prod.mk.inj hfa
  obtain ⟨hpb, hqb⟩ := Prod.mk.inj hfb
  exact hx 2 3 oa ob 1 (by decide) ha hb hpa hpb ⟨by rw [hqa]; norm_num, by rw [hqb]; norm_num⟩

end Midas.Broker
