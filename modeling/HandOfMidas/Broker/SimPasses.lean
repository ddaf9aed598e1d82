import HandOfMidas.Broker.SimViews

/-! The price step, pass by pass, and the activation of a bracket, as equations on views: the order
    named is released and, when it is a market order and fills are instant, filled; then its held
    children are released or parked. -/

namespace Midas.Broker

variable (cfg : SimOrderConfig)

/-- Between two calls every view is sound, and what is linked under a parent is a child of it. -/
structure Sound (s : SimState) : Prop where
  views : ∀ k, (s.view k).Sound
  children : ∀ k p, k ∈ (s.bracketLinks p).getD [] →
    (s.orders.get? k).bind (·.parentId) = some p

theorem Sound.wellKept {s : SimState} (hs : Sound s) {k : Int32} {o : SimulatedOrder}
    (h : s.orders.get? k = some o) : o.WellKept :=
  (hs.views k).wellKept o h

/-! ### The limit pass -/

theorem limitFill?_eq_some {symbol : String} {price : ℚ} {o : SimulatedOrder} {p : Int32 × ℚ}
    (h : limitFill? symbol price o = some p) :
    p.1 = o.ibOrderId ∧ o.status = .working ∧ o.orderType = .limit := by
  unfold limitFill? at h
  split at h
  · rename_i hc
    obtain ⟨limit, _, hp⟩ := Option.bind_eq_some_iff.mp h
    split at hp
    · cases hp; exact ⟨rfl, hc.2⟩
    · cases hp
  · cases h

/-- What the limit pass does to the view of an order that no sibling's fill cancels. -/
def View.limit (symbol : String) (price : ℚ) (v : View) : View :=
  match v.record.bind (limitFill? symbol price) with
  | some p => v.fill cfg p.2
  | none => v

/-- A limit order whose limit is met cancels `k`. -/
def LimitOca (s : SimState) (symbol : String) (price : ℚ) (k : Int32) : Prop :=
  ∃ o ∈ s.orders.items, (limitFill? symbol price o).isSome ∧ k ∈ siblingsOf s o.ibOrderId

instance (s : SimState) (symbol : String) (price : ℚ) (k : Int32) :
    Decidable (LimitOca s symbol price k) :=
  inferInstanceAs (Decidable (∃ o ∈ s.orders.items, _))

theorem View.fill_parent (price : ℚ) (v : View) :
    (v.fill cfg price).record.bind (·.parentId) = v.record.bind (·.parentId) := by
  unfold View.fill
  split
  · rename_i o h
    split
    · simp [h, SimulatedOrder.filledAt]
    · rfl
  · rfl

/-- An order that has nothing filled is ready for the fill loop of a pass. -/
def View.Unfilled (v : View) : Prop := ∃ o, v.record = some o ∧ o.filledQty = 0

/-- The step of the fill loop of `check_limit_fills`. -/
def limitFillStep (s : SimState) (p : Int32 × ℚ) : SimState :=
  match s.orders.get? p.1 with
  | some o => executeFill cfg p.1 (o.quantity - o.filledQty) p.2 s
  | none => s

theorem view_limitFillStep {s : SimState} {p : Int32 × ℚ} (h : (s.view p.1).Unfilled) (k : Int32) :
    (limitFillStep cfg s p).view k = if k = p.1 then (s.view k).fill cfg p.2 else s.view k := by
  obtain ⟨o, ho, hf⟩ := h
  rw [SimState.view_record] at ho
  simp only [limitFillStep, ho]
  exact view_executeFill cfg p.2 ho hf (by rw [hf, sub_zero]) k

theorem view_limitFillStep_of_ne {s : SimState} {p : Int32 × ℚ} {k : Int32}
    (h : (s.view p.1).Unfilled) (hk : k ≠ p.1) : (limitFillStep cfg s p).view k = s.view k :=
  (view_limitFillStep cfg h k).trans (if_neg hk)

theorem limitFillStep_bracketLinks (s : SimState) (p : Int32 × ℚ) :
    (limitFillStep cfg s p).bracketLinks = s.bracketLinks := by
  unfold limitFillStep
  split
  · exact executeFill_bracketLinks cfg _ _ _ s
  · rfl

theorem bracketLinks_foldl_limitFillStep : ∀ (ps : List (Int32 × ℚ)) (s : SimState),
    (ps.foldl (limitFillStep cfg) s).bracketLinks = s.bracketLinks
  | [], _ => rfl
  | p :: ps, s =>
    (bracketLinks_foldl_limitFillStep ps _).trans (limitFillStep_bracketLinks cfg s p)

section LimitPass

variable (visit : Visit) (symbol : String) (price : ℚ) {s : SimState} (hs : Sound s)

/-- The orders the limit pass picks. -/
def limitPicks (s : SimState) : List (Int32 × ℚ) :=
  (visit.order s.orders.items).filterMap (limitFill? symbol price)

theorem mem_limitPicks {p : Int32 × ℚ} : p ∈ limitPicks visit symbol price s ↔
    (s.orders.get? p.1).bind (limitFill? symbol price) = some p :=
  Store.mem_filterMap_iff (visit.perm _) Prod.fst fun _ _ h => (limitFill?_eq_some h).1

theorem nodup_limitPicks : ((limitPicks visit symbol price s).map Prod.fst).Nodup :=
  nodup_filterMap_key (fun _ _ h => (limitFill?_eq_some h).1)
    (Store.nodup_keys_of_perm (visit.perm s.orders.items))

include hs

theorem limitPicks_unfilled : ∀ p ∈ limitPicks visit symbol price s, (s.view p.1).Unfilled := by
  rintro p hp
  obtain ⟨o, ho, hpick⟩ := Option.bind_eq_some_iff.mp ((mem_limitPicks visit symbol price).mp hp)
  refine ⟨o, ho, (hs.wellKept ho).filledQty_eq ?_⟩
  simp [(limitFill?_eq_some hpick).2.1]

theorem view_limitFills (k : Int32) :
    ((limitPicks visit symbol price s).foldl (limitFillStep cfg) s).view k =
      (s.view k).limit cfg symbol price := by
  have hne := fun s p k => view_limitFillStep_of_ne cfg (s := s) (p := p) (k := k)
  have hready := limitPicks_unfilled visit symbol price hs
  unfold View.limit
  rw [SimState.view_record]
  cases h : (s.orders.get? k).bind (limitFill? symbol price) with
  | some p =>
    obtain ⟨o, ho, hpick⟩ := Option.bind_eq_some_iff.mp h
    have hk : p.1 = k := (limitFill?_eq_some hpick).1.trans (Store.key_of_get? ho)
    subst hk
    exact foldl_own_of_mem SimState.view Prod.fst (fun _ => View.Unfilled)
      (g := fun p v => v.fill cfg p.2)
      (fun s p h => (view_limitFillStep cfg h p.1).trans (if_pos rfl)) hne _ s
      (nodup_limitPicks visit symbol price) hready ((mem_limitPicks visit symbol price).mpr h)
  | none =>
    refine foldl_own_of_not_mem SimState.view Prod.fst (fun _ => View.Unfilled) hne _ s
      (nodup_limitPicks visit symbol price) hready ?_
    rintro hmem
    obtain ⟨p, hp, rfl⟩ := List.mem_map.mp hmem
    rw [mem_limitPicks, h] at hp
    cases hp

theorem sameFamily_limitFills :
    SameFamily s ((limitPicks visit symbol price s).foldl (limitFillStep cfg) s) := by
  refine ⟨fun k => ?_, bracketLinks_foldl_limitFillStep cfg _ s⟩
  rw [← SimState.view_record, ← SimState.view_record, view_limitFills cfg visit symbol price hs]
  unfold View.limit
  split
  · exact View.fill_parent cfg _ _
  · rfl

/-- The limit pass: each order whose limit is met is filled, then its live siblings are cancelled. -/
theorem view_checkLimitFills (k : Int32) :
    (checkLimitFills cfg visit symbol price s).view k =
      if LimitOca s symbol price k then ((s.view k).limit cfg symbol price).cancel
      else (s.view k).limit cfg symbol price := by
  have hfold : checkLimitFills cfg visit symbol price s =
      ((limitPicks visit symbol price s).map Prod.fst).foldl (fun s id => checkOcaInner id s)
        ((limitPicks visit symbol price s).foldl (limitFillStep cfg) s) := by
    rw [List.foldl_map]; rfl
  rw [hfold, view_foldl_checkOca, view_limitFills cfg visit symbol price hs]
  refine if_congr ?_ rfl rfl
  have hfam := sameFamily_limitFills cfg visit symbol price hs
  constructor
  · rintro ⟨j, hj, hk⟩
    obtain ⟨p, hp, rfl⟩ := List.mem_map.mp hj
    obtain ⟨o, ho, hpick⟩ := Option.bind_eq_some_iff.mp ((mem_limitPicks visit symbol price).mp hp)
    rw [hfam.siblingsOf] at hk
    refine ⟨o, Store.mem_of_get? ho, by simp [hpick], ?_⟩
    rwa [← (limitFill?_eq_some hpick).1]
  · rintro ⟨o, ho, hpick, hk⟩
    obtain ⟨p, hp⟩ := Option.isSome_iff_exists.mp hpick
    have hid := (limitFill?_eq_some hp).1
    refine ⟨p.1, List.mem_map_of_mem ((mem_limitPicks visit symbol price).mpr ?_), ?_⟩
    · rw [hid, Store.get?_of_mem ho, Option.bind_some, hp]
    · rw [hfam.siblingsOf, hid]; exact hk

theorem sameFamily_checkLimitFills : SameFamily s (checkLimitFills cfg visit symbol price s) := by
  refine (sameFamily_limitFills cfg visit symbol price hs).trans ?_
  have h := sameFamily_foldl_checkOca ((limitPicks visit symbol price s).map Prod.fst)
    ((limitPicks visit symbol price s).foldl (limitFillStep cfg) s)
  rwa [List.foldl_map] at h

end LimitPass

/-! ### The stop pass -/

theorem stopHit?_eq_some {symbol : String} {price : ℚ} {o : SimulatedOrder} {id : Int32}
    (h : stopHit? symbol price o = some id) :
    id = o.ibOrderId ∧ o.status = .triggered ∧ (o.orderType = .stop ∨ o.orderType = .stopLimit) := by
  unfold stopHit? at h
  split at h
  · rename_i hc
    obtain ⟨stop, _, hp⟩ := Option.bind_eq_some_iff.mp h
    split at hp
    · cases hp; exact ⟨rfl, hc.2⟩
    · cases hp
  · cases h

/-- The price at which an order whose stop is hit fills at once, if it does: a stop at the market, a
    stop-limit at its limit when that is met too. -/
def stopFill? (newPrice : ℚ) (o : SimulatedOrder) : Option ℚ :=
  if o.orderType = .stop then some (marketFillPrice cfg newPrice o.action)
  else o.limitPrice.bind fun limit => if limitMet newPrice limit o.action then some limit else none

/-- What being triggered does to the view of an order. -/
def View.trigger (price : ℚ) (v : View) : View :=
  match v.record with
  | some o =>
    let v' : View := ⟨some { o with status := .working }, v.statuses ++ [.submitted]⟩
    match stopFill? cfg price o with
    | some p => v'.fill cfg p
    | none => v'
  | none => v

/-- What the stop pass does to the view of an order that no sibling's fill cancels. -/
def View.stop (symbol : String) (price : ℚ) (v : View) : View :=
  if (v.record.bind (stopHit? symbol price)).isSome then v.trigger cfg price else v

/-- A stop order that is hit and fills cancels `k`. -/
def StopOca (s : SimState) (symbol : String) (price : ℚ) (k : Int32) : Prop :=
  ∃ o ∈ s.orders.items, ((stopHit? symbol price o).isSome ∧ (stopFill? cfg price o).isSome) ∧
    k ∈ siblingsOf s o.ibOrderId

instance (s : SimState) (symbol : String) (price : ℚ) (k : Int32) :
    Decidable (StopOca cfg s symbol price k) :=
  inferInstanceAs (Decidable (∃ o ∈ s.orders.items, _))

/-- The state once a triggered order is released and its status sent, before any fill. -/
def SimState.released (s : SimState) (id : Int32) (o : SimulatedOrder) : SimState :=
  (s.setOrder { o with status := .working }).send
    (.statusChanged id .submitted o.filledQty (o.quantity - o.filledQty) 0)

/-- One turn of the trigger loop, with the two kinds of stop told apart by `stopFill?`. -/
theorem triggerStop_eq {price : ℚ} {acc : SimState × List Int32} {id : Int32} {o : SimulatedOrder}
    (ho : acc.1.orders.get? id = some o) : triggerStop cfg price acc id =
      match stopFill? cfg price o with
      | some p =>
        (executeFill cfg id (o.quantity - o.filledQty) p (acc.1.released id o), acc.2 ++ [id])
      | none => (acc.1.released id o, acc.2) := by
  simp only [triggerStop, ho, stopFill?]
  by_cases hstop : o.orderType = .stop
  · simp [hstop, SimState.released]
  · cases hl : o.limitPrice with
    | none => simp [hstop, hl, SimState.released]
    | some limit =>
      cases hm : limitMet price limit o.action <;> simp [hstop, hl, hm, SimState.released]

/-- The trigger loop rewrites the order it looks at, and no other. -/
theorem view_triggerStop {price : ℚ} {acc : SimState × List Int32} {id : Int32} {o : SimulatedOrder}
    (ho : acc.1.orders.get? id = some o) (hf : o.filledQty = 0) (k : Int32) :
    (triggerStop cfg price acc id).1.view k =
      if k = id then (acc.1.view k).trigger cfg price else acc.1.view k := by
  have hid : o.ibOrderId = id := Store.key_of_get? ho
  have hview : ∀ k, (acc.1.released id o).view k = if k = id then
      ⟨some { o with status := .working }, (acc.1.view k).statuses ++ [.submitted]⟩
      else acc.1.view k :=
    fun k => view_restatus (o := { o with status := .working }) acc.1 hid _ _ _ _ k
  have ho' : (acc.1.released id o).orders.get? id = some { o with status := .working } := by
    rw [← SimState.view_record, hview, if_pos rfl]
  rw [triggerStop_eq cfg ho]
  cases hp : stopFill? cfg price o with
  | none =>
    rw [hview]
    refine if_ctx_congr Iff.rfl (fun hk => ?_) (fun _ => rfl)
    simp [View.trigger, hk, ho, hp]
  | some p =>
    rw [view_executeFill cfg p ho' hf (by rw [hf, sub_zero]), hview]
    refine if_ctx_congr Iff.rfl (fun hk => ?_) (fun hk => if_neg hk)
    simp [View.trigger, hk, ho, hp]

theorem mem_triggerStop {price : ℚ} {acc : SimState × List Int32} {id : Int32} {o : SimulatedOrder}
    (ho : acc.1.orders.get? id = some o) (k : Int32) :
    k ∈ (triggerStop cfg price acc id).2 ↔
      k ∈ acc.2 ∨ k = id ∧ (stopFill? cfg price o).isSome := by
  rw [triggerStop_eq cfg ho]
  cases hp : stopFill? cfg price o <;> simp

theorem triggerStop_bracketLinks (price : ℚ) (acc : SimState × List Int32) (id : Int32) :
    (triggerStop cfg price acc id).1.bracketLinks = acc.1.bracketLinks := by
  cases ho : acc.1.orders.get? id with
  | none => simp [triggerStop, ho]
  | some o =>
    rw [triggerStop_eq cfg ho]
    cases stopFill? cfg price o with
    | none => rfl
    | some p => exact executeFill_bracketLinks cfg _ _ _ _

theorem bracketLinks_foldl_triggerStop (price : ℚ) : ∀ (ids : List Int32) acc,
    (ids.foldl (triggerStop cfg price) acc).1.bracketLinks = acc.1.bracketLinks
  | [], _ => rfl
  | id :: ids, acc =>
    (bracketLinks_foldl_triggerStop price ids _).trans (triggerStop_bracketLinks cfg price acc id)

theorem View.trigger_parent (price : ℚ) (v : View) :
    (v.trigger cfg price).record.bind (·.parentId) = v.record.bind (·.parentId) := by
  unfold View.trigger
  split
  · rename_i o h
    dsimp only
    split
    · rw [View.fill_parent, h]; rfl
    · rw [h]; rfl
  · rfl

section StopPass

variable (visit : Visit) (symbol : String) (price : ℚ) {s : SimState} (hs : Sound s)

/-- The orders the stop pass picks. -/
def stopPicks (s : SimState) : List Int32 :=
  (visit.order s.orders.items).filterMap (stopHit? symbol price)

theorem mem_stopPicks {id : Int32} : id ∈ stopPicks visit symbol price s ↔
    (s.orders.get? id).bind (stopHit? symbol price) = some id :=
  Store.mem_filterMap_iff (visit.perm _) (fun j => j) fun _ _ h => (stopHit?_eq_some h).1

theorem nodup_stopPicks : ((stopPicks visit symbol price s).map fun j => j).Nodup :=
  nodup_filterMap_key (fun _ _ h => (stopHit?_eq_some h).1)
    (Store.nodup_keys_of_perm (visit.perm s.orders.items))

theorem get_stopPicks {id : Int32} (h : id ∈ stopPicks visit symbol price s) :
    ∃ o, s.orders.get? id = some o ∧ (stopHit? symbol price o).isSome := by
  obtain ⟨o, ho, hp⟩ := Option.bind_eq_some_iff.mp ((mem_stopPicks visit symbol price).mp h)
  exact ⟨o, ho, by simp [hp]⟩

theorem mem_stopPicks_of_hit {id : Int32} {o : SimulatedOrder} (ho : s.orders.get? id = some o)
    (h : (stopHit? symbol price o).isSome) : id ∈ stopPicks visit symbol price s := by
  obtain ⟨j, hj⟩ := Option.isSome_iff_exists.mp h
  rw [mem_stopPicks, ho, Option.bind_some, hj, (stopHit?_eq_some hj).1, Store.key_of_get? ho]

include hs

theorem stopPicks_unfilled :
    ∀ id ∈ stopPicks visit symbol price s, (s.view id).Unfilled := by
  rintro id hid
  obtain ⟨o, ho, hp⟩ := get_stopPicks visit symbol price hid
  obtain ⟨j, hj⟩ := Option.isSome_iff_exists.mp hp
  refine ⟨o, ho, (hs.wellKept ho).filledQty_eq ?_⟩
  simp [(stopHit?_eq_some hj).2.1]

/-- The trigger loop: what it leaves under each id, and which ids it lists as filled. -/
theorem triggerLoop_spec (k : Int32) :
    let acc := (stopPicks visit symbol price s).foldl (triggerStop cfg price) (s, [])
    acc.1.view k = (s.view k).stop cfg symbol price ∧
      (k ∈ acc.2 ↔ ∃ o, s.orders.get? k = some o ∧ (stopHit? symbol price o).isSome ∧
        (stopFill? cfg price o).isSome) := by
  intro acc
  let get : SimState × List Int32 → Int32 → View × Bool := fun acc k => (acc.1.view k, k ∈ acc.2)
  let ready : Int32 → View × Bool → Prop := fun _ b => b.1.Unfilled
  have hne : ∀ acc id k, ready id (get acc id) → k ≠ id →
      get (triggerStop cfg price acc id) k = get acc k := by
    rintro acc id k ⟨o, ho, hf⟩ hk
    refine Prod.ext ?_ ?_
    · exact (view_triggerStop cfg ho hf k).trans (if_neg hk)
    · simp [get, mem_triggerStop cfg ho, hk]
  have hready : ∀ id ∈ stopPicks visit symbol price s, ready id (get (s, []) id) :=
    stopPicks_unfilled visit symbol price hs
  have hnd := nodup_stopPicks (s := s) visit symbol price
  by_cases hmem : k ∈ stopPicks visit symbol price s
  · obtain ⟨o, ho, hhit⟩ := get_stopPicks visit symbol price hmem
    have h := foldl_own_of_mem get (fun j => j) ready (g := fun _ b =>
        (b.1.trigger cfg price, b.2 || (b.1.record.bind (stopFill? cfg price)).isSome)) ?_ hne
      _ (s, []) hnd hready hmem
    · have h1 : acc.1.view k = (s.view k).trigger cfg price := congrArg Prod.fst h
      have h2 := congrArg Prod.snd h
      refine ⟨h1.trans ?_, ?_⟩
      · simp [View.stop, ho, hhit]
      · have h3 : decide (k ∈ acc.2) = (stopFill? cfg price o).isSome := by
          simpa [get, ho, acc] using h2
        rw [← decide_eq_true_iff (p := k ∈ acc.2), h3]
        simp [ho, hhit]
    · rintro acc id ⟨o, ho, hf⟩
      refine Prod.ext ?_ ?_
      · exact (view_triggerStop cfg ho hf id).trans (if_pos rfl)
      · rw [SimState.view_record] at ho
        simp [get, mem_triggerStop cfg ho, ho]
  · have h := foldl_own_of_not_mem get (fun j => j) ready hne (k := k) _ (s, []) hnd hready
      (by simpa using hmem)
    have h1 : acc.1.view k = s.view k := congrArg Prod.fst h
    have h2 := congrArg Prod.snd h
    have hnot : ∀ o, s.orders.get? k = some o → ¬ (stopHit? symbol price o).isSome :=
      fun o ho hhit => hmem (mem_stopPicks_of_hit visit symbol price ho hhit)
    refine ⟨h1.trans ?_, ?_⟩
    · rw [View.stop, if_neg]
      rintro hhit
      obtain ⟨j, hj⟩ := Option.isSome_iff_exists.mp hhit
      obtain ⟨o, ho, hj⟩ := Option.bind_eq_some_iff.mp hj
      exact hnot o ho (by simp [hj])
    · have h3 : k ∉ acc.2 := by simpa [get, acc] using h2
      refine ⟨fun h => absurd h h3, ?_⟩
      rintro ⟨o, ho, hhit, -⟩
      exact absurd hhit (hnot o ho)

theorem sameFamily_triggerLoop :
    SameFamily s ((stopPicks visit symbol price s).foldl (triggerStop cfg price) (s, [])).1 := by
  refine ⟨fun k => ?_, bracketLinks_foldl_triggerStop cfg price _ _⟩
  rw [← SimState.view_record, ← SimState.view_record,
    (triggerLoop_spec cfg visit symbol price hs k).1]
  unfold View.stop
  split
  · exact View.trigger_parent cfg _ _
  · rfl

/-- The stop pass: each order whose stop is hit is triggered, and filled if it can be, then the live
    siblings of those filled are cancelled. -/
theorem view_checkStopTriggers (k : Int32) :
    (checkStopTriggers cfg visit symbol price s).view k =
      if StopOca cfg s symbol price k then ((s.view k).stop cfg symbol price).cancel
      else (s.view k).stop cfg symbol price := by
  have hspec := triggerLoop_spec cfg visit symbol price hs
  have hfam := sameFamily_triggerLoop cfg visit symbol price hs
  rw [checkStopTriggers, ← stopPicks, view_foldl_checkOca, (hspec k).1]
  refine if_congr ?_ rfl rfl
  constructor
  · rintro ⟨j, hj, hk⟩
    obtain ⟨o, ho, hhit, hfill⟩ := (hspec j).2.mp hj
    rw [hfam.siblingsOf, ← Store.key_of_get? ho] at hk
    exact ⟨o, Store.mem_of_get? ho, ⟨hhit, hfill⟩, hk⟩
  · rintro ⟨o, ho, ⟨hhit, hfill⟩, hk⟩
    refine ⟨o.ibOrderId, (hspec _).2.mpr ⟨o, Store.get?_of_mem ho, hhit, hfill⟩, ?_⟩
    rw [hfam.siblingsOf]; exact hk

theorem sameFamily_checkStopTriggers :
    SameFamily s (checkStopTriggers cfg visit symbol price s) :=
  (sameFamily_triggerLoop cfg visit symbol price hs).trans (sameFamily_foldl_checkOca _ _)

end StopPass

end Midas.Broker

/-! ### Activation -/

namespace Midas.Broker

variable (cfg : SimOrderConfig)

/-! ### Children -/

/-- Stops wait for their trigger also when their parent has filled. -/
def waitsForStop (o : SimulatedOrder) : Bool :=
  decide (o.orderType = .stop ∨ o.orderType = .stopLimit)

/-- What the activation of its parent does to the view of a child. -/
def View.activate (parentFilled : Bool) (v : View) : View :=
  match v.record with
  | some o =>
    if o.status = .held then
      if parentFilled && !waitsForStop o then
        ⟨some { o with status := .working }, v.statuses ++ [.submitted]⟩
      else ⟨some { o with status := .triggered }, v.statuses ++ [.preSubmitted]⟩
    else v
  | none => v

theorem View.activate_of_not_held {v : View} (parentFilled : Bool)
    (h : ∀ o, v.record = some o → o.status ≠ .held) : v.activate parentFilled = v := by
  unfold View.activate
  split
  · rename_i o ho; rw [if_neg (h o ho)]
  · rfl

theorem View.activate_not_held (parentFilled : Bool) (v : View) :
    ∀ o, (v.activate parentFilled).record = some o → o.status ≠ .held := by
  unfold View.activate
  split
  · rename_i o ho
    split
    · split <;> (rintro _ ⟨⟩; simp)
    · rename_i hne; rintro o' ho'; rw [ho] at ho'; cases ho'; exact hne
  · rename_i h; simp [h]

theorem View.activate_activate (parentFilled : Bool) (v : View) :
    (v.activate parentFilled).activate parentFilled = v.activate parentFilled :=
  View.activate_of_not_held _ (View.activate_not_held parentFilled v)

theorem activateChild_of_not_held {parentFilled : Bool} {s : SimState} {id : Int32}
    (h : ∀ o, s.orders.get? id = some o → o.status ≠ .held) :
    activateChild parentFilled s id = s := by
  unfold activateChild
  split
  · rfl
  · rename_i o ho; rw [if_pos (h o ho)]

/-- One held child, with the kinds of order told apart by `waitsForStop`. -/
theorem activateChild_of_held {s : SimState} {id : Int32} {o : SimulatedOrder}
    (ho : s.orders.get? id = some o) (hheld : o.status = .held) (parentFilled : Bool) :
    activateChild parentFilled s id =
      if parentFilled && !waitsForStop o then
        ((s.setOrder { o with status := .working }).send (.submitted id)).send
          (.statusChanged id .submitted 0 o.quantity 0)
      else (s.setOrder { o with status := .triggered }).send
        (.statusChanged id .preSubmitted 0 o.quantity 0) := by
  simp only [activateChild, ho, hheld, ne_eq, not_true_eq_false, if_false]
  cases parentFilled with
  | false => rfl
  | true => cases ht : o.orderType <;> simp [waitsForStop, ht]

theorem view_activateChild (parentFilled : Bool) (s : SimState) (id k : Int32) :
    (activateChild parentFilled s id).view k =
      if k = id then (s.view k).activate parentFilled else s.view k := by
  by_cases hheld : ∀ o, s.orders.get? id = some o → o.status ≠ .held
  · rw [activateChild_of_not_held hheld]
    split
    · rename_i hk; exact (View.activate_of_not_held _ (hk ▸ hheld)).symm
    · rfl
  · push Not at hheld
    obtain ⟨o, ho, hheld⟩ := hheld
    have hid : o.ibOrderId = id := Store.key_of_get? ho
    rw [activateChild_of_held ho hheld]
    split
    · rename_i hb
      rw [view_send_status, view_send_submitted, view_setOrder]
      refine if_ctx_congr Iff.rfl (fun hk => ?_) fun hk => if_neg (by simpa [hid] using hk)
      simp [View.activate, hk, ho, hheld, hb, hid]
    · rename_i hb
      rw [view_restatus (o := { o with status := .triggered }) s hid]
      refine if_ctx_congr Iff.rfl (fun hk => ?_) fun _ => rfl
      simp [View.activate, hk, ho, hheld, hb]

theorem view_foldl_activate (parentFilled : Bool) (ids : List Int32) (s : SimState) (k : Int32) :
    (ids.foldl (activateChild parentFilled) s).view k =
      if k ∈ ids then (s.view k).activate parentFilled else s.view k := by
  have h := foldl_mark SimState.view (fun j k => k = j) (fun _ => True) (fun _ _ _ => trivial)
    (View.activate_activate parentFilled)
    (fun s j k _ => view_activateChild parentFilled s j k) (k := k) ids s trivial
  rw [h]
  simp

/-! ### The order named -/

/-- An order that fills the moment it is released. -/
def fillsAtOnce (o : SimulatedOrder) : Bool :=
  decide (o.orderType = .market ∧ cfg.fillTiming = "instant")

/-- What its own activation does to the view of a held order. -/
def View.enter (price : ℚ) (v : View) : View :=
  match v.record with
  | some o =>
    let v' : View := ⟨some { o with status := .working }, v.statuses ++ [.submitted]⟩
    if fillsAtOnce cfg o then v'.fill cfg price else v'
  | none => v

/-- Is the order filled when its children's turn comes? -/
def fillsOnEntry (o : SimulatedOrder) : Bool := fillsAtOnce cfg o && decide (0 < o.quantity)

theorem View.enter_record {v : View} {o : SimulatedOrder} (price : ℚ) (h : v.record = some o) :
    (v.enter cfg price).record = some (if fillsOnEntry cfg o then o.filledAt price
      else { o with status := .working }) := by
  by_cases hf : fillsAtOnce cfg o = true <;> by_cases hq : 0 < o.quantity <;>
    simp [View.enter, View.fill, h, fillsOnEntry, hf, hq, SimulatedOrder.filledAt]

theorem activateBracket_of_not_held (live : Live) {t : Int32} {s : SimState}
    (h : ∀ o, s.orders.get? t = some o → o.status ≠ .held) : activateBracket cfg live t s = s := by
  unfold activateBracket
  split
  · rfl
  · rename_i o ho; rw [if_pos (h o ho)]

theorem view_activateBracket (live : Live) {t : Int32} {s : SimState} {p : SimulatedOrder}
    (h : s.orders.get? t = some p) (hheld : p.status = .held) (hf : p.filledQty = 0) :
    ∃ price, ∀ k, (activateBracket cfg live t s).view k =
      if k = t then (s.view k).enter cfg price
      else if k ∈ (s.bracketLinks t).getD [] then (s.view k).activate (fillsOnEntry cfg p)
      else s.view k := by
  have hid : p.ibOrderId = t := Store.key_of_get? h
  set s₁ := ((s.setOrder { p with status := .working }).send (.submitted t)).send
    (.statusChanged t .submitted 0 p.quantity 0) with hs₁
  have hview₁ : ∀ k, s₁.view k = if k = t then
      ⟨some { p with status := .working }, (s.view k).statuses ++ [.submitted]⟩ else s.view k := by
    intro k
    rw [hs₁, view_send_status, view_send_submitted, view_setOrder]
    simp only [hid]
    split <;> rfl
  have hget₁ : s₁.orders.get? t = some { p with status := .working } := by
    rw [← SimState.view_record, hview₁, if_pos rfl]
  set price := marketFillPrice cfg (getMarketPrice live s₁ p.symbol) p.action with hprice
  set s₂ := if ((s₁.orders.get? t).any fun o => decide (o.orderType = .market)) = true ∧
      cfg.fillTiming = "instant" then fillMarketOrder cfg live t s₁ else s₁ with hs₂
  have hcond : (((s₁.orders.get? t).any fun o => decide (o.orderType = .market)) = true ∧
      cfg.fillTiming = "instant") ↔ fillsAtOnce cfg p = true := by
    simp [hget₁, fillsAtOnce]
  have hview₂ : ∀ k, s₂.view k = if k = t then (s.view k).enter cfg price else s.view k := by
    intro k
    have henter : k = t → (s.view k).enter cfg price = if fillsAtOnce cfg p then
        View.fill cfg price ⟨some { p with status := .working },
          (s.view k).statuses ++ [.submitted]⟩
        else ⟨some { p with status := .working }, (s.view k).statuses ++ [.submitted]⟩ := by
      rintro rfl; simp [View.enter, h]
    rw [hs₂]
    split
    · rename_i hc
      rw [view_fillMarketOrder cfg live hget₁ hf, hview₁]
      refine if_ctx_congr Iff.rfl (fun hk => ?_) (fun hk => if_neg hk)
      rw [henter hk, if_pos hk, if_pos (hcond.mp hc)]
    · rename_i hc
      rw [hview₁]
      refine if_ctx_congr Iff.rfl (fun hk => ?_) (fun _ => rfl)
      rw [henter hk, if_neg (fun hf => hc (hcond.mpr hf))]
  have hlinks : s₂.bracketLinks = s.bracketLinks := by
    rw [hs₂]
    split
    · unfold fillMarketOrder
      split
      · rfl
      · exact executeFill_bracketLinks cfg _ _ _ _
    · rfl
  have hget₂ := View.enter_record cfg price (v := s.view t) h
  have hpf : ((s₂.orders.get? t).any fun o => decide (o.status = .filled)) = fillsOnEntry cfg p := by
    have : s₂.orders.get? t = ((s.view t).enter cfg price).record := by
      rw [← SimState.view_record, hview₂, if_pos rfl]
    rw [this, hget₂]
    cases fillsOnEntry cfg p <;> simp [SimulatedOrder.filledAt]
  refine ⟨price, fun k => ?_⟩
  have hunfold : activateBracket cfg live t s =
      ((s₂.bracketLinks t).getD []).foldl
        (activateChild ((s₂.orders.get? t).any fun o => decide (o.status = .filled))) s₂ := by
    simp only [activateBracket, h, hheld, ne_eq, not_true_eq_false, if_false]
    rfl
  rw [hunfold, view_foldl_activate, hpf, hlinks, hview₂]
  by_cases hk : k = t
  · -- an order linked under itself is not held any more when the children's turn comes
    have hnot : ∀ o, ((s.view k).enter cfg price).record = some o → o.status ≠ .held := by
      rintro o ho
      rw [hk, hget₂] at ho
      cases ho
      split <;> simp [SimulatedOrder.filledAt]
    rw [if_pos hk, if_pos hk, View.activate_of_not_held _ hnot, ite_self]
  · rw [if_neg hk, if_neg hk]

end Midas.Broker
