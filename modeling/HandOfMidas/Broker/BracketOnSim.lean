import HandOfMidas.Broker.BracketSubmitter
import HandOfMidas.Broker.SimStatus
import HandOfMidas.Broker.SimExecutes

/-! Bracket submission against the simulator. The simulator never refuses a leg: it answers `Ok` and
    reports a rejection on the event stream, which the roll-back of `place_bracket` does not see. So
    a submission goes wrong exactly when the injected rejections hit one of its legs; when they hit
    none, the last leg releases the entry and its children, and no leg is ever held again. -/

namespace Midas.Broker

variable {cfg : SimOrderConfig} {live : Live} {ready : SimState → Bool}

/-- The simulator as an order client. `ready` says whether the paired backend, if any, gets ready
    when an id is asked for; its link may also be gone. -/
def simClient (cfg : SimOrderConfig) (live : Live) (ready : SimState → Bool) :
    OrderClient SimState where
  nextOrderId s :=
    if ready s then (.ok (nextOrderId s).1, (nextOrderId s).2) else (.error .disconnected, s)
  placeOrder leg s := placeOrder cfg live leg s
  cancelOrder id s := ((cancelOrder id s).1.map fun _ => (), (cancelOrder id s).2)
  modifyOrder id spec s := modifyOrder id spec s

/-- Place legs one after the other. -/
def placeAll (cfg : SimOrderConfig) (live : Live) (legs : List OrderSpec) (s : SimState) :
    SimState :=
  legs.foldl (fun s leg => step cfg s (.place live leg)) s

/-- The simulator refuses no leg. -/
theorem placeLeg_simClient (placed : List Int32) (leg : OrderSpec) (s : SimState) :
    placeLeg (simClient cfg live ready) placed leg s = (.ok (), step cfg s (.place live leg)) := by
  have hok : ∃ id, (placeOrder cfg live leg s).1 = .ok id := by
    unfold placeOrder
    split
    · exact ⟨_, rfl⟩
    · dsimp only
      split <;> exact ⟨_, rfl⟩
  obtain ⟨id, hid⟩ := hok
  have hplace : (simClient cfg live ready).placeOrder leg s =
      (.ok id, step cfg s (.place live leg)) := by
    rw [← hid]; rfl
  simp only [placeLeg, hplace]

theorem placeLegIf_simClient (placed : List Int32) (leg : Option OrderSpec) (s : SimState) :
    placeLegIf (simClient cfg live ready) placed leg s =
      (.ok (), placeAll cfg live leg.toList s) := by
  cases leg with
  | none => rfl
  | some leg => exact placeLeg_simClient placed leg s

/-- Once the ids are reserved, a submission answers `Ok` whatever becomes of the legs. -/
theorem placeBracket_simClient {params : BracketParams} {handle : BracketHandle} {s s₀ : SimState}
    (h : reserveLegs (simClient cfg live ready) params s = (.ok handle, s₀)) :
    placeBracket (simClient cfg live ready) params s =
      (.ok handle, placeAll cfg live (params.legs handle) s₀) := by
  simp only [placeBracket, andThen, h, placeLeg_simClient, placeLegIf_simClient]
  simp [placeAll, BracketParams.legs]

/-! ### Which legs the injection rejects -/

/-- The order under `k` has been rejected. -/
def RejectedAt (s : SimState) (k : Int32) : Prop :=
  ∃ o, s.orders.get? k = some o ∧ o.status = .rejected

/-- The ids of the legs that the injected rejections hit, from the number of orders accepted into
    the books so far on; a leg under an id that is in use is a modification and is not counted. -/
def injected (cfg : SimOrderConfig) (used : Int32 → Bool) : ℕ → List OrderSpec → List Int32
  | _, [] => []
  | count, leg :: legs =>
    if used leg.ibOrderId then injected cfg used count legs
    else if shouldReject cfg (count + 1) then
      leg.ibOrderId :: injected cfg used (count + 1) legs
    else injected cfg used (count + 1) legs

/-- Is there an order under this id? -/
def SimState.used (s : SimState) (k : Int32) : Bool := (s.orders.get? k).isSome

theorem injected_congr {used used' : Int32 → Bool} : ∀ (count : ℕ) (legs : List OrderSpec),
    (∀ leg ∈ legs, used leg.ibOrderId = used' leg.ibOrderId) →
      injected cfg used count legs = injected cfg used' count legs
  | _, [], _ => rfl
  | count, leg :: legs, h => by
    have hleg := h leg List.mem_cons_self
    have hlegs := fun l hl => h l (List.mem_cons_of_mem leg hl)
    simp only [injected, hleg, injected_congr _ legs hlegs]

/-- Under new ids the injection hits a leg exactly when its turn in the count is up. -/
theorem injected_eq_nil_iff {used : Int32 → Bool} : ∀ (count : ℕ) (legs : List OrderSpec),
    (∀ leg ∈ legs, used leg.ibOrderId = false) →
      (injected cfg used count legs = [] ↔
        ∀ i < legs.length, shouldReject cfg (count + 1 + i) = false)
  | _, [], _ => by simp [injected]
  | count, leg :: legs, h => by
    have hrec := injected_eq_nil_iff (count + 1) legs
      (fun l hl => h l (List.mem_cons_of_mem leg hl))
    simp only [injected, h leg List.mem_cons_self, Bool.false_eq_true, if_false, List.length_cons]
    constructor
    · intro hnil i hi
      cases hrej : shouldReject cfg (count + 1) with
      | true => simp [hrej] at hnil
      | false =>
        simp only [hrej, Bool.false_eq_true, if_false] at hnil
        cases i with
        | zero => exact hrej
        | succ i =>
          have := hrec.mp hnil i (by omega)
          rwa [show count + 1 + (i + 1) = count + 1 + 1 + i by omega]
    · intro hall
      have h0 := hall 0 (by omega)
      simp only [Nat.add_zero] at h0
      simp only [h0, Bool.false_eq_true, if_false]
      refine hrec.mpr fun i hi => ?_
      have := hall (i + 1) (by omega)
      rwa [show count + 1 + 1 + i = count + 1 + (i + 1) by omega]

theorem mem_injected {used : Int32 → Bool} {k : Int32} : ∀ (count : ℕ) (legs : List OrderSpec),
    k ∈ injected cfg used count legs → ∃ leg ∈ legs, leg.ibOrderId = k
  | _, [], h => (List.not_mem_nil h).elim
  | count, leg :: legs, h => by
    have hrest : ∀ count, k ∈ injected cfg used count legs →
        ∃ l ∈ leg :: legs, l.ibOrderId = k := by
      intro count h
      obtain ⟨l, hl, hk⟩ := mem_injected count legs h
      exact ⟨l, List.mem_cons_of_mem leg hl, hk⟩
    unfold injected at h
    split at h
    · exact hrest _ h
    · split at h
      · rcases List.mem_cons.mp h with rfl | h
        · exact ⟨leg, List.mem_cons_self, rfl⟩
        · exact hrest _ h
      · exact hrest _ h

theorem rejected_iff_createdAs {o : SimulatedOrder} :
    o.status = .rejected ↔ o.createdAs = .rejected := by
  unfold SimulatedOrder.createdAs
  split <;> simp_all

theorem used_place {s : SimState} (hs : Sound s) (leg : OrderSpec) (k : Int32) :
    (step cfg s (.place live leg)).used k = (s.used k || decide (k = leg.ibOrderId)) := by
  unfold SimState.used
  cases hk : s.orders.get? k with
  | some o =>
    obtain ⟨o', ho', -⟩ := record_step cfg hs (.place live leg) hk
    simp [ho']
  | none =>
    by_cases hid : k = leg.ibOrderId
    · subst hid
      obtain ⟨o, ho, -⟩ := createdAs_placeOrder cfg hs live hk
      simp [ho]
    · cases ho : (step cfg s (.place live leg)).orders.get? k with
      | none => simp [hid]
      | some o =>
        rcases record_of_step hs ho with ⟨o', ho'⟩ | ⟨_, spec, hop, hspec, -⟩
        · rw [hk] at ho'; cases ho'
        · cases hop; exact absurd hspec.symm hid

theorem rejectedAt_place {s : SimState} (hs : Sound s) (leg : OrderSpec) (k : Int32) :
    RejectedAt (step cfg s (.place live leg)) k ↔ RejectedAt s k ∨
      k = leg.ibOrderId ∧ s.used k = false ∧ shouldReject cfg (s.orderCount + 1) = true := by
  cases hk : s.orders.get? k with
  | some o =>
    obtain ⟨o', ho', hc⟩ := record_step cfg hs (.place live leg) hk
    have : o'.status = .rejected ↔ o.status = .rejected := by
      rw [rejected_iff_createdAs, rejected_iff_createdAs, hc]
    simp [RejectedAt, SimState.used, hk, ho', this]
  | none =>
    have hnot : ¬ RejectedAt s k := by simp [RejectedAt, hk]
    rw [or_iff_right hnot]
    by_cases hid : k = leg.ibOrderId
    · subst hid
      obtain ⟨o, ho, hc⟩ := createdAs_placeOrder cfg hs live hk
      have hiff : RejectedAt (step cfg s (.place live leg)) leg.ibOrderId ↔
          o.createdAs = .rejected := by
        simp [RejectedAt, ho, rejected_iff_createdAs]
      rw [hiff, hc]
      cases shouldReject cfg (s.orderCount + 1) <;>
        simp [SimulatedOrder.createdAs, SimulatedOrder.ofSpec, SimState.used, hk]
    · refine iff_of_false ?_ (fun h => hid h.1)
      rintro ⟨o, ho, -⟩
      rcases record_of_step hs ho with ⟨o', ho'⟩ | ⟨_, spec, hop, hspec, -⟩
      · rw [hk] at ho'; cases ho'
      · cases hop; exact hid hspec.symm

theorem orderCount_place (s : SimState) (leg : OrderSpec) :
    (step cfg s (.place live leg)).orderCount =
      if s.used leg.ibOrderId then s.orderCount else s.orderCount + 1 := by
  cases hnew : s.orders.get? leg.ibOrderId with
  | some o =>
    simp only [step, placeOrder, hnew, SimState.used, Option.isSome_some, if_true]
    rfl
  | none =>
    simp only [SimState.used, hnew, Option.isSome_none, Bool.false_eq_true, if_false]
    cases hrej : shouldReject cfg (s.orderCount + 1) with
    | true => simp only [step, placeOrder, hnew, hrej, if_true]; rfl
    | false =>
      have hadm : (s.admitted leg).orderCount = s.orderCount + 1 := by
        unfold SimState.admitted
        cases leg.parentId <;> rfl
      rw [step, placeOrder_of_accepts ⟨hnew, hrej⟩]
      split
      · rw [orderCount_activateBracket, hadm]
      · exact hadm

theorem sound_placeAll : ∀ (legs : List OrderSpec) {s : SimState}, Sound s →
    Sound (placeAll cfg live legs s)
  | [], _, hs => hs
  | leg :: legs, _, hs => sound_placeAll legs (sound_step hs (.place live leg))

theorem used_placeAll {k : Int32} : ∀ (legs : List OrderSpec) {s : SimState}, Sound s →
    (s.used k = true ∨ ∃ leg ∈ legs, leg.ibOrderId = k) →
      (placeAll cfg live legs s).used k = true
  | [], s, _, h => by simpa [placeAll] using h
  | leg :: legs, s, hs, h => by
    refine used_placeAll legs (sound_step hs (.place live leg)) ?_
    rw [used_place hs]
    rcases h with h | ⟨l, hl, hk⟩
    · exact Or.inl (by simp [h])
    · rcases List.mem_cons.mp hl with rfl | hl
      · exact Or.inl (by simp [hk])
      · exact Or.inr ⟨l, hl, hk⟩

/-- After legs with distinct ids are placed, the rejected orders are the ones rejected before and the
    legs the injection hits. -/
theorem rejectedAt_placeAll (k : Int32) : ∀ (legs : List OrderSpec) {s : SimState}, Sound s →
    (legs.map (·.ibOrderId)).Nodup → (RejectedAt (placeAll cfg live legs s) k ↔
      RejectedAt s k ∨ k ∈ injected cfg s.used s.orderCount legs)
  | [], _, _, _ => by simp [placeAll, injected]
  | leg :: legs, s, hs, hnd => by
    rw [List.map_cons, List.nodup_cons] at hnd
    have hs' : Sound (step cfg s (.place live leg)) := sound_step hs _
    have hrec := rejectedAt_placeAll k legs hs' hnd.2
    have hused : injected cfg (step cfg s (.place live leg)).used
        (step cfg s (.place live leg)).orderCount legs =
          injected cfg s.used (step cfg s (.place live leg)).orderCount legs := by
      refine injected_congr _ legs fun l hl => ?_
      have hne : l.ibOrderId ≠ leg.ibOrderId := fun h => hnd.1 (h ▸ List.mem_map_of_mem hl)
      rw [used_place hs]
      simp [hne]
    rw [hused, rejectedAt_place hs, orderCount_place] at hrec
    show RejectedAt (placeAll cfg live legs (step cfg s (.place live leg))) k ↔ _
    rw [hrec, injected]
    cases hu : s.used leg.ibOrderId with
    | true =>
      have hnot : ¬ (k = leg.ibOrderId ∧ s.used k = false ∧
          shouldReject cfg (s.orderCount + 1) = true) := by
        rintro ⟨rfl, hk, -⟩; rw [hu] at hk; cases hk
      simp [hnot]
    | false =>
      cases hrej : shouldReject cfg (s.orderCount + 1) with
      | false => simp
      | true =>
        have hiff : (k = leg.ibOrderId ∧ s.used k = false ∧ true = true) ↔ k = leg.ibOrderId :=
          ⟨fun h => h.1, fun h => ⟨h, by rw [h, hu], rfl⟩⟩
        rw [hiff]
        simp [or_assoc]

/-! ### What the last leg releases -/

/-- The entry is held and the orders `ids` are linked under it. -/
def Waiting (s : SimState) (entryId : Int32) (ids : List Int32) : Prop :=
  (∃ p, s.orders.get? entryId = some p ∧ p.status = .held) ∧
    ∀ k ∈ ids, k ∈ (s.bracketLinks entryId).getD []

theorem step_of_held {s : SimState} {leg : OrderSpec} (hacc : Accepts cfg s leg)
    (ht : leg.transmit = false) : step cfg s (.place live leg) = s.admitted leg := by
  rw [step, placeOrder_of_accepts hacc, ht]
  rfl

theorem waiting_entry {s : SimState} {leg : OrderSpec} (hacc : Accepts cfg s leg)
    (ht : leg.transmit = false) :
    Waiting (step cfg s (.place live leg)) leg.ibOrderId [] := by
  rw [step_of_held hacc ht]
  refine ⟨⟨.ofSpec leg false, ?_, rfl⟩, by simp⟩
  rw [← SimState.view_record, view_admitted, if_pos rfl]

theorem Waiting.admitted {s : SimState} {entryId : Int32} {ids : List Int32}
    (hw : Waiting s entryId ids) {leg : OrderSpec} (hacc : Accepts cfg s leg)
    (hp : leg.parentId = some entryId) :
    Waiting (s.admitted leg) entryId (leg.ibOrderId :: ids) := by
  obtain ⟨⟨p, hget, hheld⟩, hids⟩ := hw
  have hne : entryId ≠ leg.ibOrderId := by
    rintro rfl
    rw [hacc.1] at hget; cases hget
  refine ⟨⟨p, ?_, hheld⟩, ?_⟩
  · rw [← SimState.view_record, view_admitted, if_neg hne, SimState.view_record, hget]
  · rintro k hk
    rw [mem_links_admitted]
    rcases List.mem_cons.mp hk with rfl | hk
    · exact Or.inr ⟨rfl, hp⟩
    · exact Or.inl (hids k hk)

/-- A record that has left the held status. -/
def NotHeldAt (s : SimState) (k : Int32) : Prop :=
  ∀ o, s.orders.get? k = some o → o.status ≠ .held

/-- The activation of a held order leaves neither it nor its children held. -/
theorem notHeldAt_activateBracket {s : SimState} (hs : Sound s) {t : Int32} {ids : List Int32}
    (hw : Waiting s t ids) (k : Int32) (hk : k ∈ t :: ids) :
    NotHeldAt (activateBracket cfg live t s) k := by
  obtain ⟨⟨p, hp, hheld⟩, hids⟩ := hw
  have hf : p.filledQty = 0 := (hs.wellKept hp).filledQty_eq (by simp [hheld])
  obtain ⟨price, hview⟩ := view_activateBracket cfg live hp hheld hf
  intro o ho
  rw [← SimState.view_record, hview] at ho
  rcases List.mem_cons.mp hk with rfl | hk
  · rw [if_pos rfl, View.enter_record cfg price (o := p) hp] at ho
    cases ho
    split <;> simp [SimulatedOrder.filledAt]
  · split at ho
    · rename_i hkt
      subst hkt
      rw [View.enter_record cfg price (o := p) hp] at ho
      cases ho
      split <;> simp [SimulatedOrder.filledAt]
    · rw [if_pos (hids k hk)] at ho
      exact View.activate_not_held _ _ o ho

theorem Waiting.release {s : SimState} (hs : Sound s) {entryId : Int32} {ids : List Int32}
    (hw : Waiting s entryId ids) {leg : OrderSpec} (hacc : Accepts cfg s leg)
    (ht : leg.transmit = true) (hp : leg.parentId = some entryId) (k : Int32)
    (hk : k ∈ entryId :: leg.ibOrderId :: ids) :
    NotHeldAt (step cfg s (.place live leg)) k := by
  have htarget : leg.target = entryId := by simp [OrderSpec.target, hp]
  rw [step, placeOrder_of_accepts hacc, ht, if_pos rfl, htarget]
  exact notHeldAt_activateBracket (sound_admitted hacc hs) (hw.admitted hacc hp) k hk

theorem LifeStep.notHeld {C R : SimulatedOrder → Prop} {v v' : View} (h : LifeStep cfg C R v v')
    (hv : ∃ o, v.record = some o ∧ o.status ≠ .held) :
    ∃ o, v'.record = some o ∧ o.status ≠ .held := by
  obtain ⟨o, ho, hne⟩ := hv
  cases h with
  | create _ h => rw [ho] at h; cases h
  | amend _ o' h ha | restate _ o' h ha =>
    rw [ho] at h; cases h; exact ⟨o', rfl, by rw [ha.status]; exact hne⟩
  | release | park | trigger | cancel => exact ⟨_, rfl, by simp⟩
  | fill => exact ⟨_, rfl, by simp [SimulatedOrder.filledAt]⟩

/-- What has been released is never held again. -/
theorem notHeldAt_run {s : SimState} (hs : Sound s) {k : Int32} (hused : s.used k = true)
    (hk : NotHeldAt s k) (ops : List Op) : NotHeldAt (run (step cfg) s ops) k := by
  obtain ⟨o, ho⟩ := Option.isSome_iff_exists.mp hused
  have h := inv_run (step cfg) (I := fun s => Sound s ∧ ∃ o, s.orders.get? k = some o ∧
    o.status ≠ .held) ?_ ⟨hs, o, ho, hk o ho⟩ ops
  · obtain ⟨-, o', ho', hne⟩ := h
    rintro o'' ho''
    rw [ho'] at ho''; cases ho''; exact hne
  · rintro s op ⟨hs, hv⟩
    exact ⟨sound_step hs op, inv_of_path (I := fun v => ∃ o, v.record = some o ∧ o.status ≠ .held)
      (fun _ _ h hv => h.notHeld hv) (life_step_any cfg hs op k) hv⟩

/-- Legs that the simulator takes as new orders: their ids are distinct and not in use, and the
    injection hits none of them. -/
structure Admissible (cfg : SimOrderConfig) (s : SimState) (legs : List OrderSpec) : Prop where
  distinct : (legs.map (·.ibOrderId)).Nodup
  unused : ∀ leg ∈ legs, s.used leg.ibOrderId = false
  kept : ∀ i < legs.length, shouldReject cfg (s.orderCount + 1 + i) = false

theorem Admissible.accepts {s : SimState} {leg : OrderSpec} {legs : List OrderSpec}
    (h : Admissible cfg s (leg :: legs)) : Accepts cfg s leg := by
  refine ⟨?_, ?_⟩
  · have := h.unused leg List.mem_cons_self
    simpa [SimState.used] using this
  · exact h.kept 0 (by simp)

theorem Admissible.next {s : SimState} (hs : Sound s) {leg : OrderSpec} {legs : List OrderSpec}
    (h : Admissible cfg s (leg :: legs)) :
    Admissible cfg (step cfg s (.place live leg)) legs := by
  have hnd := h.distinct
  rw [List.map_cons, List.nodup_cons] at hnd
  refine ⟨hnd.2, ?_, ?_⟩
  · intro l hl
    have hne : l.ibOrderId ≠ leg.ibOrderId := fun he => hnd.1 (he ▸ List.mem_map_of_mem hl)
    rw [used_place hs, h.unused l (List.mem_cons_of_mem leg hl)]
    simp [hne]
  · intro i hi
    have hk := h.kept (i + 1) (by rw [List.length_cons]; omega)
    rw [orderCount_place, h.unused leg List.mem_cons_self]
    simp only [Bool.false_eq_true, if_false]
    rwa [show s.orderCount + 1 + 1 + i = s.orderCount + 1 + (i + 1) by omega]

/-- Children placed under a held entry, the last of them transmitting: all are released. -/
theorem placeAll_children (entryId : Int32) (legs : List OrderSpec) : ∀ {s : SimState}
    {ids : List Int32}, Sound s → Waiting s entryId ids → Admissible cfg s legs → legs ≠ [] →
      (∀ leg ∈ legs, leg.parentId = some entryId) →
      (∀ leg ∈ legs.dropLast, leg.transmit = false) →
      (∀ leg ∈ legs.getLast?, leg.transmit = true) →
      ∀ k ∈ entryId :: (ids ++ legs.map (·.ibOrderId)),
        NotHeldAt (placeAll cfg live legs s) k := by
  induction legs with
  | nil => intro s ids _ _ _ hne; exact absurd rfl hne
  | cons leg legs ih =>
    intro s ids hs hw hadm _ hp hheld hlast k hk
    have hpleg : leg.parentId = some entryId := hp leg List.mem_cons_self
    cases legs with
    | nil =>
      refine hw.release hs hadm.accepts (hlast leg (by simp)) hpleg k ?_
      simp only [List.map_cons, List.map_nil, List.mem_cons, List.mem_append, List.not_mem_nil,
        or_false] at hk ⊢
      rcases hk with hk | hk | hk
      · exact Or.inl hk
      · exact Or.inr (Or.inr hk)
      · exact Or.inr (Or.inl hk)
    | cons leg' legs =>
      have ht : leg.transmit = false := hheld leg (by simp)
      have hstep : step cfg s (.place live leg) = s.admitted leg := step_of_held hadm.accepts ht
      have hw' : Waiting (step cfg s (.place live leg)) entryId (leg.ibOrderId :: ids) :=
        hstep ▸ hw.admitted hadm.accepts hpleg
      refine ih (sound_step hs (.place live leg)) hw' (hadm.next hs) (by simp)
        (fun l hl => hp l (List.mem_cons_of_mem leg hl)) (fun l hl => hheld l ?_)
        (fun l hl => hlast l ?_) k ?_
      · rw [List.dropLast_cons_of_ne_nil (by simp)]
        exact List.mem_cons_of_mem leg hl
      · rw [List.getLast?_cons_cons]
        exact hl
      · simp only [List.map_cons, List.mem_cons, List.mem_append] at hk ⊢
        rcases hk with hk | hk | hk
        · exact Or.inl hk
        · exact Or.inr (Or.inl (Or.inr hk))
        · rcases hk with hk | hk
          · exact Or.inr (Or.inl (Or.inl hk))
          · exact Or.inr (Or.inr hk)

/-- Admissible legs of a bracket are all released by its submission. -/
theorem placeAll_legs {params : BracketParams} {handle : BracketHandle}
    (hsub : handle.Submitted params) {s : SimState} (hs : Sound s)
    (hadm : Admissible cfg s (params.legs handle)) (leg : OrderSpec)
    (hleg : leg ∈ params.legs handle) :
    NotHeldAt (placeAll cfg live (params.legs handle) s) leg.ibOrderId := by
  set entry := params.entryLeg handle with hentry
  set children := (params.tpLeg handle).toList ++ (params.slLeg handle).toList with hchildren
  have hlegs : params.legs handle = entry :: children := rfl
  have hheld := hsub.held
  have hlast := hsub.last
  have hparents := hsub.children
  rw [hlegs] at hheld hlast hparents hadm hleg ⊢
  have hacc := hadm.accepts
  show NotHeldAt (placeAll cfg live children (step cfg s (.place live entry))) leg.ibOrderId
  rcases hc : children with _ | ⟨child, rest⟩
  · -- a naked entry transmits itself
    rw [hc] at hlast hleg
    have htarget : entry.target = entry.ibOrderId := by
      simp [OrderSpec.target, hsub.entry.2.2, hentry]
    have hw : Waiting (s.admitted entry) entry.ibOrderId [] := by
      refine ⟨⟨.ofSpec entry false, ?_, rfl⟩, by simp⟩
      rw [← SimState.view_record, view_admitted, if_pos rfl]
    have hle : leg = entry := by simpa using hleg
    rw [hle]
    show NotHeldAt (step cfg s (.place live entry)) entry.ibOrderId
    rw [step, placeOrder_of_accepts hacc, hlast entry (by simp), if_pos rfl, htarget]
    exact notHeldAt_activateBracket (sound_admitted hacc hs) hw _ List.mem_cons_self
  · have ht : entry.transmit = false := hheld entry (by simp [hc])
    have hw : Waiting (step cfg s (.place live entry)) entry.ibOrderId [] := waiting_entry hacc ht
    rw [← hc]
    refine placeAll_children entry.ibOrderId children (sound_step hs (.place live entry)) hw
      (hadm.next hs) (by simp [hc]) ?_ ?_ ?_ _ ?_
    · exact fun l hl => (hparents l (by simpa using hl)).2.2
    · intro l hl
      refine hheld l ?_
      rw [List.dropLast_cons_of_ne_nil (by simp [hc])]
      exact List.mem_cons_of_mem _ hl
    · intro l hl
      refine hlast l ?_
      rw [hc] at hl ⊢
      simpa using hl
    · rcases List.mem_cons.mp hleg with rfl | hl
      · exact List.mem_cons_self
      · exact List.mem_cons_of_mem _ (by simpa using List.mem_map_of_mem hl)

/-! ### A submission against the simulator -/

theorem simClient_reservesApart (cfg : SimOrderConfig) (live : Live) (ready : SimState → Bool) :
    (simClient cfg live ready).ReservesApart := by
  have hnext : ∀ s id s', (simClient cfg live ready).nextOrderId s = (.ok id, s') →
      id = s.nextId ∧ s'.nextId = s.nextId + 1 := by
    intro s id s' h
    simp only [simClient] at h
    split at h
    · obtain ⟨⟨⟩, rfl⟩ := Prod.mk.inj h; exact ⟨rfl, rfl⟩
    · simp at h
  refine ⟨?_, ?_⟩
  · intro s a s₁ b s₂ h₁ h₂
    obtain ⟨rfl, hs₁⟩ := hnext s a s₁ h₁
    obtain ⟨rfl, -⟩ := hnext s₁ b s₂ h₂
    rw [hs₁]
    simp
  · intro s a s₁ b s₂ c s₃ h₁ h₂ h₃
    obtain ⟨rfl, hs₁⟩ := hnext s a s₁ h₁
    obtain ⟨-, hs₂⟩ := hnext s₁ b s₂ h₂
    obtain ⟨rfl, -⟩ := hnext s₂ c s₃ h₃
    rw [hs₂, hs₁]
    grind

variable (cfg live ready) in
/-- Reserving ids moves the counter and nothing else. -/
theorem reserveLegs_simClient (params : BracketParams) (s : SimState) :
    ∃ n, (reserveLegs (simClient cfg live ready) params s).2 = { s with nextId := n } := by
  let P : SimState → Prop := fun s' => ∃ n, s' = { s with nextId := n }
  have hnext : ∀ s', P s' → P ((simClient cfg live ready).nextOrderId s').2 := by
    rintro _ ⟨n, rfl⟩
    simp only [simClient]
    split
    · exact ⟨n + 1, rfl⟩
    · exact ⟨n, rfl⟩
  have hif : ∀ wanted s', P s' → P (reserveIf (simClient cfg live ready) wanted s').2 := by
    intro wanted s' h
    unfold reserveIf
    split
    · exact andThen_keeps (P := P) (hnext s' h) fun _ _ h => h
    · exact h
  refine andThen_keeps (P := P) (hnext s ⟨s.nextId, rfl⟩) fun entryId s₁ h₁ => ?_
  refine andThen_keeps (P := P) (hif _ s₁ h₁) fun tpId s₂ h₂ => ?_
  exact andThen_keeps (P := P) (hif _ s₂ h₂) fun slId s₃ h₃ => h₃

/-- A rejection of a leg makes the submission fail and leaves no live leg behind. -/
def RejectionFails (out : Except OrderError BracketHandle × SimState) (legs : List OrderSpec) :
    Prop :=
  (∃ leg ∈ legs, RejectedAt out.2 leg.ibOrderId) → (∃ e, out.1 = .error e) ∧
    ∀ leg ∈ legs, ∀ o, out.2.orders.get? leg.ibOrderId = some o → o.status.isTerminal = true

/-- A submission that answers `Ok` has no rejected leg, and however the run goes on, no leg is held
    once the entry is filled. -/
def HandleSound (cfg : SimOrderConfig) (out : Except OrderError BracketHandle × SimState)
    (params : BracketParams) : Prop :=
  ∀ handle, out.1 = .ok handle →
    (∀ leg ∈ params.legs handle, ¬ RejectedAt out.2 leg.ibOrderId) ∧
    ∀ ops, (∃ o, (run (step cfg) out.2 ops).orders.get? handle.entryId = some o ∧
        o.status = .filled) →
      ∀ leg ∈ params.legs handle, NotHeldAt (run (step cfg) out.2 ops) leg.ibOrderId

end Midas.Broker
