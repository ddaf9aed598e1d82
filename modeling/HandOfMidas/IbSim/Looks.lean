import HandOfMidas.IbSim.Books

/-! The walk of a snapshot over its candidates. A look at one order leaves the others as they are but
    for their status, which an activation or the cancelling of a sibling may move; so who fills, and
    in which chunks, can be told from the state before the walk. -/

namespace Midas.IbSim

variable {rng : Rng} {baseSeed : UInt64}

/-! ### Executions -/

/-- The executions of order `k` among messages. -/
def executions (k : OrderId) (l : List OrderEmission) : List Execution :=
  l.filterMap fun e =>
    match e with
    | .execution x => if x.orderId = k then some x else none
    | _ => none

@[simp] theorem executions_nil (k : OrderId) : executions k [] = [] := rfl

@[simp] theorem executions_append (k : OrderId) (l l' : List OrderEmission) :
    executions k (l ++ l') = executions k l ++ executions k l' := List.filterMap_append

@[simp] theorem executions_status (k : OrderId) (m : OrderStatus) (l : List OrderEmission) :
    executions k (.orderStatus m :: l) = executions k l := rfl

@[simp] theorem executions_emitOrderStatus (k : OrderId) (o : OrderRecord) (status : OrderStatusCode)
    (l : List OrderEmission) : executions k (emitOrderStatus o status :: l) = executions k l := rfl

@[simp] theorem executions_execution (k : OrderId) (x : Execution) (l : List OrderEmission) :
    executions k (.execution x :: l) =
      if x.orderId = k then x :: executions k l else executions k l := by
  by_cases h : x.orderId = k <;> simp [executions, h]

/-- The history of an order has all its executions. -/
theorem executions_filter (k : OrderId) (l : List OrderEmission) :
    executions k (l.filter (Concerns k)) = executions k l := by
  rw [executions, List.filterMap_filter]
  refine List.filterMap_congr fun e _ => ?_
  cases e with
  | execution x => by_cases h : x.orderId = k <;> simp [Concerns, h]
  | orderStatus m => by_cases h : m.orderId = k <;> simp [Concerns, h]
  | _ => rfl

theorem executions_statuses (k : OrderId) (o : OrderRecord) (l : List OrderStatusCode) :
    executions k (l.map (emitOrderStatus o)) = [] := by
  induction l with
  | nil => rfl
  | cons st l ih => rw [List.map_cons, executions_emitOrderStatus, ih]

/-! ### What one order sees of the fill of another -/

/-- A status stays, or moves on to submitted or cancelled. -/
def Shifts (st st' : OrderStatusCode) : Prop :=
  st' = st ∨ OrderRecord.isTerminal st = false ∧ (st' = .submitted ∨ st' = .cancelled)

theorem Shifts.refl (st : OrderStatusCode) : Shifts st st := Or.inl rfl

theorem Shifts.trans {st st' st'' : OrderStatusCode} (h : Shifts st st') (h' : Shifts st' st'') :
    Shifts st st'' := by
  rcases h' with rfl | ⟨hlive, hst''⟩
  · exact h
  · rcases h with rfl | ⟨hlive', -⟩
    · exact Or.inr ⟨hlive, hst''⟩
    · exact Or.inr ⟨hlive', hst''⟩

theorem shifts_statusAfter (kind : OrderKind) (st : OrderStatusCode) {tgt : OrderStatusCode}
    (htgt : tgt = .submitted ∨ tgt = .cancelled) : Shifts st (statusAfter kind st tgt) := by
  cases hterm : OrderRecord.isTerminal st with
  | true => exact Or.inl (statusAfter_of_isTerminal hterm)
  | false =>
    unfold statusAfter
    split
    · exact Or.inr ⟨hterm, htgt⟩
    · exact Or.inl rfl

theorem Shifts.terminal {st st' : OrderStatusCode} (h : Shifts st st')
    (hterm : OrderRecord.isTerminal st = true) : st' = st := by
  rcases h with rfl | ⟨hlive, -⟩
  · rfl
  · rw [hterm] at hlive; cases hlive

theorem Shifts.filled {st : OrderStatusCode} (h : Shifts st .filled) : st = .filled := by
  rcases h with h | ⟨-, h | h⟩
  · exact h.symm
  · cases h
  · cases h

/-- Of order `k` only the status changed, and it shifted. -/
structure Bystander (k : OrderId) (v v' : View) : Prop where
  record : ∃ st : OrderRecord → OrderStatusCode,
    v'.record = v.record.map (fun o => { o with status := st o }) ∧ ∀ o, Shifts o.status (st o)
  executions : executions k v'.history = executions k v.history
  bookings : v'.bookings = v.bookings

namespace Bystander

variable {k : OrderId} {v v' v'' : View}

theorem refl (k : OrderId) (v : View) : Bystander k v v :=
  ⟨⟨(·.status), by simp, fun o => Shifts.refl o.status⟩, rfl, rfl⟩

theorem trans (h : Bystander k v v') (h' : Bystander k v' v'') : Bystander k v v'' := by
  obtain ⟨st, hrec, hst⟩ := h.record
  obtain ⟨st', hrec', hst'⟩ := h'.record
  refine ⟨⟨fun o => st' { o with status := st o }, ?_, fun o => ?_⟩, h'.executions.trans h.executions,
    h'.bookings.trans h.bookings⟩
  · rw [hrec', hrec, Option.map_map]
    rfl
  · exact (hst o).trans (hst' { o with status := st o })

/-- A transition of the record with a status message. -/
theorem of_transition {o : OrderRecord} (hr : v.record = some o) {tgt : OrderStatusCode}
    (htgt : tgt = .submitted ∨ tgt = .cancelled) (m : OrderStatus) :
    Bystander k v (v.become (o.transition tgt) [.orderStatus m]) := by
  refine ⟨⟨fun o => statusAfter o.kind o.status tgt, ?_, fun o => shifts_statusAfter _ _ htgt⟩, ?_,
    rfl⟩
  · rw [hr, View.become, Option.map_some, OrderRecord.transition_eq, OrderRecord.transition_status]
  · simp [View.become]

theorem activate (k : OrderId) (v : View) (parentId : OrderId) :
    Bystander k v (v.activate parentId) := by
  unfold View.activate
  split
  · exact refl k v
  · rename_i o hr
    exact of_transition hr (Or.inl rfl) _

theorem ocaCancel (k : OrderId) (v : View) (parentId : OrderId) :
    Bystander k v (v.ocaCancel parentId) := by
  unfold View.ocaCancel
  split
  · exact refl k v
  · rename_i o hr
    split
    · exact of_transition hr (Or.inr rfl) _
    · exact refl k v

theorem cancel (k : OrderId) (v : View) : Bystander k v v.cancel := by
  unfold View.cancel
  split
  · exact refl k v
  · rename_i o hr
    split
    · exact of_transition hr (Or.inr rfl) _
    · exact refl k v

theorem restate (k : OrderId) (v : View) : Bystander k v v.restate := by
  have hmore : ∀ m, Bystander k v (v.extend [.orderStatus m] []) := fun m =>
    ⟨⟨(·.status), by simp [View.extend], fun o => Shifts.refl o.status⟩, by simp [View.extend],
      by simp [View.extend]⟩
  unfold View.restate
  split
  · exact refl k v
  · split
    · exact hmore _
    · exact refl k v

/-- The record of a bystander. -/
theorem get (h : Bystander k v v') {o : OrderRecord} (ho : v.record = some o) :
    ∃ st, v'.record = some { o with status := st } ∧ Shifts o.status st := by
  obtain ⟨st, hrec, hst⟩ := h.record
  exact ⟨st o, by rw [hrec, ho]; rfl, hst o⟩

/-- The record that a bystander had before. -/
theorem back (h : Bystander k v v') {o' : OrderRecord} (ho' : v'.record = some o') :
    ∃ o, v.record = some o ∧ o' = { o with status := o'.status } ∧ Shifts o.status o'.status := by
  obtain ⟨st, hrec, hst⟩ := h.record
  rw [hrec] at ho'
  obtain ⟨o, ho, rfl⟩ := Option.map_eq_some_iff.mp ho'
  exact ⟨o, ho, rfl, hst o⟩

end Bystander

/-- What a fill of `j` does to its children and to its sibling makes them bystanders. -/
theorem bystander_touched (s : Sim) (j k : OrderId) (v : View) : Bystander k v
    (let v := if k ∈ s.activated j then v.activate j else v
     if s.siblingOf j = some k then v.ocaCancel ((s.bracketChildToParent j).getD 0) else v) := by
  have hcancelled : ∀ v : View, Bystander k v (if s.siblingOf j = some k
      then v.ocaCancel ((s.bracketChildToParent j).getD 0) else v) := by
    intro v
    split
    · exact Bystander.ocaCancel k v _
    · exact Bystander.refl k v
  refine Bystander.trans ?_ (hcancelled _)
  split
  · exact Bystander.activate k v j
  · exact Bystander.refl k v

/-- A look at one order makes another a bystander. -/
theorem bystander_look {s : Sim} (hb : Books s) (snap : MarketSnapshot) {j k : OrderId} (hne : j ≠ k) :
    Bystander k (s.view k) ((look rng baseSeed snap j s).2.view k) := by
  cases hfill : s.fillIn snap j with
  | none =>
    rw [view_look_of_none rng baseSeed snap hfill, if_neg hne]
    exact Bystander.refl k _
  | some fill =>
    rw [view_look_of_some rng baseSeed snap hfill (hb.activated_nodup j)]
    simp only [hne, if_false]
    exact bystander_touched s j k _

/-- An order that a look fills is a bystander from then on. -/
theorem bystander_filled {s : Sim} (hb : Books s) {snap : MarketSnapshot} {k : OrderId} {fill : Fill}
    (hfill : s.fillIn snap k = some fill) : Bystander k ((s.view k).fill rng baseSeed snap s fill)
      ((look rng baseSeed snap k s).2.view k) := by
  rw [view_look_of_some rng baseSeed snap hfill (hb.activated_nodup k)]
  simp only [if_true]
  exact bystander_touched s k k _

/-- A look at one order leaves another alone that it neither activates nor cancels. -/
theorem view_look_untouched {s : Sim} (hb : Books s) (snap : MarketSnapshot) {j k : OrderId}
    (hne : j ≠ k) (hact : k ∉ s.activated j) (hsib : s.siblingOf j ≠ some k) :
    (look rng baseSeed snap j s).2.view k = s.view k := by
  cases hfill : s.fillIn snap j with
  | none => rw [view_look_of_none rng baseSeed snap hfill, if_neg hne]
  | some fill =>
    rw [view_look_of_some rng baseSeed snap hfill (hb.activated_nodup j)]
    simp only [hne, hact, hsib, if_false]

/-! ### The walk -/

theorem mem_candidateIds {snap : MarketSnapshot} {s : Sim} {k : OrderId} :
    k ∈ candidateIds snap s ↔ ∃ o, s.orders.get? k = some o ∧ isActive o.status = true ∧
      symbolKeyFor o.contract = snap.symbol := by
  rw [candidateIds, List.mem_insertionSort, List.mem_map]
  constructor
  · rintro ⟨o, ho, rfl⟩
    rw [List.mem_filter] at ho
    exact ⟨o, Store.get?_of_mem ho.1, by simpa using ho.2⟩
  · rintro ⟨o, ho, hactive⟩
    exact ⟨o, List.mem_filter.mpr ⟨Store.mem_of_get? ho, by simpa using hactive⟩,
      Store.key_of_get? ho⟩

theorem nodup_candidateIds (snap : MarketSnapshot) (s : Sim) : (candidateIds snap s).Nodup := by
  rw [candidateIds, (List.perm_insertionSort _ _).nodup_iff]
  exact s.orders.nodup.sublist (List.filter_sublist.map _)

/-- Groups between two looks: some may have stopped waiting for their parent. -/
structure Regrouped (s s' : Sim) : Prop where
  brackets : ∃ f : BracketGroup → BracketGroup,
    (∀ p, s'.brackets.get? p = (s.brackets.get? p).map f) ∧
      ∀ g, (∃ state, f g = { g with state := state }) ∧
        ((f g).state = .parentWorking → g.state = .parentWorking)

theorem Regrouped.refl (s : Sim) : Regrouped s s :=
  ⟨id, by simp, fun g => ⟨⟨g.state, rfl⟩, id⟩⟩

theorem Regrouped.trans {s s' s'' : Sim} (h : Regrouped s s') (h' : Regrouped s' s'') :
    Regrouped s s'' := by
  obtain ⟨f, hf, hstate⟩ := h.brackets
  obtain ⟨f', hf', hstate'⟩ := h'.brackets
  refine ⟨f' ∘ f, fun p => by rw [hf', hf, Option.map_map], fun g => ⟨?_, fun hw => ?_⟩⟩
  · obtain ⟨st, hst⟩ := (hstate g).1
    obtain ⟨st', hst'⟩ := (hstate' (f g)).1
    exact ⟨st', by rw [Function.comp, hst', hst]⟩
  · exact (hstate g).2 ((hstate' (f g)).2 hw)

theorem regrouped_look (snap : MarketSnapshot) (j : OrderId) (s : Sim) :
    Regrouped s (look rng baseSeed snap j s).2 := by
  cases hfill : s.fillIn snap j with
  | none =>
    have hsame := (sameGroups_look_of_none rng baseSeed snap hfill).brackets
    exact ⟨id, by simp [hsame], fun g => ⟨⟨g.state, rfl⟩, id⟩⟩
  | some fill =>
    refine ⟨_, brackets_look_of_some rng baseSeed snap hfill, fun g => ⟨?_, fun hw => ?_⟩⟩
    · unfold BracketGroup.cancel BracketGroup.activate
      split <;> split <;> exact ⟨_, rfl⟩
    · exact (parentWorking_after hw).1

/-- `s'` comes up in the walk of a snapshot from `s`, with the looks at `js` still to come. -/
structure Ahead (snap : MarketSnapshot) (s : Sim) (js : List OrderId) (s' : Sim) : Prop where
  initial : Books s
  books : Books s'
  suffix : js <:+ candidateIds snap s
  settings : SameSettings s s'
  groups : Regrouped s s'
  bystander : ∀ k, (k ∈ candidateIds snap s → k ∈ js) → Bystander k (s.view k) (s'.view k)
  activated : ∀ j ∈ js, s'.activated j = s.activated j

/-- A child that the walk looks at is in a group that waits no more. -/
theorem Books.not_parentWorking {s : Sim} (hb : Books s) {snap : MarketSnapshot} {j p : OrderId}
    (hj : j ∈ candidateIds snap s) (hp : s.bracketChildToParent j = some p) {g : BracketGroup}
    (hg : s.brackets.get? p = some g) : g.state ≠ .parentWorking := by
  intro hw
  obtain ⟨o, ho, hactive, -⟩ := mem_candidateIds.mp hj
  rw [hb.parent j, ho, Option.bind_some] at hp
  rcases hb.waiting p g j o hg hw ho hp with hst | hst <;> rw [hst] at hactive <;> cases hactive

namespace Ahead

variable {snap : MarketSnapshot} {s s' : Sim} {j k : OrderId} {js : List OrderId}

theorem start (hb : Books s) : Ahead snap s (candidateIds snap s) s :=
  ⟨hb, hb, List.suffix_rfl, SameSettings.refl s, Regrouped.refl s, fun k _ => Bystander.refl k _,
    fun _ _ => rfl⟩

theorem nodup (h : Ahead snap s js s') : js.Nodup :=
  (nodup_candidateIds snap s).sublist h.suffix.sublist

theorem candidate (h : Ahead snap s js s') (hk : k ∈ js) : k ∈ candidateIds snap s :=
  h.suffix.subset hk

theorem not_parentWorking (h : Ahead snap s js s') (hj : j ∈ js) {p : OrderId}
    (hp : s'.bracketChildToParent j = some p) {g : BracketGroup} (hg : s'.brackets.get? p = some g) :
    g.state ≠ .parentWorking := by
  obtain ⟨f, hf, hstate⟩ := h.groups.brackets
  rw [hf] at hg
  obtain ⟨g₀, hg₀, rfl⟩ := Option.map_eq_some_iff.mp hg
  rw [h.settings.bracketChildToParent] at hp
  exact fun hw => h.initial.not_parentWorking (h.candidate hj) hp hg₀ ((hstate g₀).2 hw)

/-- A look at one order leaves what a fill of another will activate. -/
theorem activated_look (h : Ahead snap s js s') (hj : j ∈ js) (hne : j ≠ k) :
    (IbSim.look rng baseSeed snap j s').2.activated k = s'.activated k := by
  cases hfill : s'.fillIn snap j with
  | none =>
    rw [Sim.activated, Sim.activated, (sameGroups_look_of_none rng baseSeed snap hfill).brackets]
  | some fill =>
    have hgroup := brackets_look_of_some rng baseSeed snap hfill k
    rw [Sim.activated, Sim.activated, hgroup]
    cases hg : s'.brackets.get? k with
    | none => rfl
    | some g =>
      obtain rfl : g.parentId = k := Store.key_of_get? hg
      have hsame : g.activate j = g := if_neg fun h => hne h.1.symm
      simp only [Option.map_some, hsame, BracketGroup.cancel]
      split
      · rename_i hcancel
        have hw := h.not_parentWorking hj hcancel.1 hg
        simp [hw]
      · rfl

/-- One more look. -/
theorem look (h : Ahead snap s (j :: js) s') : Ahead snap s js (look rng baseSeed snap j s').2 where
  initial := h.initial
  books := books_look h.books snap j
  suffix := (List.suffix_cons j js).trans h.suffix
  settings := h.settings.trans (sameSettings_look rng baseSeed snap j s')
  groups := h.groups.trans (regrouped_look snap j s')
  bystander k hk := by
    have hne : j ≠ k := by
      rintro rfl
      exact (List.nodup_cons.mp h.nodup).1 (hk (h.candidate List.mem_cons_self))
    have hbefore := h.bystander k fun hc => List.mem_cons_of_mem j (hk hc)
    exact hbefore.trans (bystander_look h.books snap hne)
  activated k hk := by
    have hne : j ≠ k := fun heq => (List.nodup_cons.mp h.nodup).1 (heq ▸ hk)
    rw [h.activated_look List.mem_cons_self hne, h.activated k (List.mem_cons_of_mem j hk)]

/-- Whether an order fills is settled before the walk. -/
theorem fillIn (h : Ahead snap s js s') (hk : k ∈ js) : s'.fillIn snap k = s.fillIn snap k := by
  obtain ⟨st, hrec, -⟩ := (h.bystander k fun _ => hk).record
  have hrec' : s'.orders.get? k = (s.orders.get? k).map fun o => { o with status := st o } := hrec
  rw [Sim.fillIn, Sim.fillIn, hrec', h.settings.slippage]
  cases s.orders.get? k with
  | none => rfl
  | some o =>
    have hstatus := maybeFill_status o (st o) snap.mid snap.bid snap.ask snap.ts s.slippage
    simp only [Option.map_some, Option.bind_some, OrderRecord.fillIn, hstatus]

theorem siblingOf (h : Ahead snap s js s') (k : OrderId) : s'.siblingOf k = s.siblingOf k := by
  obtain ⟨f, hf, hstate⟩ := h.groups.brackets
  simp only [Sim.siblingOf, Sim.parentGroup, h.settings.bracketChildToParent]
  cases s.bracketChildToParent k with
  | none => rfl
  | some p =>
    simp only [Option.bind_some, hf]
    cases s.brackets.get? p with
    | none => rfl
    | some g =>
      obtain ⟨state, hg⟩ := (hstate g).1
      simp only [Option.map_some, Option.bind_some, hg]
      rfl

end Ahead

variable (rng baseSeed)

/-- What every look keeps of the orders still to come and the state, holds after the walk. -/
theorem snapshot_walk {I : List OrderId → Sim → Prop} {snap : MarketSnapshot} {s : Sim}
    (hstep : ∀ j js s', Ahead snap s (j :: js) s' → I (j :: js) s' →
      I js (look rng baseSeed snap j s').2)
    (hb : Books s) (h : I (candidateIds snap s) s) :
    Ahead snap s [] (onMarketSnapshot rng baseSeed snap s).2 ∧
      I [] (onMarketSnapshot rng baseSeed snap s).2 := by
  have hwalk : ∀ js s', Ahead snap s js s' → I js s' →
      Ahead snap s [] (js.foldl (fun s j => (look rng baseSeed snap j s).2) s') ∧
        I [] (js.foldl (fun s j => (look rng baseSeed snap j s).2) s') := by
    intro js
    induction js with
    | nil => exact fun s' ha hi => ⟨ha, hi⟩
    | cons j js ih => exact fun s' ha hi => ih _ ha.look (hstep j js s' ha hi)
  rw [onMarketSnapshot, emitAll_snd]
  exact hwalk _ s (Ahead.start hb) h

/-- Whoever a snapshot does not look at is a bystander. -/
theorem bystander_onMarketSnapshot {s : Sim} (hb : Books s) {snap : MarketSnapshot} {k : OrderId}
    (hk : k ∉ candidateIds snap s) :
    Bystander k (s.view k) ((onMarketSnapshot rng baseSeed snap s).2.view k) := by
  have hwalk : Ahead snap s [] (onMarketSnapshot rng baseSeed snap s).2 :=
    (snapshot_walk rng baseSeed (I := fun _ _ => True) (fun _ _ _ _ _ => trivial) hb trivial).1
  exact hwalk.bystander k fun hmem => absurd hmem hk

/-- A candidate is looked at once. What every look at another makes of the view of some order relates
    the views of that order before and after. -/
theorem exists_look_of {R : View → View → Prop} (hrefl : ∀ v, R v v)
    (htrans : ∀ {v v' v''}, R v v' → R v' v'' → R v v'') {s : Sim} (hb : Books s)
    {snap : MarketSnapshot} {d k : OrderId}
    (hother : ∀ j js s', Ahead snap s (j :: js) s' → j ≠ d →
      R (s'.view k) ((look rng baseSeed snap j s').2.view k))
    (hd : d ∈ candidateIds snap s) : ∃ js s', Ahead snap s (d :: js) s' ∧ R (s.view k) (s'.view k) ∧
      R ((look rng baseSeed snap d s').2.view k) ((onMarketSnapshot rng baseSeed snap s).2.view k) := by
  refine (snapshot_walk rng baseSeed (I := fun js s₂ => (d ∈ js → R (s.view k) (s₂.view k)) ∧
    (d ∉ js → ∃ js₁ s₁, Ahead snap s (d :: js₁) s₁ ∧ R (s.view k) (s₁.view k) ∧
      R ((look rng baseSeed snap d s₁).2.view k) (s₂.view k))) ?_ hb
    ⟨fun _ => hrefl _, absurd hd⟩).2.2 List.not_mem_nil
  rintro j js s' ha ⟨hbefore, hafter⟩
  by_cases hne : j = d
  · subst hne
    have hgone : j ∉ js := (List.nodup_cons.mp ha.nodup).1
    exact ⟨fun hmem => absurd hmem hgone,
      fun _ => ⟨js, s', ha, hbefore List.mem_cons_self, hrefl _⟩⟩
  · refine ⟨fun hmem => ?_, fun hnot => ?_⟩
    · exact htrans (hbefore (List.mem_cons_of_mem j hmem)) (hother j js s' ha hne)
    · obtain ⟨js₁, s₁, ha₁, hr, hr'⟩ := hafter (by simpa [Ne.symm hne] using hnot)
      exact ⟨js₁, s₁, ha₁, hr, htrans hr' (hother j js s' ha hne)⟩

/-- A candidate is a bystander before the look at it and after. -/
theorem exists_look {s : Sim} (hb : Books s) {snap : MarketSnapshot} {k : OrderId}
    (hk : k ∈ candidateIds snap s) : ∃ js s', Ahead snap s (k :: js) s' ∧
      Bystander k ((look rng baseSeed snap k s').2.view k)
        ((onMarketSnapshot rng baseSeed snap s).2.view k) := by
  obtain ⟨js, s', ha, -, hafter⟩ := exists_look_of rng baseSeed (R := Bystander k) (Bystander.refl k)
    Bystander.trans hb (fun _ _ _ ha hne => bystander_look ha.books snap hne) hk
  exact ⟨js, s', ha, hafter⟩

/-- An order without a parent sees nothing of the fills of others. -/
theorem view_look_root {s : Sim} (hb : Books s) (snap : MarketSnapshot) {j k : OrderId} (hne : j ≠ k)
    (hroot : s.bracketChildToParent k = none) :
    (look rng baseSeed snap j s).2.view k = s.view k := by
  have hparent : ∀ {p o}, s.orders.get? k = some o → o.parentId ≠ some p := by
    intro p o ho hp
    have h := hb.parent k
    rw [hroot, ho, Option.bind_some, hp] at h
    cases h
  refine view_look_untouched hb snap hne ?_ ?_
  · intro hact
    obtain ⟨-, o, -, -, ho, hp⟩ := hb.of_mem_activated hact
    exact hparent ho hp
  · intro hsib
    obtain ⟨p, -, o, -, -, ho, hp⟩ := hb.of_siblingOf hsib
    exact hparent ho hp

end Midas.IbSim
