import HandOfMidas.IbSim.Looks
import HandOfMidas.Lib.KeyFold
import Mathlib.Logic.Relation

/-! What a snapshot makes of each order, read off the state before it: the walk over the candidates,
    one after the other, comes to the same as a rule that looks at all of them at once. -/

namespace Midas.IbSim

variable {rng : Rng} {baseSeed : UInt64} {snap : MarketSnapshot} {s : Sim} {j k : OrderId}

/-- The snapshot looks at order `k` and meets it. -/
def Sim.Fires (s : Sim) (snap : MarketSnapshot) (k : OrderId) : Prop :=
  k ∈ candidateIds snap s ∧ (s.fillIn snap k).isSome = true

instance (s : Sim) (snap : MarketSnapshot) (k : OrderId) : Decidable (s.Fires snap k) :=
  inferInstanceAs (Decidable (_ ∧ _))

/-- A sibling's fill cancels order `k` before it could fill itself. -/
def Sim.Undercut (s : Sim) (snap : MarketSnapshot) (k : OrderId) : Prop :=
  ∃ j, s.siblingOf k = some j ∧ s.Fires snap j ∧ (s.Fires snap k → j < k)

instance (s : Sim) (snap : MarketSnapshot) (k : OrderId) : Decidable (s.Undercut snap k) :=
  decidable_of_iff (∃ j ∈ (s.siblingOf k).toList, s.Fires snap j ∧ (s.Fires snap k → j < k)) <| by
    simp [Sim.Undercut]

/-- The fill of its parent activates order `k`. -/
def Sim.Activates (s : Sim) (snap : MarketSnapshot) (k : OrderId) : Prop :=
  ∃ p, s.bracketChildToParent k = some p ∧ s.Fires snap p ∧ k ∈ s.activated p

instance (s : Sim) (snap : MarketSnapshot) (k : OrderId) : Decidable (s.Activates snap k) :=
  decidable_of_iff (∃ p ∈ (s.bracketChildToParent k).toList, s.Fires snap p ∧ k ∈ s.activated p) <| by
    simp [Sim.Activates]

/-- The status of an order after a snapshot. -/
def Sim.statusAt (s : Sim) (snap : MarketSnapshot) (o : OrderRecord) : OrderStatusCode :=
  if s.Activates snap o.orderId then statusAfter o.kind o.status .submitted
  else if s.Undercut snap o.orderId then statusAfter o.kind o.status .cancelled
  else if s.Fires snap o.orderId then statusAfter o.kind o.status .filled
  else o.status

/-! ### Siblings -/

theorem BracketGroup.sibling_comm {g : BracketGroup} (hnd : g.children.Nodup)
    (h : g.sibling j = some k) : g.sibling k = some j ∧ j ≠ k := by
  obtain ⟨p, tp, sl, oca, state⟩ := g
  cases tp <;> cases sl <;> simp [BracketGroup.sibling, BracketGroup.children] at h hnd ⊢
  grind

theorem Books.siblingOf_comm (hb : Books s) (h : s.siblingOf j = some k) :
    s.siblingOf k = some j ∧ j ≠ k := by
  obtain ⟨g, hg, hsib⟩ := Option.bind_eq_some_iff.mp h
  obtain ⟨p, -, hgp⟩ := Option.bind_eq_some_iff.mp hg
  obtain ⟨o, ho, hp⟩ := hb.slot p g k hgp (BracketGroup.mem_children_of_sibling hsib)
  obtain ⟨hback, hne⟩ := BracketGroup.sibling_comm (hb.distinct p g hgp) hsib
  refine ⟨?_, hne⟩
  have hparent : s.bracketChildToParent k = some p := by rw [hb.parent, ho, Option.bind_some, hp]
  simp only [Sim.siblingOf, Sim.parentGroup, hparent, Option.bind_some, hgp, hback]

/-- A candidate's parent waits no more; so a candidate is not activated, and neither is its sibling. -/
theorem Books.parent_not_working (hb : Books s) (hj : j ∈ candidateIds snap s) {p : OrderId}
    (hp : s.bracketChildToParent j = some p) : s.activated p = [] := by
  unfold Sim.activated
  cases hg : s.brackets.get? p with
  | none => rfl
  | some g => simp [hb.not_parentWorking hj hp hg]

theorem Books.parent_of_activated (hb : Books s) {p : OrderId} (h : k ∈ s.activated p) :
    s.bracketChildToParent k = some p := by
  obtain ⟨-, o, -, -, ho, hp⟩ := hb.of_mem_activated h
  rw [hb.parent, ho, Option.bind_some, hp]

theorem Books.parent_of_sibling (hb : Books s) (h : s.siblingOf j = some k) :
    ∃ p, s.bracketChildToParent j = some p ∧ s.bracketChildToParent k = some p := by
  obtain ⟨p, oj, ok, hj, hjp, hk, hkp⟩ := hb.of_siblingOf h
  exact ⟨p, by rw [hb.parent, hj, Option.bind_some, hjp], by rw [hb.parent, hk, Option.bind_some, hkp]⟩

/-- A candidate that is a child is submitted. -/
theorem Books.submitted_of_candidate (hb : Books s) (hk : k ∈ candidateIds snap s) {p : OrderId}
    (hp : s.bracketChildToParent k = some p) {o : OrderRecord} (ho : s.orders.get? k = some o) :
    o.status = .submitted := by
  obtain ⟨o', ho', hactive, -⟩ := mem_candidateIds.mp hk
  obtain rfl : o = o' := Option.some.inj (ho.symm.trans ho')
  rw [hb.parent, ho, Option.bind_some] at hp
  rcases hb.childStatus p k o ho hp with hst | hst | hst | hst
  · rw [hst] at hactive; cases hactive
  · exact hst
  · rw [hst] at hactive; cases hactive
  · rw [hst] at hactive; cases hactive

/-- Whoever fills is active, so its parent does not activate it. -/
theorem Books.not_activates_of_fires (hb : Books s) (h : s.Fires snap k) : ¬s.Activates snap k := by
  rintro ⟨p, hp, -, hact⟩
  rw [hb.parent_not_working h.1 hp] at hact
  cases hact

/-! ### The walk, one status at a time -/

/-- What a fill of `j` makes of the status of order `k`. -/
def Sim.touch (s : Sim) (kind : OrderKind) (k : OrderId) (st : OrderStatusCode) (j : OrderId) :
    OrderStatusCode :=
  let st := if j = k then statusAfter kind st .filled else st
  let st := if k ∈ s.activated j then statusAfter kind st .submitted else st
  if s.siblingOf j = some k then statusAfter kind st .cancelled else st

variable (rng baseSeed snap) in
theorem status_fold (hb : Books s) {o : OrderRecord} (ho : s.orders.get? k = some o) :
    ∃ o', (onMarketSnapshot rng baseSeed snap s).2.orders.get? k = some o' ∧ SameOrder o o' ∧
      o'.status = ((candidateIds snap s).filter fun j => (s.fillIn snap j).isSome).foldl
        (s.touch o.kind k) o.status := by
  refine Exists.elim (snapshot_walk rng baseSeed (I := fun js s' =>
    ∃ pre, pre ++ js = candidateIds snap s ∧ ∃ o', s'.orders.get? k = some o' ∧ SameOrder o o' ∧
      o'.status = (pre.filter fun j => (s.fillIn snap j).isSome).foldl (s.touch o.kind k) o.status)
    ?_ hb ⟨[], rfl, o, ho, SameOrder.refl o, rfl⟩).2 fun pre hafter => ?_
  · rintro j js s' ha ⟨pre, hpre, o', ho', hsame, hstatus⟩
    refine ⟨pre ++ [j], by rw [List.append_assoc, List.singleton_append, hpre], ?_⟩
    rw [List.filter_append, List.foldl_append, ← hstatus, List.filter_singleton,
      ← ha.fillIn List.mem_cons_self]
    cases hfill : s'.fillIn snap j with
    | none =>
      have hview := congrArg View.record (view_look_of_none rng baseSeed snap hfill k)
      have hrec : (look rng baseSeed snap j s').2.orders.get? k =
          if j = k then some (o'.seen snap s'.slippage) else some o' := by
        refine hview.trans ?_
        split <;> simp [Sim.view, ho']
      by_cases hjk : j = k
      · exact ⟨_, by rw [hrec, if_pos hjk], hsame.trans (sameOrder_seen snap _ o'), seen_status _ _ _⟩
      · exact ⟨o', by rw [hrec, if_neg hjk], hsame, rfl⟩
    | some fill =>
      refine ⟨s'.recordAfter rng baseSeed snap fill j k o', ?_, ?_, ?_⟩
      · rw [record_look_of_some hfill (ha.books.activated_nodup j), ho']
        rfl
      · exact hsame.trans (sameOrder_recordAfter snap s' fill j k o')
      · rw [status_recordAfter, ha.activated j List.mem_cons_self, ha.siblingOf, hsame.kind]
        rfl
  · obtain ⟨hpre, hall⟩ := hafter
    rw [List.append_nil] at hpre
    exact hpre ▸ hall

/-! ### The rule for all at once -/

section Rule

theorem pairwise_candidateIds (snap : MarketSnapshot) (s : Sim) :
    (candidateIds snap s).Pairwise fun a b => a ≤ b := List.pairwise_insertionSort _ _

/-- The candidates that fill, in the order of the walk. -/
def Sim.firing (s : Sim) (snap : MarketSnapshot) : List OrderId :=
  (candidateIds snap s).filter fun j => (s.fillIn snap j).isSome

theorem mem_firing : j ∈ s.firing snap ↔ s.Fires snap j := List.mem_filter

theorem nodup_firing (snap : MarketSnapshot) (s : Sim) : (s.firing snap).Nodup :=
  (nodup_candidateIds snap s).filter _

variable {o : OrderRecord}

/-- Nobody but its parent and its sibling touches another order. -/
theorem touch_of_stranger (hne : j ≠ k) (hact : k ∉ s.activated j) (hsib : s.siblingOf j ≠ some k)
    (kind : OrderKind) (st : OrderStatusCode) : s.touch kind k st j = st := by
  simp [Sim.touch, hne, hact, hsib]

/-- A child that is activated is no candidate, and neither is its sibling. -/
theorem Books.idle_of_activates (hb : Books s) (h : s.Activates snap k) :
    ∃ p, s.bracketChildToParent k = some p ∧ s.Fires snap p ∧ k ∈ s.activated p ∧
      ∀ j ∈ candidateIds snap s, j ≠ k ∧ s.siblingOf j ≠ some k := by
  obtain ⟨p, hp, hfires, hact⟩ := h
  -- while the group waits, no child of `p` is looked at
  have hidle : ∀ j ∈ candidateIds snap s, s.bracketChildToParent j ≠ some p := by
    intro j hj hjp
    rw [hb.parent_not_working hj hjp] at hact
    cases hact
  refine ⟨p, hp, hfires, hact, fun j hj => ⟨fun heq => hidle j hj (heq ▸ hp), fun hjk => ?_⟩⟩
  obtain ⟨q, hjq, hkq⟩ := hb.parent_of_sibling hjk
  exact hidle j hj (hjq.trans (hkq.symm.trans hp))

/-- A child that is activated meets nobody but its parent in the walk. -/
theorem fold_of_activates (hb : Books s) (h : s.Activates snap k) (kind : OrderKind)
    (st : OrderStatusCode) :
    (s.firing snap).foldl (s.touch kind k) st = statusAfter kind st .submitted := by
  obtain ⟨p, hp, hfires, hact, hidle⟩ := hb.idle_of_activates h
  rw [foldl_one (nodup_firing snap s) (a := p), if_pos (mem_firing.mpr hfires)]
  · simp only [Sim.touch, (hidle p hfires.1).1, hact, (hidle p hfires.1).2, if_true, if_false]
  · intro j hj hjp st
    obtain ⟨hne, hsib⟩ := hidle j (mem_firing.mp hj).1
    refine touch_of_stranger hne (fun hj' => hjp ?_) hsib kind st
    exact Option.some.inj ((hb.parent_of_activated hj').symm.trans hp)

/-- An order that no sibling cancels and no parent activates meets nobody in the walk. -/
theorem fold_of_alone (hb : Books s) (hact : ¬s.Activates snap k)
    (hsib : ∀ j, s.siblingOf k = some j → ¬s.Fires snap j) (kind : OrderKind) (st : OrderStatusCode) :
    (s.firing snap).foldl (s.touch kind k) st =
      if s.Fires snap k then statusAfter kind st .filled else st := by
  have hno : ∀ j, s.Fires snap j → k ∉ s.activated j ∧ s.siblingOf j ≠ some k := by
    intro j hj
    refine ⟨fun hk => hact ⟨j, hb.parent_of_activated hk, hj, hk⟩, fun hjk => ?_⟩
    exact hsib j (hb.siblingOf_comm hjk).1 hj
  rw [foldl_one (nodup_firing snap s) (a := k)]
  · by_cases hfires : s.Fires snap k
    · simp only [mem_firing, hfires, if_true, Sim.touch, hno k hfires, if_false]
    · simp only [mem_firing, hfires, if_false]
  · intro j hj hjk st
    obtain ⟨h₁, h₂⟩ := hno j (mem_firing.mp hj)
    exact touch_of_stranger hjk h₁ h₂ kind st

/-- An order with a sibling that fills meets that sibling, and its own fill before or after. -/
theorem fold_of_sibling (hb : Books s) (hact : ¬s.Activates snap k) (hsib : s.siblingOf k = some j)
    (hj : s.Fires snap j) (ho : s.orders.get? k = some o) :
    (s.firing snap).foldl (s.touch o.kind k) o.status =
      if s.Undercut snap k then statusAfter o.kind o.status .cancelled
      else statusAfter o.kind o.status .filled := by
  obtain ⟨hback, hne⟩ := hb.siblingOf_comm hsib
  have hnoact : ∀ i, s.Fires snap i → k ∉ s.activated i := fun i hi hk =>
    hact ⟨i, hb.parent_of_activated hk, hi, hk⟩
  have hothers : ∀ i ∈ s.firing snap, i ≠ k → i ≠ j → ∀ st, s.touch o.kind k st i = st := by
    intro i hi hik hij st
    refine touch_of_stranger hik (hnoact i (mem_firing.mp hi)) (fun hsib' => hij ?_) o.kind st
    exact Option.some.inj ((hb.siblingOf_comm hsib').1.symm.trans hsib)
  have hatj : ∀ st, s.touch o.kind k st j = statusAfter o.kind st .cancelled := fun st => by
    simp only [Sim.touch, Ne.symm hne, hnoact j hj, hback, if_false, if_true]
  have hself : s.siblingOf k ≠ some k := fun h => (hb.siblingOf_comm h).2 rfl
  by_cases hk : s.Fires snap k
  · have hatk : ∀ st, s.touch o.kind k st k = statusAfter o.kind st .filled := fun st => by
      simp only [Sim.touch, hnoact k hk, hself, if_false, if_true]
    obtain ⟨p, hp, -⟩ := hb.parent_of_sibling hsib
    have hst := hb.submitted_of_candidate hk.1 hp ho
    have hsorted : (s.firing snap).Pairwise fun a b => a ≤ b := (pairwise_candidateIds snap s).filter _
    by_cases hlt : j < k
    · have hunder : s.Undercut snap k := ⟨j, hsib, hj, fun _ => hlt⟩
      have hfirst : ¬k ≤ j := fun hle => Int32.lt_irrefl (Int32.lt_of_lt_of_le hlt hle)
      rw [foldl_two hfirst (Ne.symm hne) (nodup_firing snap s) hsorted
        (fun i hi hij hik => hothers i hi hik hij) (mem_firing.mpr hj) (mem_firing.mpr hk), hatj, hatk,
        if_pos hunder, hst]
      cases o.kind <;> rfl
    · have hunder : ¬s.Undercut snap k := by
        rintro ⟨i, hi, -, hlt'⟩
        obtain rfl : i = j := Option.some.inj (hi.symm.trans hsib)
        exact hlt (hlt' hk)
      have hfirst : ¬j ≤ k := fun hle => hlt (Int32.lt_of_le_of_ne hle (Ne.symm hne))
      rw [foldl_two hfirst hne (nodup_firing snap s) hsorted hothers (mem_firing.mpr hk)
        (mem_firing.mpr hj), hatk, hatj, if_neg hunder, hst]
      cases o.kind <;> rfl
  · have hunder : s.Undercut snap k := ⟨j, hsib, hj, fun h => absurd h hk⟩
    rw [foldl_one (nodup_firing snap s) (a := j), if_pos (mem_firing.mpr hj), hatj, if_pos hunder]
    intro i hi hij st
    refine hothers i hi (fun heq => hk ?_) hij st
    exact heq ▸ mem_firing.mp hi

end Rule

variable (rng baseSeed snap) in
/-- The walk of a snapshot, one order after the other, comes to the same as the rule for all at once. -/
theorem status_onMarketSnapshot (hb : Books s) {o : OrderRecord} (ho : s.orders.get? k = some o) :
    ∃ o', (onMarketSnapshot rng baseSeed snap s).2.orders.get? k = some o' ∧ SameOrder o o' ∧
      o'.status = s.statusAt snap o := by
  obtain ⟨o', ho', hsame, hstatus⟩ := status_fold rng baseSeed snap hb ho
  refine ⟨o', ho', hsame, hstatus.trans ?_⟩
  obtain rfl : o.orderId = k := Store.key_of_get? ho
  change (s.firing snap).foldl _ _ = _
  unfold Sim.statusAt
  by_cases hact : s.Activates snap o.orderId
  · rw [fold_of_activates hb hact, if_pos hact]
  rw [if_neg hact]
  by_cases hsib : ∃ j, s.siblingOf o.orderId = some j ∧ s.Fires snap j
  · obtain ⟨j, hj, hfires⟩ := hsib
    rw [fold_of_sibling hb hact hj hfires ho]
    split
    · rfl
    · rename_i hunder
      have hk : s.Fires snap o.orderId := by
        by_contra hk
        exact hunder ⟨j, hj, hfires, fun h => absurd h hk⟩
      rw [if_pos hk]
  · have hunder : ¬s.Undercut snap o.orderId := fun ⟨j, hj, hfires, _⟩ => hsib ⟨j, hj, hfires⟩
    rw [fold_of_alone hb hact fun j hj hfires => hsib ⟨j, hj, hfires⟩, if_neg hunder]

/-! ### Views -/

/-- What another order may do to one that is not activated: cancel it as its sibling. -/
def Cancels : View → View → Prop := Relation.ReflTransGen fun v v' => ∃ p, v' = v.ocaCancel p

/-- Beside that, the market may look at the order and set its stop flag. -/
def Glances : View → View → Prop := Relation.ReflTransGen fun v v' =>
  (∃ p, v' = v.ocaCancel p) ∨
    ∃ snap slippage, v' = { v with record := v.record.map (OrderRecord.seen snap slippage) }

theorem Cancels.glances {v v' : View} (h : Cancels v v') : Glances v v' := by
  induction h with
  | refl => exact .refl
  | tail _ hmove ih => exact ih.tail (.inl hmove)

/-- A look at another order may cancel this one, unless it activates it. -/
theorem cancels_look {js : List OrderId} {s' : Sim} (ha : Ahead snap s (j :: js) s') (hne : j ≠ k)
    (hact : ¬s.Activates snap k) : Cancels (s'.view k) ((look rng baseSeed snap j s').2.view k) := by
  cases hfill : s'.fillIn snap j with
  | none =>
    rw [view_look_of_none rng baseSeed snap hfill, if_neg hne]
    exact .refl
  | some fill =>
    have hnot : k ∉ s'.activated j := by
      rw [ha.activated j List.mem_cons_self]
      intro hk
      refine hact ⟨j, ha.initial.parent_of_activated hk, ⟨ha.candidate List.mem_cons_self, ?_⟩, hk⟩
      rw [← ha.fillIn List.mem_cons_self, hfill]
      rfl
    rw [view_look_of_some rng baseSeed snap hfill (ha.books.activated_nodup j)]
    simp only [hne, hnot, if_false]
    split
    · exact .single ⟨_, rfl⟩
    · exact .refl

/-- An order that a snapshot meets is filled, and may be cancelled before or after. -/
theorem view_of_fires (rng : Rng) (baseSeed : UInt64) (hb : Books s) (h : s.Fires snap k) :
    ∃ js s' fill, Ahead snap s (k :: js) s' ∧ Cancels (s.view k) (s'.view k) ∧
      Cancels ((s'.view k).fill rng baseSeed snap s' fill)
        ((onMarketSnapshot rng baseSeed snap s).2.view k) := by
  have hact : ¬s.Activates snap k := hb.not_activates_of_fires h
  obtain ⟨js, s', ha, hbefore, hafter⟩ := exists_look_of rng baseSeed (R := Cancels)
    (fun _ => .refl) Relation.ReflTransGen.trans hb (fun _ _ _ ha hne => cancels_look ha hne hact) h.1
  obtain ⟨fill, hfill⟩ := Option.isSome_iff_exists.mp h.2
  rw [← ha.fillIn List.mem_cons_self] at hfill
  refine ⟨js, s', fill, ha, hbefore, Relation.ReflTransGen.trans ?_ hafter⟩
  have hnot : k ∉ s'.activated k := by
    rw [ha.activated k List.mem_cons_self]
    exact fun hk => hact ⟨k, hb.parent_of_activated hk, h, hk⟩
  rw [view_look_of_some rng baseSeed snap hfill (ha.books.activated_nodup k)]
  simp only [hnot, if_true, if_false]
  split
  · exact .single ⟨_, rfl⟩
  · exact .refl

/-- An order that is activated by a snapshot is left alone otherwise. -/
theorem view_of_activates (rng : Rng) (baseSeed : UInt64) (hb : Books s) (h : s.Activates snap k) :
    ∃ p, k ∈ s.activated p ∧
      (onMarketSnapshot rng baseSeed snap s).2.view k = (s.view k).activate p := by
  obtain ⟨p, hp, hfires, hact, hidle⟩ := hb.idle_of_activates h
  have hother : ∀ j js s', Ahead snap s (j :: js) s' → j ≠ p →
      (look rng baseSeed snap j s').2.view k = s'.view k := by
    intro j js s' ha hne
    obtain ⟨hjk, hsib⟩ := hidle j (ha.candidate List.mem_cons_self)
    refine view_look_untouched ha.books snap hjk ?_ ?_
    · rw [ha.activated j List.mem_cons_self]
      exact fun hj => hne (Option.some.inj ((hb.parent_of_activated hj).symm.trans hp))
    · rwa [ha.siblingOf]
  obtain ⟨js, s', ha, hbefore, hafter⟩ := exists_look_of rng baseSeed (R := fun v v' => v' = v)
    (fun _ => rfl) (fun h h' => h'.trans h) hb hother hfires.1
  obtain ⟨fill, hfill⟩ := Option.isSome_iff_exists.mp hfires.2
  rw [← ha.fillIn List.mem_cons_self] at hfill
  refine ⟨p, hact, ?_⟩
  rw [hafter, view_look_of_some rng baseSeed snap hfill (ha.books.activated_nodup p), ← hbefore]
  simp only [(hidle p hfires.1).1, ha.activated p List.mem_cons_self, hact, ha.siblingOf,
    (hidle p hfires.1).2, if_true, if_false]

/-- Any other order is looked at and may be cancelled. -/
theorem view_of_neither (rng : Rng) (baseSeed : UInt64) (hb : Books s) (hfires : ¬s.Fires snap k)
    (hact : ¬s.Activates snap k) :
    Glances (s.view k) ((onMarketSnapshot rng baseSeed snap s).2.view k) := by
  refine (snapshot_walk rng baseSeed (I := fun _ s' => Glances (s.view k) (s'.view k)) ?_ hb .refl).2
  intro j js s' ha hglances
  by_cases hne : j = k
  · subst hne
    have hnone : s'.fillIn snap j = none := by
      rw [ha.fillIn List.mem_cons_self]
      by_contra hsome
      exact hfires ⟨ha.candidate List.mem_cons_self, Option.ne_none_iff_isSome.mp hsome⟩
    rw [view_look_of_none rng baseSeed snap hnone, if_pos rfl]
    exact hglances.tail (.inr ⟨snap, _, rfl⟩)
  · exact hglances.trans (cancels_look ha hne hact).glances

/-- A snapshot brings no new orders. -/
theorem known_before (hb : Books s) {o' : OrderRecord}
    (ho' : (onMarketSnapshot rng baseSeed snap s).2.orders.get? k = some o') :
    ∃ o, s.orders.get? k = some o := by
  by_contra hnone
  have hk : k ∉ candidateIds snap s := fun hk => by
    obtain ⟨o, ho, -⟩ := mem_candidateIds.mp hk
    exact hnone ⟨o, ho⟩
  obtain ⟨o, ho, -⟩ := (bystander_onMarketSnapshot rng baseSeed hb hk).back ho'
  exact hnone ⟨o, ho⟩

/-- In every run, a snapshot moves the statuses of all orders by a rule about the state before it, in
    which the order of the walk shows only between two siblings that both fill. -/
theorem snapshot_is_simultaneous (rng : Rng) (baseSeed : UInt64) (ops : List Op)
    (snap : MarketSnapshot) (k : OrderId) :
    ((runFrom rng baseSeed (ops ++ [.snapshot snap])).2.orders.get? k).map (·.status) =
      ((runFrom rng baseSeed ops).2.orders.get? k).map
        ((runFrom rng baseSeed ops).2.statusAt snap) := by
  have hb : Books (runFrom rng baseSeed ops).2 := books_runFrom ops
  have hrun : runFrom rng baseSeed (ops ++ [.snapshot snap]) =
      step rng baseSeed (runFrom rng baseSeed ops) (.snapshot snap) := run_concat _ _ _ _
  rw [hrun]
  change ((onMarketSnapshot rng baseSeed snap (runFrom rng baseSeed ops).2).2.orders.get? k).map _ = _
  cases ho : (runFrom rng baseSeed ops).2.orders.get? k with
  | none =>
    rw [Option.map_none, Option.map_eq_none_iff, Option.eq_none_iff_forall_ne_some]
    intro o' ho'
    obtain ⟨o, ho₁⟩ := known_before hb ho'
    cases ho.symm.trans ho₁
  | some o =>
    obtain ⟨o', ho', -, hstatus⟩ := status_onMarketSnapshot rng baseSeed snap hb ho
    rw [ho', Option.map_some, Option.map_some, hstatus]

end Midas.IbSim
