import HandOfMidas.Blotter.Replay

/-! Blotters with a history. Rows are those of the brackets seen so far, so a bracket whose ids are new
    makes new rows, one that was seen makes none, and what there is of a row that cannot be revised
    stays for good. -/

namespace Midas.Blotter

open Broker Persist Ticker

variable {F : Type}

/-- The rows of a blotter are those of the brackets of its history. -/
structure Seen (history : List (BrokerEvent F)) (s : OrderBlotter F) : Prop where
  indexed : s.Indexed
  rows : ∀ id row, s.row id = some row →
    ∃ b, .bracketCreated b ∈ history ∧ id ∈ b.ids ∧ row.parentId = b.parentId
  parents : ∀ b, .bracketCreated b ∈ history →
    ∃ row, s.row b.parentId = some row ∧ row.parentId = b.parentId

theorem BracketCreated.parentId_mem (b : BracketCreated F) : b.parentId ∈ b.ids := List.mem_cons_self

theorem BrokerEvent.mem_ids {e : BrokerEvent F} {id : Uuid} (h : e.orderId? = some id) : id ∈ e.ids := by
  cases e with
  | bracketCreated b => cases h
  | _ => exact Option.mem_toList.mpr h

/-- The ids of an event that comes in are known or new. -/
theorem Follows.cases {history : List (BrokerEvent F)} {b : BracketCreated F}
    (h : Follows history (.bracketCreated b)) : .bracketCreated b ∈ history ∨
      b.ids.Nodup ∧ ∀ id ∈ b.ids, ∀ x ∈ history, id ∉ x.ids := h b rfl

theorem follows_orderFilled {history : List (BrokerEvent F)} (id : Uuid) :
    Follows history (.orderFilled id) := fun b hb => by cases hb

theorem ordered_append {history events events' : List (BrokerEvent F)} :
    Ordered history (events ++ events') ↔
      Ordered history events ∧ Ordered (history ++ events) events' := by
  induction events generalizing history with
  | nil => simp [Ordered]
  | cons e events ih =>
    rw [List.cons_append, Ordered, Ordered, ih, and_assoc, List.append_assoc, List.singleton_append]

namespace Seen

theorem new : Seen [] (OrderBlotter.new : OrderBlotter F) :=
  ⟨OrderBlotter.indexed_empty rfl rfl, fun _ row h => absurd h.symm (Option.some_ne_none row),
    fun _ h => absurd h List.not_mem_nil⟩

/-- Hydration keeps the rows, so it keeps what is known of them. -/
theorem hydrate {history : List (BrokerEvent F)} {s' : OrderBlotter F} (h : Seen history s')
    (s : OrderBlotter F) {rows : List (OrderRow F)} (hrows : rows.Perm s'.rows.items) :
    Seen history (s.hydrate rows) := by
  obtain ⟨hindexed, hrow⟩ := OrderBlotter.hydrate_spec s hrows
  refine ⟨hindexed, fun id row hid => ?_, fun b hb => ?_⟩
  · rw [hrow] at hid
    exact h.rows id row hid
  · rw [hrow]
    exact h.parents b hb

/-- A row whose id is new is none of those there are. -/
theorem row_of_new {history : List (BrokerEvent F)} {s : OrderBlotter F} {id : Uuid}
    (h : Seen history s) (hnew : ∀ x ∈ history, id ∉ x.ids) : s.row id = none := by
  cases hrow : s.row id with
  | none => rfl
  | some row =>
    obtain ⟨b, hb, hid, -⟩ := h.rows id row hrow
    exact absurd hid (hnew _ hb)

section
variable {history : List (BrokerEvent F)} {s : OrderBlotter F} {e : BrokerEvent F}

/-- Nothing is listed anew when each row keeps its id and its parent. -/
theorem of_map {s' : OrderBlotter F} (h : Seen history s) (hparent : s'.byParent = s.byParent)
    (f : Uuid → OrderRow F → OrderRow F) (hf : ∀ id row, (f id row).parentId = row.parentId)
    (hrow : ∀ id, s'.row id = (s.row id).map (f id)) : Seen history s' := by
  have hchildren (p : Uuid) : s'.children p = s.children p := by
    rw [OrderBlotter.children, hparent, OrderBlotter.children]
  have hiff (id p : Uuid) : (∃ row, s'.row id = some row ∧ row.parentId = p) ↔
      ∃ row, s.row id = some row ∧ row.parentId = p := by
    rw [hrow]
    cases s.row id with
    | none => simp
    | some row => simp [hf]
  refine ⟨⟨fun id p => ?_, fun p => ?_, fun p hsome => ?_⟩, fun id row hid => ?_, fun b hb => ?_⟩
  · rw [hchildren, hiff]
    exact h.indexed.listed id p
  · rw [hchildren]
    exact h.indexed.once p
  · rw [hchildren]
    exact h.indexed.inhabited p (hparent ▸ hsome)
  · obtain ⟨row', hid', hp⟩ := (hiff id row.parentId).mp ⟨row, hid, rfl⟩
    exact hp ▸ h.rows id row' hid'
  · exact (hiff _ _).mpr (h.parents b hb)

/-- What is known of the rows stays so while the history grows. -/
theorem grow (h : Seen history s) (hold : ∀ b, e = .bracketCreated b → e ∈ history) :
    Seen (history ++ [e]) s := by
  refine ⟨h.indexed, fun id row hid => ?_, fun b hb => ?_⟩
  · obtain ⟨b, hb, hmem⟩ := h.rows id row hid
    exact ⟨b, List.mem_append_left _ hb, hmem⟩
  · rcases List.mem_append.mp hb with hb | hb
    · exact h.parents b hb
    · have heq := List.mem_singleton.mp hb
      exact h.parents b (heq ▸ hold b heq.symm)

end

end Seen

/-- Events that were seen before follow. -/
theorem ordered_of_seen (events : List (BrokerEvent F)) {history : List (BrokerEvent F)}
    (hseen : ∀ e ∈ events, e ∈ history) : Ordered history events := by
  induction events generalizing history with
  | nil => trivial
  | cons e events ih =>
    obtain ⟨he, hseen⟩ := List.forall_mem_cons.mp hseen
    exact ⟨fun _ _ => .inl he, ih fun x hx => List.mem_append_left _ (hseen x hx)⟩

variable [F64 F]

/-! ### The rows of a bracket -/

theorem ids_legRows_sublist (b : BracketCreated F) (now : UtcTime) :
    ((OrderBlotter.legRows b now).map (·.orderId)).Sublist b.ids := by
  unfold OrderBlotter.legRows BracketCreated.ids
  rw [List.map_cons, List.map_append]
  refine List.Sublist.cons_cons _ (List.Sublist.append ?_ ?_)
  · unfold OrderBlotter.takeProfitRow
    split
    · rename_i id price hid hprice
      rw [hid]
      exact List.Sublist.refl _
    · exact List.nil_sublist _
  · unfold OrderBlotter.stopLossRow
    split
    · rename_i id price hid hprice
      rw [hid]
      exact List.Sublist.refl _
    · exact List.nil_sublist _

theorem parentId_of_mem_legRows {b : BracketCreated F} {now : UtcTime} {row : OrderRow F}
    (h : row ∈ OrderBlotter.legRows b now) : row.parentId = b.parentId := by
  unfold OrderBlotter.legRows OrderBlotter.takeProfitRow OrderBlotter.stopLossRow at h
  rcases List.mem_cons.mp h with rfl | h
  · rfl
  · rcases List.mem_append.mp h with h | h
    · split at h
      · obtain rfl := Option.some.inj (Option.mem_toList.mp h)
        rfl
      · cases h
    · split at h
      · obtain rfl := Option.some.inj (Option.mem_toList.mp h)
        rfl
      · cases h

namespace Seen

variable {history : List (BrokerEvent F)} {s : OrderBlotter F} {e : BrokerEvent F} {now : UtcTime}
  {b : BracketCreated F} {id : Uuid}

/-- A bracket that was seen is not made again. -/
theorem apply_replay (h : Seen history s) (hb : .bracketCreated b ∈ history) :
    s.apply (.bracketCreated b) now = (s, []) := by
  obtain ⟨row, hrow, hparent⟩ := h.parents b hb
  have hsome := (h.indexed.isSome_iff b.parentId).mpr ⟨_, row, hrow, hparent⟩
  have hevent : s.applyEvent (.bracketCreated b) now = (s, []) := if_pos hsome
  unfold OrderBlotter.apply
  rw [hevent]
  rfl

/-- A bracket with new ids has its rows put in. -/
theorem applyEvent_new (h : Seen history s) (hnew : ∀ id ∈ b.ids, ∀ x ∈ history, id ∉ x.ids) :
    s.applyEvent (.bracketCreated b) now =
      ((OrderBlotter.legRows b now).foldl OrderBlotter.insertLeg s,
        (OrderBlotter.legRows b now).map (·.orderId)) := by
  unfold OrderBlotter.applyEvent OrderBlotter.applyBracketCreated
  dsimp only
  rw [if_neg]
  rw [h.indexed.isSome_iff]
  rintro ⟨id, row, hrow, hparent⟩
  obtain ⟨b', hb', -, hparent'⟩ := h.rows id row hrow
  refine hnew b.parentId b.parentId_mem _ hb' ?_
  rw [← hparent, hparent']
  exact b'.parentId_mem

/-- A row stays where it is, and is revised by the events that are about it. -/
theorem row_apply (h : Seen history s) (hfollows : Follows history e) {row : OrderRow F}
    (hrow : s.row id = some row) : (s.apply e now).1.row id = some (e.revise now id row) := by
  cases e with
  | bracketCreated b =>
    have hrevise : BrokerEvent.revise (.bracketCreated b) now id row = row := if_neg nofun
    rw [hrevise]
    rcases hfollows.cases with hreplay | ⟨-, hnew⟩
    · rw [h.apply_replay hreplay]
      exact hrow
    · rw [OrderBlotter.apply_fst_row, h.applyEvent_new hnew]
      rw [OrderBlotter.row_foldl_of_not_mem, hrow]
      intro hmem
      have hnone := h.row_of_new (hnew id ((ids_legRows_sublist b now).subset hmem))
      rw [hrow] at hnone
      cases hnone
  | other => exact hrow
  | _ =>
    rw [OrderBlotter.row_apply_leg rfl, hrow]
    rfl

/-- Where there is no row, only a bracket with new ids makes one. -/
theorem row_apply_none (h : Seen history s) (hfollows : Follows history e) (hrow : s.row id = none)
    {row : OrderRow F} (hafter : (s.apply e now).1.row id = some row) :
    ∃ b, e = .bracketCreated b ∧ row ∈ OrderBlotter.legRows b now ∧ id ∈ b.ids ∧ b.ids.Nodup ∧
      ∀ id ∈ b.ids, ∀ x ∈ history, id ∉ x.ids := by
  cases e with
  | bracketCreated b =>
    rcases hfollows.cases with hreplay | ⟨hnodup, hnew⟩
    · rw [h.apply_replay hreplay, hrow] at hafter
      cases hafter
    · rw [OrderBlotter.apply_fst_row, h.applyEvent_new hnew] at hafter
      have hlegs := hnodup.sublist (ids_legRows_sublist b now)
      by_cases hmem : id ∈ (OrderBlotter.legRows b now).map (·.orderId)
      · refine ⟨b, rfl, ?_, (ids_legRows_sublist b now).subset hmem, hnodup, hnew⟩
        obtain ⟨leg, hleg, rfl⟩ := List.mem_map.mp hmem
        rw [OrderBlotter.row_foldl_of_mem hlegs hleg] at hafter
        exact Option.some.inj hafter ▸ hleg
      · rw [OrderBlotter.row_foldl_of_not_mem _ hmem, hrow] at hafter
        cases hafter
  | other => exact absurd (hafter.symm.trans hrow) (Option.some_ne_none row)
  | _ =>
    rw [OrderBlotter.row_apply_leg rfl, hrow] at hafter
    cases hafter

theorem step_leg (h : Seen history s) {orderId : Uuid} (hleg : e.orderId? = some orderId) :
    Seen (history ++ [e]) (s.apply e now).1 := by
  have hparent : (s.apply e now).1.byParent = s.byParent := by
    rw [OrderBlotter.apply_fst_byParent, OrderBlotter.applyEvent_leg s now hleg,
      OrderBlotter.updateRow_byParent]
  have hrevise (id : Uuid) (row : OrderRow F) : (e.revise now id row).parentId = row.parentId := by
    unfold BrokerEvent.revise
    split <;> rfl
  have hkept := h.of_map hparent (e.revise now) hrevise (OrderBlotter.row_apply_leg hleg)
  exact hkept.grow fun b hb => by subst hb; cases hleg

theorem step_new (h : Seen history s) (hnodup : b.ids.Nodup)
    (hnew : ∀ id ∈ b.ids, ∀ x ∈ history, id ∉ x.ids) :
    Seen (history ++ [.bracketCreated b]) (s.apply (.bracketCreated b) now).1 := by
  have hlegs := hnodup.sublist (ids_legRows_sublist b now)
  have hevent : s.applyEvent (.bracketCreated b) now = _ := h.applyEvent_new hnew
  have hfresh : ∀ row ∈ OrderBlotter.legRows b now, s.row row.orderId = none := fun row hrow =>
    h.row_of_new (hnew _ ((ids_legRows_sublist b now).subset (List.mem_map_of_mem hrow)))
  have hindexed := h.indexed.foldl hlegs hfresh
  have hfollows : Follows history (.bracketCreated b) := fun b' hb' => by
    cases hb'
    exact .inr ⟨hnodup, hnew⟩
  have hentry : (s.apply (.bracketCreated b) now).1.row b.parentId =
      some (OrderBlotter.entryRow b now) := by
    rw [OrderBlotter.apply_fst_row, hevent]
    exact OrderBlotter.row_foldl_of_mem hlegs List.mem_cons_self
  refine ⟨⟨fun id p => ?_, fun p => ?_, fun p => ?_⟩, fun id row hid => ?_, fun b' hb' => ?_⟩
  · rw [OrderBlotter.apply_fst_row, OrderBlotter.children, OrderBlotter.apply_fst_byParent, hevent]
    exact hindexed.listed id p
  · rw [OrderBlotter.children, OrderBlotter.apply_fst_byParent, hevent]
    exact hindexed.once p
  · rw [OrderBlotter.children, OrderBlotter.apply_fst_byParent, hevent]
    exact hindexed.inhabited p
  · cases hrow : s.row id with
    | none =>
      obtain ⟨b', heq, hleg, hmem, -⟩ := h.row_apply_none hfollows hrow hid
      cases heq
      exact ⟨b, List.mem_append_right _ List.mem_cons_self, hmem, parentId_of_mem_legRows hleg⟩
    | some row' =>
      rw [h.row_apply hfollows hrow] at hid
      obtain rfl := Option.some.inj hid
      obtain ⟨b', hb', hmem⟩ := h.rows id row' hrow
      exact ⟨b', List.mem_append_left _ hb', hmem⟩
  · rcases List.mem_append.mp hb' with hb' | hb'
    · obtain ⟨row, hrow, hp⟩ := h.parents b' hb'
      exact ⟨row, h.row_apply hfollows hrow, hp⟩
    · cases List.mem_singleton.mp hb'
      exact ⟨_, hentry, rfl⟩

/-- What is known of the rows is kept by every event that follows. -/
theorem step (h : Seen history s) (hfollows : Follows history e) :
    Seen (history ++ [e]) (s.apply e now).1 := by
  cases e with
  | bracketCreated b =>
    rcases hfollows.cases with hreplay | ⟨hnodup, hnew⟩
    · rw [h.apply_replay hreplay]
      exact h.grow fun _ _ => hreplay
    · exact h.step_new hnodup hnew
  | other => exact h.grow fun b hb => by cases hb
  | _ => exact h.step_leg rfl

/-! ### Sequences of events -/

/-- What is known of the rows is kept by every sequence of events that follows. -/
theorem applyAll (events : List (BrokerEvent F × UtcTime)) {history : List (BrokerEvent F)}
    {s : OrderBlotter F} (h : Seen history s) (hord : Ordered history (events.map (·.1))) :
    Seen (history ++ events.map (·.1)) (s.applyAll events) := by
  induction events generalizing history s with
  | nil =>
    rw [List.map_nil, List.append_nil]
    exact h
  | cons e events ih =>
    obtain ⟨hfollows, hrest⟩ := hord
    rw [List.map_cons, ← List.singleton_append, ← List.append_assoc]
    exact ih (h.step hfollows) hrest

/-- A row stays, and all the events that are about it revise it in turn. -/
theorem row_applyAll (events : List (BrokerEvent F × UtcTime)) {history : List (BrokerEvent F)}
    {s : OrderBlotter F} (h : Seen history s) (hord : Ordered history (events.map (·.1)))
    {row : OrderRow F} (hrow : s.row id = some row) :
    (s.applyAll events).row id = some (events.foldl (fun row e => e.1.revise e.2 id row) row) := by
  induction events generalizing history s row with
  | nil => exact hrow
  | cons e events ih =>
    obtain ⟨hfollows, hrest⟩ := hord
    exact ih (h.step hfollows) hrest (h.row_apply hfollows hrow)

/-- Events that were seen before make no rows. -/
theorem row_applyAll_none (events : List (BrokerEvent F × UtcTime)) {history : List (BrokerEvent F)}
    {s : OrderBlotter F} (h : Seen history s) (hseen : ∀ e ∈ events, e.1 ∈ history)
    (hrow : s.row id = none) : (s.applyAll events).row id = none := by
  induction events generalizing history s with
  | nil => exact hrow
  | cons e events ih =>
    obtain ⟨he, hseen⟩ := List.forall_mem_cons.mp hseen
    have hfollows : Follows history e.1 := fun _ _ => .inl he
    refine ih (h.step hfollows) (fun x hx => List.mem_append_left _ (hseen x hx)) ?_
    cases hafter : (s.apply e.1 e.2).1.row id with
    | none => rfl
    | some row =>
      obtain ⟨b, hb, -, hmem, -, hnew⟩ := h.row_apply_none hfollows hrow hafter
      refine absurd ?_ (hnew id hmem _ he)
      rw [hb]
      exact hmem

/-- Events that are not about a row leave it alone. -/
theorem foldl_revise_of_not_mem (events : List (BrokerEvent F × UtcTime)) (row : OrderRow F)
    (hids : ∀ e ∈ events, e.1.orderId? ≠ some id) :
    events.foldl (fun row e => e.1.revise e.2 id row) row = row := by
  induction events generalizing row with
  | nil => rfl
  | cons e events ih =>
    obtain ⟨he, hids⟩ := List.forall_mem_cons.mp hids
    rw [List.foldl_cons, BrokerEvent.revise, if_neg he]
    exact ih row hids

/-- Each row is some row revised by all the events: those that came before it was made are not about
    it. -/
theorem revised_of_row (events : List (BrokerEvent F × UtcTime)) (h : Seen history s)
    (hord : Ordered history (events.map (·.1))) {row : OrderRow F}
    (hrow : (s.applyAll events).row id = some row) :
    ∃ row₀, row = events.foldl (fun row e => e.1.revise e.2 id row) row₀ := by
  induction events using List.reverseRecOn generalizing row with
  | nil => exact ⟨row, rfl⟩
  | append_singleton events e ih =>
    rw [List.map_append, List.map_singleton, ordered_append] at hord
    obtain ⟨hord, hfollows, -⟩ := hord
    have hbefore := h.applyAll events hord
    have hsplit : s.applyAll (events ++ [e]) = ((s.applyAll events).apply e.1 e.2).1 := by
      simp only [OrderBlotter.applyAll, List.foldl_append, List.foldl_cons, List.foldl_nil]
    rw [hsplit] at hrow
    simp only [List.foldl_append, List.foldl_cons, List.foldl_nil]
    cases hmid : (s.applyAll events).row id with
    | some mid =>
      obtain ⟨row₀, hrow₀⟩ := ih hord hmid
      rw [hbefore.row_apply hfollows hmid] at hrow
      exact ⟨row₀, by rw [← hrow₀]; exact (Option.some.inj hrow).symm⟩
    | none =>
      obtain ⟨b, hb, -, hmem, -, hnew⟩ := hbefore.row_apply_none hfollows hmid hrow
      refine ⟨row, ?_⟩
      rw [foldl_revise_of_not_mem events row, hb]
      · rfl
      · intro x hx hid
        exact hnew id hmem x.1 (List.mem_append_right _ (List.mem_map_of_mem hx))
          (BrokerEvent.mem_ids hid)

/-- The events once more, at any times, leave every row as it was, time stamps aside. -/
theorem replay (h : Seen history s) {events events' : List (BrokerEvent F × UtcTime)}
    (hsame : events'.map (·.1) = events.map (·.1)) (hord : Ordered history (events.map (·.1)))
    (id : Uuid) : (((s.applyAll events).applyAll events').row id).map OrderRow.timeless =
      ((s.applyAll events).row id).map OrderRow.timeless := by
  have hafter := h.applyAll events hord
  have hseen : ∀ e ∈ events', e.1 ∈ history ++ events.map (·.1) := fun e he =>
    List.mem_append_right _ (hsame ▸ List.mem_map_of_mem he)
  cases hrow : (s.applyAll events).row id with
  | none => rw [hafter.row_applyAll_none events' hseen hrow]
  | some row =>
    obtain ⟨row₀, hrow₀⟩ := h.revised_of_row events hord hrow
    have hord' : Ordered (history ++ events.map (·.1)) (events'.map (·.1)) := by
      refine ordered_of_seen _ fun e he => ?_
      obtain ⟨x, hx, rfl⟩ := List.mem_map.mp he
      exact hseen x hx
    rw [hafter.row_applyAll events' hord' hrow, Option.map_some, Option.map_some,
      timeless_foldl_revise, hsame, hrow₀, timeless_foldl_revise, Patch.apply_apply]

end Seen

end Midas.Blotter
