import HandOfMidas.Blotter.Histories

/-! What the rest of the app relies on: replays are harmless, the index agrees with the rows, the ids
    that are returned cover every change, and what identifies a leg is never written over. -/

namespace Midas.Blotter

open Broker Persist Ticker

variable {F : Type} [F64 F]

/-- The blotters that events lead to, with the events seen; one can also be filled again with the rows of
    another, in any order. -/
inductive Reachable : List (BrokerEvent F) → OrderBlotter F → Prop where
  | new : Reachable [] .new
  | apply {history : List (BrokerEvent F)} {s : OrderBlotter F} {e : BrokerEvent F} (now : UtcTime)
    (h : Reachable history s) (hfollows : Follows history e) :
    Reachable (history ++ [e]) (s.apply e now).1
  | hydrate {history history' : List (BrokerEvent F)} {s s' : OrderBlotter F} {rows : List (OrderRow F)}
    (h : Reachable history s) (h' : Reachable history' s') (hrows : rows.Perm s'.rows.items) :
    Reachable history' (s.hydrate rows)

/-- What no event writes over. -/
def OrderRow.fixed (row : OrderRow F) : String × OrderAction × OrderKind × LegRole × F × UtcTime :=
  (row.symbol, row.side, row.kind, row.legRole, row.quantity, row.createdAt)

/-- The promises of the blotter. -/
structure Clean (history : List (BrokerEvent F)) (s : OrderBlotter F) : Prop where
  replay : ∀ events events' : List (BrokerEvent F × UtcTime), events'.map (·.1) = events.map (·.1) →
    Ordered history (events.map (·.1)) → ∀ id,
      (((s.applyAll events).applyAll events').row id).map OrderRow.timeless =
        ((s.applyAll events).row id).map OrderRow.timeless
  index : s.Indexed
  hydrated : ∀ rows, rows.Perm s.rows.items → ∀ (t : OrderBlotter F) id,
    (t.hydrate rows).row id = s.row id
  changes : ∀ e now id, id ∉ (s.apply e now).2 → (s.apply e now).1.row id = s.row id
  generation : ∀ e now, (s.apply e now).1.generation =
    if (s.apply e now).2 = [] then s.generation else s.generation + 1
  fixed : ∀ events : List (BrokerEvent F × UtcTime), Ordered history (events.map (·.1)) →
    ∀ id row, s.row id = some row →
      ∃ row', (s.applyAll events).row id = some row' ∧ row'.fixed = row.fixed

theorem Reachable.seen {history : List (BrokerEvent F)} {s : OrderBlotter F} (h : Reachable history s) :
    Seen history s := by
  induction h with
  | new => exact .new
  | apply now _ hfollows ih => exact ih.step hfollows
  | hydrate _ _ hrows _ ih => exact ih.hydrate _ hrows

namespace OrderBlotter

theorem generation_applyEvent (s : OrderBlotter F) (e : BrokerEvent F) (now : UtcTime) :
    (s.applyEvent e now).1.generation = s.generation := by
  cases e with
  | bracketCreated b =>
    unfold applyEvent applyBracketCreated
    dsimp only
    split
    · rfl
    · exact generation_foldl _ s
  | other => rfl
  | _ => exact generation_updateRow s _ _

theorem generation_apply (s : OrderBlotter F) (e : BrokerEvent F) (now : UtcTime) :
    (s.apply e now).1.generation =
      if (s.apply e now).2 = [] then s.generation else s.generation + 1 := by
  have hsame := s.generation_applyEvent e now
  rw [apply_snd]
  unfold apply
  dsimp only
  split
  · rename_i h
    rw [if_pos (List.isEmpty_iff.mp h)]
    exact hsame
  · rename_i h
    rw [if_neg fun hnil => h (List.isEmpty_iff.mpr hnil)]
    exact congrArg (· + 1) hsame

/-- A row whose id is not returned is as it was. -/
theorem row_apply_of_not_mem (s : OrderBlotter F) (e : BrokerEvent F) (now : UtcTime) {id : Uuid}
    (h : id ∉ (s.apply e now).2) : (s.apply e now).1.row id = s.row id := by
  rw [apply_snd] at h
  rw [apply_fst_row]
  cases e with
  | bracketCreated b =>
    unfold applyEvent applyBracketCreated at h ⊢
    dsimp only at h ⊢
    split at h
    · rename_i hsome
      rw [if_pos hsome]
    · rename_i hsome
      rw [if_neg hsome]
      exact row_foldl_of_not_mem _ h
  | other => rfl
  | _ =>
    rw [applyEvent_leg s now rfl] at h ⊢
    exact row_updateRow_of_not_mem (fun _ => rfl) h

end OrderBlotter

theorem fixed_foldl_revise (id : Uuid) (events : List (BrokerEvent F × UtcTime)) (row : OrderRow F) :
    (events.foldl (fun row e => e.1.revise e.2 id row) row).fixed = row.fixed := by
  induction events generalizing row with
  | nil => rfl
  | cons e events ih =>
    rw [List.foldl_cons, ih, BrokerEvent.revise]
    split <;> rfl

/-- In every reachable state the blotter keeps its promises; the generation goes on by one, modulo 2^64,
    with each event that touches a row. -/
theorem replays_cleanly {history : List (BrokerEvent F)} {s : OrderBlotter F}
    (h : Reachable history s) : Clean history s where
  replay _ _ hsame hord id := h.seen.replay hsame hord id
  index := h.seen.indexed
  hydrated _ hrows t := (OrderBlotter.hydrate_spec t hrows).2
  changes e now _ hid := s.row_apply_of_not_mem e now hid
  generation e now := s.generation_apply e now
  fixed events hord _ row hrow :=
    ⟨_, h.seen.row_applyAll events hord hrow, fixed_foldl_revise _ events row⟩

/-- A bracket with both legs. -/
def longBracket : BracketCreated ℚ where
  parentId := 1
  takeProfitId := some 2
  stopLossId := some 3
  symbol := "AAPL"
  action := .buy
  quantity := 100
  tpPrice := some 210
  slPrice := some 190
  entryKind := .limit
  entryLimitPrice := some 200
  entryStopPrice := none
  slLimitPrice := none
  tpTif := some .gtc
  slTif := some .gtc

theorem follows_longBracket : Follows [] (.bracketCreated longBracket) := by
  intro b hb
  cases hb
  exact .inr ⟨by decide, fun _ _ _ hx => absurd hx List.not_mem_nil⟩

theorem replays_cleanly_longBracket :
    Clean ([] ++ [.bracketCreated longBracket])
      (OrderBlotter.new.apply (.bracketCreated longBracket) 0).1 :=
  replays_cleanly (.apply 0 .new follows_longBracket)

/-! ### The generation -/

/-- Fills of a row, each of which takes the generation one further. -/
theorem generation_fills (n : ℕ) {history : List (BrokerEvent F)} {s : OrderBlotter F}
    (h : Reachable history s) {id : Uuid} (hrow : (s.row id).isSome) :
    ∃ (history' : List (BrokerEvent F)) (s' : OrderBlotter F), Reachable history' s' ∧
      (s'.row id).isSome ∧ s'.generation = s.generation + .ofNat n := by
  induction n with
  | zero => exact ⟨history, s, h, hrow, (UInt64.add_zero _).symm⟩
  | succ n ih =>
    obtain ⟨history', s', h', hrow', hgen⟩ := ih
    refine ⟨_, _, h'.apply 0 (follows_orderFilled id), ?_, ?_⟩
    · rw [OrderBlotter.row_apply_leg rfl, Option.isSome_map]
      exact hrow'
    · rw [OrderBlotter.generation_apply, OrderBlotter.apply_snd, OrderBlotter.applyEvent_leg _ _ rfl,
        OrderBlotter.updateRow_touched, if_pos hrow', if_neg (List.cons_ne_nil _ _), hgen,
        UInt64.ofNat_add, UInt64.add_assoc]
      rfl

/-- After 2^64 - 1 events that touched rows, one more event touches its row and takes the generation back
    to zero. -/
theorem generation_wraps :
    ∃ (history : List (BrokerEvent ℚ)) (s : OrderBlotter ℚ), Reachable history s ∧
      Follows history (.orderFilled 1) ∧ (s.apply (.orderFilled 1) 0).2 = [1] ∧
        (s.apply (.orderFilled 1) 0).1.generation < s.generation := by
  have hfirst : Reachable ([] ++ [.bracketCreated longBracket])
      (OrderBlotter.new.apply (.bracketCreated longBracket) 0).1 := .apply 0 .new follows_longBracket
  have hentry : ((OrderBlotter.new.apply (.bracketCreated longBracket) 0).1.row 1).isSome := by decide
  obtain ⟨history, s, h, hrow, hgen⟩ := generation_fills (2 ^ 64 - 2) hfirst hentry
  have hgen : s.generation = -1 := hgen.trans (by decide)
  have htouched : (s.apply (.orderFilled 1) 0).2 = [1] := by
    rw [OrderBlotter.apply_snd, OrderBlotter.applyEvent_leg _ _ rfl, OrderBlotter.updateRow_touched,
      if_pos hrow]
  refine ⟨history, s, h, follows_orderFilled 1, htouched, ?_⟩
  rw [OrderBlotter.generation_apply, htouched, if_neg (List.cons_ne_nil _ _), hgen]
  decide

end Midas.Blotter
