import HandOfMidas.IbSim.Delivery
import HandOfMidas.IbSim.Looks
import Mathlib.Algebra.Order.BigOperators.Group.List

/-! Shares over a run: those that the executions of an order carry, those that the order moved on the
    account, and those that its record says are filled. An order fills whole, so they agree as long as
    the two executions of pattern C carry all chunks of the fill. -/

namespace Midas.IbSim

variable {rng : Rng} {baseSeed : UInt64} {k : OrderId}

/-! ### Counting -/

/-- The shares that the executions of order `k` carry. -/
def executedShares (k : OrderId) (l : List OrderEmission) : ℚ := ((executions k l).map (·.shares)).sum

/-- The net change of positions that these applications of fills made. -/
def movedShares (l : List Booking) : ℚ := (l.map fun b => b.after - b.before).sum

theorem executedShares_append (k : OrderId) (l l' : List OrderEmission) :
    executedShares k (l ++ l') = executedShares k l + executedShares k l' := by
  simp [executedShares]

theorem movedShares_append (l l' : List Booking) :
    movedShares (l ++ l') = movedShares l + movedShares l' := by
  simp [movedShares]

theorem Side.signed_add (side : Side) (a b : ℚ) :
    side.signed (a + b) = side.signed a + side.signed b := by
  cases side
  · rfl
  · exact neg_add a b

theorem Side.signed_injective (side : Side) {a b : ℚ} (h : side.signed a = side.signed b) : a = b := by
  cases side
  · exact h
  · exact neg_injective h

theorem Side.signed_zero (side : Side) : side.signed 0 = 0 := by
  cases side
  · rfl
  · exact neg_zero

/-- The chunks move the position by their sum. -/
theorem movedShares_bookingsOf (o : OrderRecord) (before : ℚ) (chunks : List ℚ) :
    movedShares (bookingsOf o before chunks) = o.side.signed chunks.sum := by
  induction chunks generalizing before with
  | nil => exact (o.side.signed_zero).symm
  | cons shares chunks ih =>
    have hcons : movedShares (bookingsOf o before (shares :: chunks)) =
        before + o.side.signed shares - before +
          movedShares (bookingsOf o (before + o.side.signed shares) chunks) := rfl
    rw [hcons, ih, add_sub_cancel_left, List.sum_cons, o.side.signed_add]

/-! ### A fill -/

/-- What the executions of a pattern carry of the chunks. -/
def PatternKind.carried (chunks : List ℚ) : PatternKind → ℚ
  | .a | .b => chunks.getD 0 0
  | .c => chunks.getD 0 0 + chunks.getD 1 0

section Play

variable (p : PatternKind) (o : OrderRecord) (fill : Fill) (counter : ℕ) (chunks : List ℚ)

theorem play_filledQty :
    (p.play o fill counter chunks).1.filledQty = o.filledQty + p.carried chunks := by
  cases p <;> simp [PatternKind.play, PatternKind.carried, add_assoc]

theorem executedShares_play :
    executedShares o.orderId (p.play o fill counter chunks).2 = p.carried chunks := by
  cases p <;> simp [PatternKind.play, PatternKind.carried, executedShares, executionOf]

/-- Nothing remains, unless an execution after the last status leaves something. -/
theorem play_remainingQty (h : o.totalQty ≤ o.filledQty + p.carried chunks) :
    (p.play o fill counter chunks).1.remainingQty = 0 := by
  cases p with
  | a =>
    have hle : o.totalQty - (o.filledQty + chunks.getD 0 0) ≤ 0 := sub_nonpos.mpr h
    simpa [PatternKind.play] using hle
  | b => simp [PatternKind.play]
  | c => simp [PatternKind.play]

end Play

/-- The chunks are what is filled. -/
theorem sum_planChunks (orderId : OrderId) (shares : ℚ) (p : PatternKind) :
    (planChunks rng baseSeed orderId shares p).sum = shares := by
  cases p with
  | a => simp [planChunks]
  | b => simp [planChunks]
  | c =>
    simp only [planChunks]
    split
    · simp
    · exact sum_partialChunks rng shares baseSeed orderId _

/-- The executions carry all chunks, if there are two at most. -/
theorem carried_planChunks {orderId : OrderId} {shares : ℚ} {p : PatternKind}
    (h : (planChunks rng baseSeed orderId shares p).length ≤ 2) :
    p.carried (planChunks rng baseSeed orderId shares p) = shares := by
  have hsum : (planChunks rng baseSeed orderId shares p).sum = shares := sum_planChunks orderId shares p
  cases p with
  | a => rfl
  | b => rfl
  | c =>
    rcases hchunks : planChunks rng baseSeed orderId shares .c with _ | ⟨x, _ | ⟨y, _ | ⟨z, l⟩⟩⟩
    · rw [hchunks] at hsum
      simpa [PatternKind.carried] using hsum
    · rw [hchunks] at hsum
      simpa [PatternKind.carried] using hsum
    · rw [hchunks] at hsum
      simpa [PatternKind.carried] using hsum
    · rw [hchunks] at h
      simp at h

/-- Two lots are not split. -/
theorem partialChunks_of_small {orderId : OrderId} {shares threshold : ℚ} (h : shares ≤ 2 * minChunk) :
    partialChunks rng shares baseSeed orderId threshold = [shares] := by
  unfold partialChunks
  split_ifs
  · rfl
  · dsimp only
    rw [Nat.add_comm, chunkLoop, if_pos (.inr h)]

/-- What is split is more than two lots, and each chunk is a lot at least. -/
theorem lots_of_partialChunks {orderId : OrderId} {shares threshold : ℚ}
    (h : 1 < (partialChunks rng shares baseSeed orderId threshold).length) :
    2 * minChunk < shares ∧ ∀ c ∈ partialChunks rng shares baseSeed orderId threshold, minChunk ≤ c := by
  have hlarge : 2 * minChunk < shares := by
    by_contra hsmall
    rw [partialChunks_of_small (not_lt.mp hsmall)] at h
    simp at h
  refine ⟨hlarge, ?_⟩
  have hsplit : ¬shares ≤ threshold := by
    intro hle
    rw [partialChunks, if_pos hle] at h
    simp at h
  let seed := rngFor baseSeed orderId .partialChunking 0
  have hlot : minChunk ≤ shares := by
    have hpos : (0 : ℚ) < minChunk := by norm_num [minChunk]
    linarith
  have hslots : 2 + (rng.genU32 seed 0).toNat % 3 ≠ 0 := by omega
  have hall := (chunkLoop_spec (fun i => rng.genF64 seed (1 + 2 * i)) hslots 0 hlot).2.2.2
  have hchunks : partialChunks rng shares baseSeed orderId threshold =
      chunkLoop (fun i => rng.genF64 seed (1 + 2 * i)) (2 + (rng.genU32 seed 0).toNat % 3) 0 shares :=
    if_neg hsplit
  rw [hchunks]
  exact hall

/-- A fill in three chunks or more is one of lots. -/
theorem planChunks_of_many {orderId : OrderId} {shares : ℚ} {p : PatternKind}
    (h : 2 < (planChunks rng baseSeed orderId shares p).length) :
    p = .c ∧ ∀ c ∈ planChunks rng baseSeed orderId shares p, 100 ≤ c := by
  cases p with
  | a => simp [planChunks] at h
  | b => simp [planChunks] at h
  | c =>
    refine ⟨rfl, ?_⟩
    simp only [planChunks] at h ⊢
    split_ifs at h ⊢
    · simp at h
    · exact (lots_of_partialChunks (by omega)).2

/-- The executions do not carry all of more chunks. -/
theorem carried_planChunks_lt {orderId : OrderId} {shares : ℚ} {p : PatternKind}
    (h : 2 < (planChunks rng baseSeed orderId shares p).length) :
    p.carried (planChunks rng baseSeed orderId shares p) < shares := by
  have hsum : (planChunks rng baseSeed orderId shares p).sum = shares := sum_planChunks orderId shares p
  obtain ⟨rfl, hall⟩ := planChunks_of_many h
  rcases hchunks : planChunks rng baseSeed orderId shares .c with _ | ⟨x, _ | ⟨y, _ | ⟨z, l⟩⟩⟩
  · rw [hchunks] at h
    simp at h
  · rw [hchunks] at h
    simp at h
  · rw [hchunks] at h
    simp at h
  · rw [hchunks] at hsum hall
    have hz : 100 ≤ z := hall z (by simp)
    have hl : 0 ≤ l.sum := List.sum_nonneg fun c hc => by
      have hc' := hall c (by simp [hc])
      linarith
    have hcarried : PatternKind.carried (x :: y :: z :: l) .c = x + y := rfl
    have hparts : x + (y + (z + l.sum)) = shares := by simpa using hsum
    rw [hcarried]
    linarith

@[simp] theorem patternOf_seen (snap : MarketSnapshot) (slippage : SlippageKind) (o : OrderRecord)
    (s : Sim) :
    patternOf rng baseSeed (o.seen snap slippage) s = patternOf rng baseSeed o s := by
  rw [seen_eq]
  rfl

@[simp] theorem chunksOf_seen (snap : MarketSnapshot) (slippage : SlippageKind) (o : OrderRecord)
    (s : Sim) :
    chunksOf rng baseSeed (o.seen snap slippage) s = chunksOf rng baseSeed o s := by
  rw [seen_eq]
  rfl

theorem carried_chunksOf {o : OrderRecord} {s : Sim} (h : (chunksOf rng baseSeed o s).length ≤ 2) :
    (patternOf rng baseSeed o s).carried (chunksOf rng baseSeed o s) = o.remainingQty :=
  carried_planChunks h

theorem sum_chunksOf (o : OrderRecord) (s : Sim) :
    (chunksOf rng baseSeed o s).sum = o.remainingQty :=
  sum_planChunks o.orderId o.remainingQty _

theorem View.fill_of_some {v : View} {o : OrderRecord} (hr : v.record = some o) (snap : MarketSnapshot)
    (s : Sim) (fill : Fill) : v.fill rng baseSeed snap s fill =
      let played := (patternOf rng baseSeed o s).play (o.seen snap s.slippage) fill s.execCounter
        (chunksOf rng baseSeed o s)
      (v.become played.1 played.2).extend [] (bookingsOf (o.seen snap s.slippage)
        (s.account.position (symbolKeyFor o.contract)).shares (chunksOf rng baseSeed o s)) := by
  simp only [View.fill, hr, OrderRecord.played, patternOf_seen, chunksOf_seen, seen_contract]

/-! ### The balance of an order -/

/-- What was executed and what was booked is what the record says, and the order is filled whole or not
    at all. -/
structure View.Balanced (k : OrderId) (v : View) (o : OrderRecord) : Prop where
  executed : executedShares k v.history = o.filledQty
  moved : movedShares v.bookings = o.side.signed o.filledQty
  nonneg : 0 ≤ o.totalQty
  whole : o.filledQty = 0 ∧ o.remainingQty = o.totalQty ∧ o.status ≠ .filled ∨
    o.filledQty = o.totalQty ∧ o.remainingQty = 0

def View.Balances (k : OrderId) (v : View) : Prop := ∀ o, v.record = some o → v.Balanced k o

theorem View.Balanced.filled_add_remaining {v : View} {o : OrderRecord} (h : v.Balanced k o) :
    o.filledQty + o.remainingQty = o.totalQty := by
  rcases h.whole with ⟨hfilled, hremaining, -⟩ | ⟨hfilled, hremaining⟩
  · rw [hfilled, hremaining, zero_add]
  · rw [hfilled, hremaining, add_zero]

theorem View.Balances.bystander {v v' : View} (h : v.Balances k) (hby : Bystander k v v') :
    v'.Balances k := by
  intro o' ho'
  obtain ⟨o, ho, heq, hshift⟩ := hby.back ho'
  have hbal := h o ho
  rw [heq]
  refine ⟨?_, ?_, hbal.nonneg, ?_⟩
  · rw [executedShares, hby.executions]
    exact hbal.executed
  · rw [hby.bookings]
    exact hbal.moved
  · rcases hbal.whole with ⟨hfilled, hremaining, hstatus⟩ | hdone
    · refine .inl ⟨hfilled, hremaining, fun hnow => hstatus ?_⟩
      have hnow' : o'.status = .filled := hnow
      exact (hnow' ▸ hshift).filled
    · exact .inr hdone

section Fill

variable {v : View} {o : OrderRecord}

variable (rng baseSeed) in
/-- A fill executes what its pattern carries of the chunks, and moves the position by all of them. -/
theorem View.Balanced.counts_fill (h : v.Balanced k o) (hr : v.record = some o) (hid : o.orderId = k)
    (snap : MarketSnapshot) (s : Sim) (fill : Fill) :
    executedShares k (v.fill rng baseSeed snap s fill).history =
        o.filledQty + (patternOf rng baseSeed o s).carried (chunksOf rng baseSeed o s) ∧
      movedShares (v.fill rng baseSeed snap s fill).bookings = o.side.signed o.totalQty := by
  rw [View.fill_of_some hr]
  constructor
  · have hplay := executedShares_play (patternOf rng baseSeed o s) (o.seen snap s.slippage) fill
      s.execCounter (chunksOf rng baseSeed o s)
    rw [seen_orderId, hid] at hplay
    simp only [View.extend, View.become, List.append_nil, executedShares_append, hplay, h.executed]
  · simp only [View.extend, View.become, movedShares_append, movedShares_bookingsOf, sum_chunksOf,
      seen_side, h.moved, ← o.side.signed_add, h.filled_add_remaining]

/-- A fill in two chunks at most fills the order whole. -/
theorem View.Balances.fill (h : v.Balances k) (hk : ∀ o, v.record = some o → o.orderId = k)
    {snap : MarketSnapshot} {s : Sim} {fill : Fill}
    (htwo : ∀ o, v.record = some o → (chunksOf rng baseSeed o s).length ≤ 2) :
    (v.fill rng baseSeed snap s fill).Balances k := by
  intro o' ho'
  rcases hr : v.record with _ | o
  · rw [View.record_fill, hr] at ho'
    cases ho'
  have hbal := h o hr
  have hcarried := carried_chunksOf (htwo o hr)
  have hfull := hbal.filled_add_remaining
  have hcounts := hbal.counts_fill rng baseSeed hr (hk o hr) snap s fill
  rw [hcarried, hfull] at hcounts
  obtain ⟨hexecuted, hmoved⟩ := hcounts
  rw [View.record_fill, hr] at ho'
  obtain rfl := Option.some.inj ho'
  have hsame : SameOrder o (o.played rng baseSeed snap s fill).1 := sameOrder_played snap s fill o
  have hfilled : (o.played rng baseSeed snap s fill).1.filledQty = o.totalQty := by
    rw [OrderRecord.played, play_filledQty, patternOf_seen, chunksOf_seen, seen_filledQty, hcarried,
      hfull]
  constructor
  case executed => rw [hexecuted, hfilled]
  case moved => rw [hmoved, hfilled, hsame.side]
  case nonneg => exact hsame.totalQty ▸ hbal.nonneg
  case whole =>
    refine .inr ⟨hfilled.trans hsame.totalQty.symm, ?_⟩
    refine play_remainingQty _ _ fill _ _ ?_
    rw [patternOf_seen, chunksOf_seen, seen_totalQty, seen_filledQty, hcarried, hfull]

end Fill

theorem View.Balances.seen {v : View} (h : v.Balances k) (snap : MarketSnapshot)
    (slippage : SlippageKind) :
    View.Balances k { v with record := v.record.map (·.seen snap slippage) } := by
  intro o' ho'
  obtain ⟨o, ho, rfl⟩ := Option.map_eq_some_iff.mp ho'
  obtain ⟨hexecuted, hmoved, hnonneg, hwhole⟩ := h o ho
  constructor
  case executed => rwa [seen_filledQty]
  case moved => rwa [seen_side, seen_filledQty]
  case nonneg => rwa [seen_totalQty]
  case whole => rwa [seen_filledQty, seen_remainingQty, seen_totalQty, seen_status]

/-! ### Calls -/

/-- Order `k` is not placed for less than nothing; and where the market fills it, the fill is in two
    chunks at most. -/
def FillsInTwo (rng : Rng) (baseSeed : UInt64) (k : OrderId) (s : Sim) : Op → Prop
  | .place req _ => req.orderId = k → refusal req s = none → 0 ≤ req.totalQuantity
  | .snapshot snap => k ∈ candidateIds snap s → s.fillIn snap k ≠ none →
    ∀ o, s.orders.get? k = some o → (chunksOf rng baseSeed o s).length ≤ 2
  | _ => True

variable (rng baseSeed) in
/-- The record of a candidate when it is looked at, and how it would fill. -/
theorem Ahead.chunksOf {snap : MarketSnapshot} {s s' : Sim} {js : List OrderId}
    (h : Ahead snap s (k :: js) s') {o' : OrderRecord} (ho' : (s'.view k).record = some o') :
    ∃ o, s.orders.get? k = some o ∧ chunksOf rng baseSeed o' s' = chunksOf rng baseSeed o s := by
  obtain ⟨o, ho, heq, -⟩ := (h.bystander k fun _ => List.mem_cons_self).back ho'
  refine ⟨o, ho, ?_⟩
  rw [heq, IbSim.chunksOf, IbSim.chunksOf, patternOf, patternOf, h.settings.partialThreshold]

theorem balances_onMarketSnapshot {s : Sim} (hb : Books s) (h : (s.view k).Balances k)
    {snap : MarketSnapshot} (htwo : FillsInTwo rng baseSeed k s (.snapshot snap)) :
    ((onMarketSnapshot rng baseSeed snap s).2.view k).Balances k := by
  by_cases hk : k ∈ candidateIds snap s
  · obtain ⟨js, s', ha, hafter⟩ := exists_look rng baseSeed hb hk
    have hbal := h.bystander (ha.bystander k fun _ => List.mem_cons_self)
    refine View.Balances.bystander ?_ hafter
    cases hfill : s'.fillIn snap k with
    | none =>
      rw [view_look_of_none rng baseSeed snap hfill, if_pos rfl]
      exact hbal.seen snap _
    | some fill =>
      refine View.Balances.bystander ?_ (bystander_filled ha.books hfill)
      refine hbal.fill (fun o ho => Store.key_of_get? ho) fun o' ho' => ?_
      have hsome : s.fillIn snap k ≠ none := by
        rw [← ha.fillIn List.mem_cons_self, hfill]
        exact Option.some_ne_none fill
      obtain ⟨o, ho, hchunks⟩ := ha.chunksOf rng baseSeed ho'
      rw [hchunks]
      exact htwo hk hsome o ho
  · exact h.bystander (bystander_onMarketSnapshot rng baseSeed hb hk)

theorem balances_place {s : Sim} (hb : Books s) (h : (s.view k).Balances k) {req : PlaceOrderReq}
    (now : VirtualInstant) (hnonneg : req.orderId = k → refusal req s = none → 0 ≤ req.totalQuantity) :
    ((place req now s).2.view k).Balances k := by
  cases hrefused : refusal req s with
  | some r =>
    rw [place_of_refusal hrefused, view_emit]
    simpa using h
  | none =>
    rw [view_place hrefused]
    split
    · rename_i hid
      subst hid
      obtain ⟨hhistory, hbookings⟩ := hb.fresh _ (hb.new_of_accepted hrefused)
      intro o ho
      obtain rfl := Option.some.inj ho
      constructor
      case executed =>
        rw [View.become, hhistory, List.nil_append, executedShares, executions_statuses]
        rfl
      case moved =>
        rw [View.become, hbookings]
        exact (Side.signed_zero _).symm
      case nonneg => exact hnonneg rfl hrefused
      case whole =>
        refine .inl ⟨rfl, rfl, ?_⟩
        simp only [PlaceOrderReq.record]
        split_ifs <;> simp
    · exact h

theorem balances_exec {s : Sim} (hb : Books s) (h : (s.view k).Balances k) {op : Op}
    (hop : FillsInTwo rng baseSeed k s op) : ((exec rng baseSeed op s).2.view k).Balances k := by
  cases op with
  | place req now => exact balances_place hb h now hop
  | cancel orderId =>
    rw [exec, view_cancel]
    split
    · exact h.bystander (Bystander.cancel k _)
    · exact h
  | snapshot snap => exact balances_onMarketSnapshot hb h hop
  | openOrders =>
    rw [exec, view_openOrders]
    exact h.bystander (Bystander.restate k _)
  | drainDue now => exact h
  | setCommissionDelay orderId delay => exact h
  | armDuplicateOrderStatus => exact h
  | installOutOfOrderSchedule orderId perm => exact h
  | setSlippage slippage => exact h
  | setPartialThreshold t => exact h

/-! ### Runs -/

/-- Of an accepted order no more is executed than it is for, what is executed is what it moved on the
    account, and when it is filled all of it was executed. -/
structure SharesConserved (k : OrderId) (done : Emits) (o : OrderRecord) : Prop where
  bounded : executedShares k (done.1 ++ done.2.pending) ≤ o.totalQty
  moved : movedShares (done.2.view k).bookings =
    o.side.signed (executedShares k (done.1 ++ done.2.pending))
  whole : o.status = .filled → executedShares k (done.1 ++ done.2.pending) = o.totalQty

/-- Executions are delivered once. -/
theorem executedShares_delivered {r : Emits} (h : Delivered Sim.new r) (k : OrderId) :
    executedShares k (r.1 ++ r.2.pending) = executedShares k r.2.log := by
  obtain ⟨new, copies, hlog, hperm, hcopies⟩ := h
  have hnone : executions k copies = [] := by
    refine List.filterMap_eq_nil_iff.mpr fun e he => ?_
    cases e with
    | execution x => exact (hcopies _ he).1.elim
    | _ => rfl
  have hsplit : executedShares k (r.1 ++ r.2.pending) = executedShares k (new ++ copies) :=
    ((hperm.filterMap _).map _).sum_eq
  have hlog' : r.2.log = new := hlog
  rw [hsplit, hlog', executedShares, executedShares, executions_append, hnone, List.append_nil]

theorem executedShares_view {r : Emits} (h : Delivered Sim.new r) (k : OrderId) :
    executedShares k (r.1 ++ r.2.pending) = executedShares k (r.2.view k).history := by
  rw [executedShares_delivered h, executedShares, executedShares, Sim.view, executions_filter]

theorem View.Balanced.conserves {done : Emits} {o : OrderRecord}
    (h : (done.2.view k).Balanced k o) (hdelivered : Delivered Sim.new done) :
    SharesConserved k done o := by
  have hexecuted : executedShares k (done.1 ++ done.2.pending) = o.filledQty := by
    rw [executedShares_view hdelivered, h.executed]
  constructor
  case bounded =>
    rw [hexecuted]
    rcases h.whole with ⟨hnone, -, -⟩ | ⟨hall, -⟩
    · exact hnone ▸ h.nonneg
    · exact hall.le
  case moved => rw [hexecuted, h.moved]
  case whole =>
    intro hstatus
    rw [hexecuted]
    rcases h.whole with ⟨-, -, hlive⟩ | ⟨hall, -⟩
    · exact absurd hstatus hlive
    · exact hall

/-! ### Where shares are lost -/

/-- The order moved other shares on the account than were executed for it. -/
def View.Unequal (k : OrderId) (v : View) : Prop :=
  ∃ o, v.record = some o ∧ movedShares v.bookings ≠ o.side.signed (executedShares k v.history)

theorem View.Unequal.bystander {v v' : View} (h : v.Unequal k) (hby : Bystander k v v') :
    v'.Unequal k := by
  obtain ⟨o, ho, hne⟩ := h
  obtain ⟨st, ho', -⟩ := hby.get ho
  refine ⟨_, ho', ?_⟩
  rwa [hby.bookings, executedShares, hby.executions]

theorem View.Balances.unequal_fill {v : View} {o : OrderRecord} (h : v.Balances k)
    (hr : v.record = some o) (hid : o.orderId = k) {snap : MarketSnapshot} {s : Sim} {fill : Fill}
    (hmany : 2 < (chunksOf rng baseSeed o s).length) : (v.fill rng baseSeed snap s fill).Unequal k := by
  have hbal := h o hr
  obtain ⟨hexecuted, hmoved⟩ := hbal.counts_fill rng baseSeed hr hid snap s fill
  have hlt : (patternOf rng baseSeed o s).carried (chunksOf rng baseSeed o s) < o.remainingQty :=
    carried_planChunks_lt hmany
  have hfull := hbal.filled_add_remaining
  refine ⟨(o.played rng baseSeed snap s fill).1, by rw [View.record_fill, hr]; rfl, ?_⟩
  rw [hexecuted, hmoved, (sameOrder_played snap s fill o).side]
  intro heq
  have := o.side.signed_injective heq
  linarith

variable (rng baseSeed) in
theorem unequal_onMarketSnapshot {s : Sim} (hb : Books s) (h : (s.view k).Balances k)
    {snap : MarketSnapshot} (hk : k ∈ candidateIds snap s) (hsome : s.fillIn snap k ≠ none)
    {o : OrderRecord} (ho : s.orders.get? k = some o) (hmany : 2 < (chunksOf rng baseSeed o s).length) :
    ((onMarketSnapshot rng baseSeed snap s).2.view k).Unequal k := by
  obtain ⟨js, s', ha, hafter⟩ := exists_look rng baseSeed hb hk
  have hby := ha.bystander k fun _ => List.mem_cons_self
  refine View.Unequal.bystander ?_ hafter
  obtain ⟨fill, hfill⟩ := Option.ne_none_iff_exists'.mp hsome
  rw [← ha.fillIn List.mem_cons_self] at hfill
  refine View.Unequal.bystander ?_ (bystander_filled ha.books hfill)
  obtain ⟨st, ho', -⟩ := hby.get ho
  obtain ⟨o₁, ho₁, hchunks⟩ := ha.chunksOf rng baseSeed ho'
  obtain rfl : o = o₁ := Option.some.inj (ho.symm.trans ho₁)
  have hid : o.orderId = k := Store.key_of_get? ho
  refine (h.bystander hby).unequal_fill ho' hid ?_
  rwa [hchunks]

/-- A step after which the shares of the order are conserved met the condition. -/
theorem fillsInTwo_of_conserves {done : Emits} (hb : Books done.2) (hdelivered : Delivered Sim.new done)
    (h : (done.2.view k).Balances k) {op : Op}
    (hconserves : ∀ o, (step rng baseSeed done op).2.orders.get? k = some o →
      SharesConserved k (step rng baseSeed done op) o) : FillsInTwo rng baseSeed k done.2 op := by
  have hnext : Delivered Sim.new (step rng baseSeed done op) :=
    hdelivered.andEmit (delivered_exec op done.2)
  have hseen := executedShares_view hnext k
  cases op with
  | place req now =>
    intro hid haccepted
    subst hid
    have hview : (step rng baseSeed done (.place req now)).2.view req.orderId = (done.2.view
        req.orderId).become (req.record now) (req.statuses.map (emitOrderStatus (req.record now))) :=
      (view_place haccepted now req.orderId).trans (if_pos rfl)
    have hbounded := (hconserves (req.record now) (congrArg View.record hview)).bounded
    have hfresh := (hb.fresh _ (hb.new_of_accepted haccepted)).1
    rw [hseen, hview, View.become, hfresh, List.nil_append, executedShares,
      executions_statuses] at hbounded
    exact hbounded
  | snapshot snap =>
    intro hk hsome o ho
    by_contra hmany
    obtain ⟨o', ho', hne⟩ := unequal_onMarketSnapshot rng baseSeed hb h hk hsome ho (not_le.mp hmany)
    have hmoved := (hconserves o' ho').moved
    rw [hseen] at hmoved
    exact hne hmoved
  | _ => trivial

section

def apple : ContractSpec := .stock "AAPL" "SMART" "USD"

def marketBuy (shares : ℚ) : PlaceOrderReq where
  orderId := 7
  contract := apple
  side := .buy
  totalQuantity := shares
  kind := .market
  limitPrice := none
  auxPrice := none
  tif := "DAY"
  account := "DU1"
  parentId := none
  ocaGroup := none
  transmit := true

def quoteAt (price : ℚ) : MarketSnapshot := ⟨symbolKeyFor apple, price, price, price, 60⟩

/-- A generator that gives the same word every time. -/
def sameWord (word : UInt32) : Rng := ⟨fun _ _ => word, fun _ _ => 0⟩

end

end Midas.IbSim
