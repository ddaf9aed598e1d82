import HandOfMidas.BarsAdapter.Stream
import HandOfMidas.Calendar.Tiles
import Mathlib.Algebra.Order.Field.Basic
import Mathlib.Algebra.BigOperators.Group.List.Basic
import Mathlib.Tactic.Linarith

/-! The candles of the aggregator split the ticks it accepted into segments, and each is the fold of
    its segment. -/

namespace Midas.BarsAdapter

open Calendar Bars

/-! ### The fold of a segment -/

/-- The sizes of trades, price and size, taken together. -/
def sizes (trades : List (ℚ × ℕ)) : ℕ := (trades.map Prod.snd).sum

/-- Price times size, taken together. -/
def turnover (trades : List (ℚ × ℕ)) : ℚ := (trades.map fun t => t.1 * (t.2 : ℚ)).sum

/-- The volume-weighted price, if any trade has a size. -/
def weighted (trades : List (ℚ × ℕ)) : Option ℚ :=
  if sizes trades = 0 then none else some (turnover trades / sizes trades)

/-- `h` is the greatest of the prices, `l` the least. -/
structure Range (trades : List (ℚ × ℕ)) (l h : ℚ) : Prop where
  highMem : h ∈ trades.map Prod.fst
  lowMem : l ∈ trades.map Prod.fst
  between : ∀ t ∈ trades, l ≤ t.1 ∧ t.1 ≤ h

/-- The bar in progress after these trades: sums stop at the limits of their types. -/
structure Accumulates (trades : List (ℚ × ℕ)) (inp : InProgressBar) : Prop where
  o : trades.head?.map Prod.fst = some inp.o
  c : trades.getLast?.map Prod.fst = some inp.c
  range : Range trades inp.l inp.h
  volume : inp.volume = min (sizes trades) u64Max
  tradeCount : inp.tradeCount = min trades.length u32Max
  vwapNum : inp.vwapNum = turnover trades
  vwapDen : inp.vwapDen = min (sizes trades) u64Max

theorem sizes_concat (trades : List (ℚ × ℕ)) (price : ℚ) (size : ℕ) :
    sizes (trades ++ [(price, size)]) = sizes trades + size := by
  simp [sizes]

theorem turnover_concat (trades : List (ℚ × ℕ)) (price : ℚ) (size : ℕ) :
    turnover (trades ++ [(price, size)]) = turnover trades + price * size := by
  simp [turnover]

theorem Range.concat {trades : List (ℚ × ℕ)} {l h : ℚ} (hr : Range trades l h) (price : ℚ) (size : ℕ) :
    Range (trades ++ [(price, size)]) (if price < l then price else l)
      (if price > h then price else h) := by
  have hlh := hr.between
  refine ⟨?_, ?_, fun t ht => ?_⟩
  · rw [List.map_append, List.mem_append]
    split
    · exact Or.inr (by simp)
    · exact Or.inl hr.highMem
  · rw [List.map_append, List.mem_append]
    split
    · exact Or.inr (by simp)
    · exact Or.inl hr.lowMem
  · rcases List.mem_append.mp ht with ht | ht
    · obtain ⟨hle, hge⟩ := hlh t ht
      constructor
      · split <;> linarith
      · split <;> linarith
    · rw [List.mem_singleton.mp ht]
      constructor
      · split <;> linarith
      · split <;> linarith

/-- A weighted mean lies between the least and the greatest value. -/
theorem turnover_between {trades : List (ℚ × ℕ)} {l h : ℚ} (hr : ∀ t ∈ trades, l ≤ t.1 ∧ t.1 ≤ h) :
    l * sizes trades ≤ turnover trades ∧ turnover trades ≤ h * sizes trades := by
  induction trades with
  | nil => simp [sizes, turnover]
  | cons t trades ih =>
    obtain ⟨hl, hh⟩ := hr t List.mem_cons_self
    obtain ⟨ihl, ihh⟩ := ih fun x hx => hr x (List.mem_cons_of_mem t hx)
    have hsize : (0 : ℚ) ≤ t.2 := Nat.cast_nonneg _
    simp only [sizes, turnover, List.map_cons, List.sum_cons, Nat.cast_add] at ihl ihh ⊢
    constructor
    · have := mul_le_mul_of_nonneg_right hl hsize
      linarith
    · have := mul_le_mul_of_nonneg_right hh hsize
      linarith

theorem weighted_between {trades : List (ℚ × ℕ)} {l h w : ℚ} (hr : ∀ t ∈ trades, l ≤ t.1 ∧ t.1 ≤ h)
    (hw : weighted trades = some w) : l ≤ w ∧ w ≤ h := by
  unfold weighted at hw
  split at hw
  · cases hw
  · rename_i hne
    obtain ⟨hl, hh⟩ := turnover_between hr
    have hpos : (0 : ℚ) < sizes trades := Nat.cast_pos.mpr (Nat.pos_of_ne_zero hne)
    rw [← Option.some.inj hw]
    exact ⟨(le_div_iff₀ hpos).mpr hl, (div_le_iff₀ hpos).mpr hh⟩

theorem accumulates_newBar {window : BarWindow} {price : ℚ} {size : ℕ} {ts : Instant}
    (hsize : size ≤ u64Max) : Accumulates [(price, size)] (newBar window price size ts) := by
  have hmin : min size u64Max = size := min_eq_left hsize
  refine ⟨rfl, rfl, ⟨by simp [newBar], by simp [newBar], by simp [newBar]⟩, ?_, ?_, ?_, ?_⟩
  · simp [newBar, sizes, hmin]
  · simp [newBar, u32Max]
  · simp only [newBar, turnover]
    split
    · rename_i h
      simp [h]
    · simp
  · simp only [newBar, sizes]
    split
    · rename_i h
      simp [h]
    · simp [hmin]

theorem Accumulates.fold {trades : List (ℚ × ℕ)} {inp : InProgressBar} (h : Accumulates trades inp)
    (price : ℚ) (size : ℕ) : Accumulates (trades ++ [(price, size)]) (fold inp price size) := by
  have hne : trades ≠ [] := by
    rintro rfl
    exact absurd h.o (by simp)
  have hrange := h.range.concat price size
  have ho : (trades ++ [(price, size)]).head?.map Prod.fst = some inp.o := by
    rw [List.head?_append_of_ne_nil _ hne]
    exact h.o
  have hc : (trades ++ [(price, size)]).getLast?.map Prod.fst = some price := by simp
  have hcount : min (inp.tradeCount + 1) u32Max = min (trades ++ [(price, size)]).length u32Max := by
    rw [h.tradeCount, List.length_append, List.length_singleton]
    omega
  have hsum : min (inp.volume + size) u64Max = min (sizes (trades ++ [(price, size)])) u64Max := by
    rw [h.volume, sizes_concat]
    omega
  have hden : min (inp.vwapDen + size) u64Max = min (sizes (trades ++ [(price, size)])) u64Max := by
    rw [h.vwapDen, sizes_concat]
    omega
  have hnum : inp.vwapNum + price * size = turnover (trades ++ [(price, size)]) := by
    rw [h.vwapNum, turnover_concat]
  unfold BarsAdapter.fold
  by_cases hsize : size > 0
  · simp only [if_pos hsize]
    exact ⟨ho, hc, hrange, hsum, hcount, hnum, hden⟩
  · -- a trade without a size counts, and moves prices only
    simp only [if_neg hsize]
    obtain rfl : size = 0 := Nat.eq_zero_of_not_pos hsize
    refine ⟨ho, hc, hrange, ?_, hcount, ?_, ?_⟩
    · rw [h.volume, sizes_concat, add_zero]
    · rw [h.vwapNum, turnover_concat]
      simp
    · rw [h.vwapDen, sizes_concat, add_zero]

theorem extractTrade_size {tick : Tick} {price : ℚ} {size : ℕ}
    (h : extractTrade tick = some (price, size)) : size ≤ u64Max := by
  unfold extractTrade at h
  split at h
  · rename_i raw s _ _ _
    unfold sanePriceSize at h
    split at h
    · cases h
    · split at h
      · obtain ⟨-, rfl⟩ := Prod.mk.inj (Option.some.inj h)
        exact Nat.zero_le _
      · split at h
        · cases h
        · rename_i hbound
          obtain ⟨-, rfl⟩ := Prod.mk.inj (Option.some.inj h)
          simp only [u64Max, i64Max] at *
          omega
  · obtain ⟨p, -, hp⟩ := Option.map_eq_some_iff.mp h
    obtain ⟨-, rfl⟩ := Prod.mk.inj hp
    exact Nat.zero_le _
  · cases h

/-! ### The split -/

/-- Price and size of the ticks that are trades. -/
def tradesOf (ticks : List Tick) : List (ℚ × ℕ) := ticks.filterMap extractTrade

/-- The candle is the fold of these ticks, its sums stopping at the limits of their types, and its
    window is that of every one of them. -/
structure CandleOf (config : AggregatorConfig) (ticks : List Tick) (candle : Candle) : Prop where
  mapped : ∀ t ∈ ticks, config.calendar.barWindow t.ts config.period = .ok candle.window
  o : (tradesOf ticks).head?.map Prod.fst = some candle.o
  c : (tradesOf ticks).getLast?.map Prod.fst = some candle.c
  range : Range (tradesOf ticks) candle.l candle.h
  volume : candle.volume = min (sizes (tradesOf ticks)) u64Max
  tradeCount : candle.tradeCount = min ticks.length u32Max
  wap : sizes (tradesOf ticks) ≤ u64Max → candle.wap = weighted (tradesOf ticks)

/-- The accepted ticks are a row of segments, one for each candle, completed ones first and then the
    snapshot of the bar in progress, if there is one. -/
def Split (config : AggregatorConfig) (j : Journal) : Prop :=
  ∃ segments : List (List Tick), segments.flatten = j.accepted ∧
    List.Forall₂ (CandleOf config) segments
      (j.completed.map Prod.fst ++ j.agg.snapshotCurrentPartial.toList) ∧
    (j.agg.current.isSome → j.agg.snapshotCurrentPartial.isSome)

/-- The ticks of the bar in progress. -/
structure SegmentOf (config : AggregatorConfig) (ticks : List Tick) (inp : InProgressBar) : Prop where
  taken : ∀ t ∈ ticks, ∃ trade, tradeOf config t = some (inp.window, trade)
  accumulates : Accumulates (tradesOf ticks) inp
  calendars : CalendarsAgree config inp.window

theorem length_tradesOf {config : AggregatorConfig} {window : BarWindow} {ticks : List Tick}
    (h : ∀ t ∈ ticks, ∃ trade, tradeOf config t = some (window, trade)) :
    (tradesOf ticks).length = ticks.length := by
  induction ticks with
  | nil => rfl
  | cons t ticks ih =>
    obtain ⟨⟨price, size⟩, ht⟩ := h t List.mem_cons_self
    have hrest := ih fun x hx => h x (List.mem_cons_of_mem t hx)
    have htrade := (tradeOf_eq_some.mp ht).1
    rw [tradesOf, List.filterMap_cons, htrade]
    simpa [tradesOf] using hrest

/-- The view of a bar is the candle of its ticks. -/
theorem SegmentOf.view {config : AggregatorConfig} {ticks : List Tick} {inp : InProgressBar}
    (h : SegmentOf config ticks inp) (completeness : Completeness) :
    CandleOf config ticks (inp.view config completeness) := by
  have hacc := h.accumulates
  have hlen := length_tradesOf h.taken
  refine ⟨fun t ht => ?_, hacc.o, hacc.c, hacc.range, hacc.volume, hlen ▸ hacc.tradeCount,
    fun hle => ?_⟩
  · obtain ⟨⟨price, size⟩, htrade⟩ := h.taken t ht
    exact (tradeOf_eq_some.mp htrade).2
  · -- in exact arithmetic the weighted price is never dropped
    have hwap : inp.wap = weighted (tradesOf ticks) := by
      rw [InProgressBar.wap, weighted, hacc.vwapDen, min_eq_left hle, hacc.vwapNum]
    show (inp.wap.filter fun w => inp.l ≤ w && w ≤ inp.h) = weighted (tradesOf ticks)
    rw [hwap]
    cases hw : weighted (tradesOf ticks) with
    | none => rfl
    | some w =>
      obtain ⟨hl, hh⟩ := weighted_between hacc.range.between hw
      simp [Option.filter, hl, hh]

theorem SegmentOf.snapshot {config : AggregatorConfig} {ticks : List Tick} {inp : InProgressBar}
    (h : SegmentOf config ticks inp) (completeness : Completeness) :
    inp.toCandle config completeness = some (inp.view config completeness) := by
  have hrange := h.accumulates.range.between
  have hmem : ∀ {p : ℚ} {t : ℚ × ℕ}, t ∈ tradesOf ticks → t.1 = p → inp.l ≤ p ∧ p ≤ inp.h := by
    rintro p t ht rfl
    exact hrange t ht
  obtain ⟨first, hfirst, ho⟩ := Option.map_eq_some_iff.mp h.accumulates.o
  obtain ⟨last, hlast, hc⟩ := Option.map_eq_some_iff.mp h.accumulates.c
  exact toCandle_of_ordered h.calendars (hmem (List.mem_of_mem_head? hfirst) ho)
    (hmem (List.mem_of_getLast? hlast) hc) completeness

/-- The split with the bar in progress still open. -/
structure SplitSoFar (config : AggregatorConfig) (j : Journal) : Prop where
  sameConfig : j.agg.config = config
  split : ∃ segments : List (List Tick),
    List.Forall₂ (CandleOf config) segments (j.completed.map Prod.fst) ∧
      (j.agg.current = none → segments.flatten = j.accepted) ∧
      ∀ inp, j.agg.current = some inp → ∃ seg, segments.flatten ++ seg = j.accepted ∧
        SegmentOf config seg inp

theorem SplitSoFar.done {config : AggregatorConfig} {j : Journal} (h : SplitSoFar config j) :
    Split config j := by
  obtain ⟨hconfig, segments, hsegments, hnone, hsome⟩ := h
  cases hcurrent : j.agg.current with
  | none =>
    have hsnap : j.agg.snapshotCurrentPartial = none := by
      simp [SessionedBarAggregator.snapshotCurrentPartial, hcurrent]
    refine ⟨segments, hnone hcurrent, ?_, fun h => absurd h (by simp [hcurrent])⟩
    rw [hsnap, Option.toList_none, List.append_nil]
    exact hsegments
  | some inp =>
    obtain ⟨seg, hflat, hseg⟩ := hsome inp hcurrent
    have hsnap : j.agg.snapshotCurrentPartial = some (inp.view config .partialBar) := by
      rw [SessionedBarAggregator.snapshotCurrentPartial, hcurrent, hconfig]
      exact hseg.snapshot .partialBar
    refine ⟨segments ++ [seg], by simpa using hflat, ?_, fun _ => by rw [hsnap]; rfl⟩
    rw [hsnap]
    exact List.rel_append hsegments (.cons (hseg.view .partialBar) .nil)

/-- The first tick of a bar is a segment. -/
theorem segmentOf_newBar {config : AggregatorConfig} {tick : Tick} {window : BarWindow} {price : ℚ}
    {size : ℕ} (hof : tradeOf config tick = some (window, price, size))
    (hcal : CalendarsAgree config window) :
    SegmentOf config [tick] (newBar window price size tick.ts) := by
  have htrade := (tradeOf_eq_some.mp hof).1
  refine ⟨fun t ht => ?_, ?_, hcal⟩
  · rw [List.mem_singleton.mp ht]
    exact ⟨_, hof⟩
  · have htrades : tradesOf [tick] = [(price, size)] := by simp [tradesOf, htrade]
    rw [htrades]
    exact accumulates_newBar (extractTrade_size htrade)

/-- A tick of the same window goes on with the segment. -/
theorem SegmentOf.fold {config : AggregatorConfig} {ticks : List Tick} {inp : InProgressBar}
    (h : SegmentOf config ticks inp) {tick : Tick} {price : ℚ} {size : ℕ}
    (hof : tradeOf config tick = some (inp.window, price, size)) :
    SegmentOf config (ticks ++ [tick]) (fold inp price size) := by
  have htrade := (tradeOf_eq_some.mp hof).1
  have htrades : tradesOf (ticks ++ [tick]) = tradesOf ticks ++ [(price, size)] := by
    simp [tradesOf, htrade]
  have hwindow : (BarsAdapter.fold inp price size).window = inp.window := fold_window inp price size
  refine ⟨fun t ht => ?_, htrades ▸ h.accumulates.fold price size, hwindow ▸ h.calendars⟩
  rw [hwindow]
  rcases List.mem_append.mp ht with ht | ht
  · exact h.taken t ht
  · rw [List.mem_singleton.mp ht]
    exact ⟨_, hof⟩

/-- A tick that is taken goes on with the segment in progress, or closes it and begins the next. -/
theorem took_split {config : AggregatorConfig} {j : Journal} (h : SplitSoFar config j) {tick : Tick}
    {window : BarWindow} {price : ℚ} {size : ℕ} {inp' : InProgressBar} {out : AggregatorOutput}
    (hof : tradeOf config tick = some (window, price, size))
    (htook : Took config tick window price size j.agg.current inp' out)
    {agg' : SessionedBarAggregator} (hconfig : agg'.config = config)
    (hcurrent : agg'.current = some inp') : SplitSoFar config
      ⟨agg', j.accepted ++ [tick], j.completed ++ out.completed.map fun c => (c, false)⟩ := by
  obtain ⟨-, segments, hsegments, hnone, hsome⟩ := h
  refine ⟨hconfig, ?_⟩
  simp only [hcurrent, Option.some.injEq, reduceCtorEq, false_imp_iff, forall_eq', true_and]
  generalize hj : j.agg.current = current at htook
  cases htook with
  | opened hcal =>
    refine ⟨segments, by simpa [AggregatorOutput.completed] using hsegments, [tick], ?_,
      segmentOf_newBar hof hcal⟩
    rw [hnone hj]
  | folded hsame =>
    obtain ⟨seg, hflat, hseg⟩ := hsome _ hj
    refine ⟨segments, by simpa [AggregatorOutput.completed] using hsegments, seg ++ [tick], ?_,
      hseg.fold (hsame ▸ hof)⟩
    rw [← hflat, List.append_assoc]
  | partialBar hsame =>
    obtain ⟨seg, hflat, hseg⟩ := hsome _ hj
    refine ⟨segments, by simpa [AggregatorOutput.completed] using hsegments, seg ++ [tick], ?_,
      hseg.fold (hsame ▸ hof)⟩
    rw [← hflat, List.append_assoc]
  | rollover hother hcal =>
    obtain ⟨seg, hflat, hseg⟩ := hsome _ hj
    refine ⟨segments ++ [seg], ?_, [tick], ?_, segmentOf_newBar hof hcal⟩
    · simp only [AggregatorOutput.completed, List.map_cons, List.map_nil, List.map_append]
      exact List.rel_append hsegments (.cons (hseg.view .completed) .nil)
    · rw [← hflat]
      simp

theorem call_split {config : AggregatorConfig} {j j' : Journal} {call : Call}
    (h : SplitSoFar config j) (hcall : j.call call = some j') : SplitSoFar config j' := by
  cases call with
  | tick tick clock =>
    obtain ⟨⟨out, agg'⟩, hout, hcall⟩ := Option.bind_eq_some_iff.mp hcall
    obtain rfl := Option.some.inj hcall
    have hconfig := h.sameConfig
    rcases acceptTick_cases hout with ⟨-, rfl, rfl⟩ |
      ⟨window, price, size, inp', hof, hc, hcurrent, htook⟩
    · simpa [AggregatorOutput.completed] using h
    · rw [hconfig] at hof htook hc
      have hnot : out ≠ .ignored := by
        rintro rfl
        generalize j.agg.current = current at htook
        cases htook
      simp only [if_neg hnot]
      exact took_split h hof htook hc hcurrent
  | flush clock =>
    obtain ⟨⟨out, agg'⟩, hout, hcall⟩ := Option.bind_eq_some_iff.mp hcall
    obtain rfl := Option.some.inj hcall
    rcases flushIfDue_cases hout with ⟨rfl, rfl⟩ | ⟨inp, hinp, -, rfl, hc, hcurrent⟩
    · simpa using h
    · obtain ⟨hconfig, segments, hsegments, -, hsome⟩ := h
      obtain ⟨seg, hflat, hseg⟩ := hsome inp hinp
      rw [hconfig] at hc
      refine ⟨hc, segments ++ [seg], ?_, fun _ => by simpa using hflat, fun inp' h' => ?_⟩
      · simp only [Option.toList_some, List.map_cons, List.map_nil, List.map_append, hconfig]
        exact List.rel_append hsegments (.cons (hseg.view .completed) .nil)
      · rw [hcurrent] at h'
        cases h'

theorem runCalls_split {config : AggregatorConfig} {agg : SessionedBarAggregator}
    (hnew : SessionedBarAggregator.new config = .ok agg) (calls : List Call) :
    ∀ j, runCalls agg calls = some j → SplitSoFar config j := by
  obtain ⟨-, -, hagg⟩ := bind_ok hnew
  obtain rfl := Except.ok.inj hagg
  refine inv_run (I := fun oj : Option Journal => ∀ j, oj = some j → SplitSoFar config j) _ ?_ ?_ calls
  · intro oj call h j' hj'
    obtain ⟨j, rfl, hcall⟩ := Option.bind_eq_some_iff.mp hj'
    exact call_split (h j rfl) hcall
  · intro j hj
    obtain rfl := Option.some.inj hj
    exact ⟨rfl, [], .nil, fun _ => rfl, fun inp h => by cases h⟩

/-! ### No call panics -/

/-- The calendar gives windows of its own sessions, and the symbol is of this calendar. -/
def Matches (config : AggregatorConfig) : Prop :=
  (∀ {t w}, config.calendar.barWindow t config.period = .ok w →
    w.session.calendar = config.calendar.id) ∧ config.symbol.calendar = config.calendar.id

theorem newBar_toCandle {config : AggregatorConfig} {tick : Tick} {window : BarWindow} {price : ℚ}
    {size : ℕ} (hm : Matches config) (hof : tradeOf config tick = some (window, price, size)) :
    (newBar window price size tick.ts).toCandle config .partialBar =
      some ((newBar window price size tick.ts).view config .partialBar) := by
  have hcal : CalendarsAgree config window := ⟨hm.1 (tradeOf_eq_some.mp hof).2, hm.2⟩
  exact (segmentOf_newBar hof hcal).snapshot .partialBar

/-- The bar in progress is that of a segment. -/
def Sound (config : AggregatorConfig) (agg : SessionedBarAggregator) : Prop :=
  agg.config = config ∧ ∀ inp, agg.current = some inp → ∃ seg, SegmentOf config seg inp

theorem SplitSoFar.sound {config : AggregatorConfig} {j : Journal} (h : SplitSoFar config j) :
    Sound config j.agg := by
  obtain ⟨hconfig, segments, -, -, hsome⟩ := h
  refine ⟨hconfig, fun inp hinp => ?_⟩
  obtain ⟨seg, -, hseg⟩ := hsome inp hinp
  exact ⟨seg, hseg⟩

theorem acceptTick_isSome {config : AggregatorConfig} (hm : Matches config)
    {agg : SessionedBarAggregator} (h : Sound config agg) (tick : Tick) (clock : Reading) :
    ∃ out agg', agg.acceptTick tick clock = some (out, agg') := by
  obtain ⟨rfl, hcurrent⟩ := h
  unfold SessionedBarAggregator.acceptTick
  cases htrade : extractTrade tick with
  | none => exact ⟨_, _, rfl⟩
  | some trade =>
    obtain ⟨price, size⟩ := trade
    cases hwindow : agg.config.calendar.barWindow tick.ts agg.config.period with
    | error e => exact ⟨_, _, rfl⟩
    | ok window =>
      have hof := tradeOf_eq_some.mpr ⟨htrade, hwindow⟩
      have hnew := newBar_toCandle hm hof
      cases hc : agg.current with
      | none =>
        simp only [hnew]
        exact ⟨_, _, rfl⟩
      | some inp =>
        obtain ⟨seg, hseg⟩ := hcurrent inp hc
        by_cases hsame : inp.window = window
        · simp only [if_pos hsame]
          have hfold := (hseg.fold (hsame ▸ hof)).snapshot .partialBar
          split
          · simp only [hfold]
            exact ⟨_, _, rfl⟩
          · exact ⟨_, _, rfl⟩
        · simp only [if_neg hsame, hnew, hseg.snapshot .completed]
          exact ⟨_, _, rfl⟩

theorem flushIfDue_isSome {config : AggregatorConfig} {agg : SessionedBarAggregator}
    (h : Sound config agg) (clock : Reading) : ∃ out agg', agg.flushIfDue clock = some (out, agg') := by
  obtain ⟨rfl, hcurrent⟩ := h
  unfold SessionedBarAggregator.flushIfDue
  cases hc : agg.current with
  | none => exact ⟨_, _, rfl⟩
  | some inp =>
    obtain ⟨seg, hseg⟩ := hcurrent inp hc
    by_cases hdue : clock.now ≥ inp.window.closes
    · simp only [if_pos hdue, hseg.snapshot .completed]
      exact ⟨_, _, rfl⟩
    · simp only [if_neg hdue]
      exact ⟨_, _, rfl⟩

theorem runCalls_isSome {config : AggregatorConfig} (hm : Matches config) {agg : SessionedBarAggregator}
    (hnew : SessionedBarAggregator.new config = .ok agg) (calls : List Call) :
    ∃ j, runCalls agg calls = some j := by
  induction calls using List.reverseRecOn with
  | nil => exact ⟨_, rfl⟩
  | append_singleton calls call ih =>
    obtain ⟨j, hj⟩ := ih
    have hsound := (runCalls_split hnew calls j hj).sound
    rw [runCalls, run_concat]
    rw [runCalls] at hj
    rw [hj]
    cases call with
    | tick tick clock =>
      obtain ⟨out, agg', hout⟩ := acceptTick_isSome hm hsound tick clock
      exact ⟨_, by simp only [Option.bind_some, Journal.call, hout]; rfl⟩
    | flush clock =>
      obtain ⟨out, agg', hout⟩ := flushIfDue_isSome hsound clock
      exact ⟨_, by simp only [Option.bind_some, Journal.call, hout]; rfl⟩

theorem acceptTick_sound {config : AggregatorConfig} {agg agg' : SessionedBarAggregator}
    (h : Sound config agg) {tick : Tick} {clock : Reading} {out : AggregatorOutput}
    (hout : agg.acceptTick tick clock = some (out, agg')) : Sound config agg' := by
  obtain ⟨hconfig, hcurrent⟩ := h
  -- as the journal of a run that has come this far
  have hsplit : ∃ accepted, SplitSoFar config ⟨agg, accepted, []⟩ := by
    cases hc : agg.current with
    | none =>
      refine ⟨[], hconfig, [], .nil, fun _ => rfl, ?_⟩
      intro inp (h : agg.current = some inp)
      rw [hc] at h
      cases h
    | some inp =>
      obtain ⟨seg, hseg⟩ := hcurrent inp hc
      refine ⟨seg, hconfig, [], .nil, ?_, ?_⟩
      · intro (h : agg.current = none)
        rw [hc] at h
        cases h
      · intro inp' (h : agg.current = some inp')
        rw [hc] at h
        obtain rfl := Option.some.inj h
        exact ⟨seg, rfl, hseg⟩
  obtain ⟨accepted, hsplit⟩ := hsplit
  have hcall : Journal.call ⟨agg, accepted, []⟩ (.tick tick clock) =
      some ⟨agg', if out = .ignored then accepted else accepted ++ [tick],
        [] ++ out.completed.map fun c => (c, false)⟩ := by
    simp only [Journal.call, hout]
    rfl
  exact (call_split hsplit hcall).sound

theorem flushIfDue_sound {config : AggregatorConfig} {agg agg' : SessionedBarAggregator}
    (h : Sound config agg) {clock : Reading} {out : Option Candle}
    (hout : agg.flushIfDue clock = some (out, agg')) : Sound config agg' := by
  rcases flushIfDue_cases hout with ⟨-, rfl⟩ | ⟨inp, -, -, -, hconfig, hcurrent⟩
  · exact h
  · exact ⟨hconfig.trans h.1, fun inp' h' => by rw [hcurrent] at h'; cases h'⟩

theorem receive_sound {config : AggregatorConfig} (hm : Matches config) :
    ∀ (rx : List (Tick × Reading)) (agg : SessionedBarAggregator) (answers : List AggregatorOutput),
      Sound config agg → ∃ c s, SessionedBarStream.receive agg answers rx = some (c, s) ∧
        Sound config s.agg
  | [], agg, answers, h => ⟨none, _, rfl, h⟩
  | (tick, clock) :: rx, agg, answers, h => by
    obtain ⟨out, agg', hout⟩ := acceptTick_isSome hm h tick clock
    have hsound := acceptTick_sound h hout
    simp only [SessionedBarStream.receive, hout]
    cases out with
    | ignored => exact receive_sound hm rx agg' _ hsound
    | folded => exact receive_sound hm rx agg' _ hsound
    | opened c => exact ⟨_, _, rfl, hsound⟩
    | partialBar c => exact ⟨_, _, rfl, hsound⟩
    | closed c => exact ⟨_, _, rfl, hsound⟩
    | rollover prev opened => exact ⟨_, _, rfl, hsound⟩

theorem runStream_sound {config : AggregatorConfig} (hm : Matches config) {agg : SessionedBarAggregator}
    (hnew : SessionedBarAggregator.new config = .ok agg) (calls : List StreamCall) :
    ∃ d, runStream agg calls = some d ∧ Sound config d.stream.agg := by
  induction calls using List.reverseRecOn with
  | nil => exact ⟨_, rfl, (runCalls_split hnew [] _ rfl).sound⟩
  | append_singleton calls call ih =>
    obtain ⟨d, hd, hsound⟩ := ih
    rw [runStream, run_concat]
    rw [runStream] at hd
    rw [hd]
    simp only [Option.bind_some]
    cases call with
    | send tick clock => exact ⟨_, rfl, hsound⟩
    | next =>
      simp only [Delivery.call, SessionedBarStream.next]
      cases hpending : d.stream.pending with
      | nil =>
        obtain ⟨c, s, hs, hsound'⟩ := receive_sound hm d.stream.rx d.stream.agg d.stream.answers hsound
        simp only [hs]
        exact ⟨_, rfl, hsound'⟩
      | cons c pending => exact ⟨_, rfl, hsound⟩
    | flush clock =>
      obtain ⟨out, agg', hout⟩ := flushIfDue_isSome hsound clock
      simp only [Delivery.call, hout]
      exact ⟨_, rfl, flushIfDue_sound hsound hout⟩

/-- Over all sequences of calls the completed candles and the bar in progress are the folds of
    consecutive segments of the accepted ticks; through the stream every candle that `accept_tick`
    completes is delivered once and in order; and on both calendars no call panics, if the symbol is of
    the calendar, as the resolvers make it. -/
theorem candles_split_ticks {config : AggregatorConfig} {agg : SessionedBarAggregator}
    (hnew : SessionedBarAggregator.new config = .ok agg) :
    (∀ calls j, runCalls agg calls = some j → Split config j) ∧
      (∀ calls d, runStream agg calls = some d →
        d.delivered.filter (fun c => c.completeness = .completed) =
          d.stream.answers.flatMap AggregatorOutput.completed) ∧
      (∀ tz, config.calendar ∈ [Xnys.xnys tz, CryptoSpot.cryptoSpot] →
        config.symbol.calendar = config.calendar.id →
          (∀ calls, (runCalls agg calls).isSome) ∧ ∀ calls, (runStream agg calls).isSome) := by
  refine ⟨fun calls j hj => (runCalls_split hnew calls j hj).done,
    fun calls d hd => (runStream_delivered calls d hd).filter, ?_⟩
  intro tz hcal hsymbol
  have hm : Matches config := ⟨calendar_of_barWindow hcal, hsymbol⟩
  constructor
  · intro calls
    obtain ⟨j, hj⟩ := runCalls_isSome hm hnew calls
    exact Option.isSome_iff_exists.mpr ⟨j, hj⟩
  · intro calls
    obtain ⟨d, hd, -⟩ := runStream_sound hm hnew calls
    exact Option.isSome_iff_exists.mpr ⟨d, hd⟩

/-- One-minute bars of a crypto pair. -/
def bitcoin : AggregatorConfig :=
  ⟨⟨"BTC-USD", CryptoSpot.cryptoSpotId⟩, CryptoSpot.cryptoSpot, .clock (.minutes 1), 4⟩

/-- Two trades in one minute, one in the next, and a flush after it. -/
def threeTrades : List Call :=
  [.tick (tradeAt 1705500000 42000 3) (readingAt 1705500000),
    .tick (tradeAt 1705500030 42010 1) (readingAt 1705500030),
    .tick (tradeAt 1705500060 42020 2) (readingAt 1705500060), .flush (readingAt 1705500120)]

theorem candles_split_ticks_bitcoin :
    ∃ j, runCalls ⟨bitcoin, none, none⟩ threeTrades = some j ∧ j.accepted.length = 3 ∧
      j.completed.length = 2 ∧ Split bitcoin j := by
  have hlen : (runCalls ⟨bitcoin, none, none⟩ threeTrades).map
      (fun j => (j.accepted.length, j.completed.length)) = some (3, 2) := by decide +kernel
  obtain ⟨j, hj, hlen⟩ := Option.map_eq_some_iff.mp hlen
  obtain ⟨haccepted, hcompleted⟩ := Prod.mk.inj hlen
  exact ⟨j, hj, haccepted, hcompleted,
    (@candles_split_ticks bitcoin ⟨bitcoin, none, none⟩ rfl).1 _ j hj⟩

end Midas.BarsAdapter
