import HandOfMidas.Stream.Joined
import HandOfMidas.MarketData.HistorySeam
import HandOfMidas.Calendar.Tiles
import HandOfMidas.Ib.Pacing

/-! The stream of a chart: one answer of historical bars, then the realtime bars of the provider
    (`composite.rs`, `historical.rs`, `realtime.rs`, `candle.rs` and `period.rs` of
    `midas-bars-adapter`). What panics in the source is `none` here. -/

namespace Midas.BarsAdapter

open Calendar Bars Midas.Stream BarStream
open MarketData.Seam (Item HistoricalBarsResult OfLength)

variable {ε ρ : Type}

/-- `AdapterError`, over the errors of the provider and of the resolver. -/
inductive AdapterError (ε ρ : Type) where
  | noTimeframeMapping (period : BarPeriod)
  | resolve (e : ρ)
  | provider (e : ε)
  | stream (e : StreamError)
  | timeout (op : String) (secs : ℕ)

/-- `period_to_timeframe`. -/
def periodToTimeframe (p : BarPeriod) : Except (AdapterError ε ρ) Timeframe :=
  match p with
  | .clock (.seconds 1) => .ok .s1
  | .clock (.seconds 5) => .ok .s5
  | .clock (.seconds 15) => .ok .s15
  | .clock (.seconds 30) => .ok .s30
  | .clock (.minutes 1) => .ok .m1
  | .clock (.minutes 5) => .ok .m5
  | .clock (.minutes 15) => .ok .m15
  | .clock (.minutes 30) => .ok .m30
  | .clock (.hours 1) => .ok .h1
  | .clock (.hours 4) => .ok .h4
  | .session .regular => .ok .d1
  | .calendar .week => .ok .w1
  | .calendar .month => .ok .mn1
  | other => .error (.noTimeframeMapping other)

/-- `Candle` of a provider's bar, as both conversions build it. -/
def candleOf (bar : Bar) (symbol : Symbol) (calendar : ExchangeCalendar) (period : BarPeriod)
    (completeness : Completeness) : Option Candle :=
  let session := calendar.classify bar.tsOpen
  let window : BarWindow := ⟨bar.tsOpen, bar.tsClose, session⟩
  match Ohlcv.new bar.o bar.h bar.l bar.c bar.volume bar.tradeCount bar.wap with
  | .error _ => none
  | .ok ohlcv =>
    (Candle.new symbol calendar.id period session window ohlcv completeness).toOption

/-- `bar_to_candle`. -/
def barToCandle (bar : Bar) (symbol : Symbol) (calendar : ExchangeCalendar) (period : BarPeriod) :
    Option Candle :=
  candleOf bar symbol calendar period <|
    match bar.completeness with
    | .completed => .completed
    | .partialBar => .partialBar

/-- `historical_bars_to_candles`. -/
def historicalBarsToCandles (result : HistoricalBarsResult) (symbol : Symbol)
    (calendar : ExchangeCalendar) (period : BarPeriod) : Option (List Candle) :=
  result.bars.mapM fun bar => candleOf bar symbol calendar period .completed

/-- `RealtimeBarAdapter`. `inner` is what its receiver gets before the channel closes. -/
structure RealtimeBarAdapter where
  streamMeta : BarStreamMeta
  inner : List Item
  period : BarPeriod

namespace RealtimeBarAdapter

/-- `RealtimeBarAdapter::new`. -/
def new (inner : List Item) (symbol : Symbol) (calendar : ExchangeCalendar) (period : BarPeriod) :
    RealtimeBarAdapter :=
  ⟨⟨symbol, calendar, period⟩, inner, period⟩

/-- The loop of `next`: lags are skipped. A bar that panics is the last thing that is read. -/
def read (m : BarStreamMeta) (period : BarPeriod) : List Item → Option Candle × List Item
  | [] => (none, [])
  | .lagged _ :: items => read m period items
  | .bar b :: items =>
    match barToCandle b m.symbol m.calendar period with
    | some c => (some c, items)
    | none => (none, [])

def next (s : RealtimeBarAdapter) : Option Candle × RealtimeBarAdapter :=
  let (c, inner) := read s.streamMeta s.period s.inner
  (c, { s with inner })

def snapshot (_ : RealtimeBarAdapter) (_ : TimeRange) : Except StreamError (List Candle) :=
  .error .notSeekable

/-- The bars that arrive, up to one that panics. -/
def heard (m : BarStreamMeta) (period : BarPeriod) : List Item → List Bar
  | [] => []
  | .lagged _ :: items => heard m period items
  | .bar b :: items =>
    if (barToCandle b m.symbol m.calendar period).isSome then b :: heard m period items else []

/-- Their candles. -/
def candles (m : BarStreamMeta) (period : BarPeriod) (items : List Item) : List Candle :=
  (heard m period items).filterMap fun b => barToCandle b m.symbol m.calendar period

theorem read_spec (m : BarStreamMeta) (period : BarPeriod) (items : List Item) :
    (read m period items).1 = (candles m period items).head? ∧
      candles m period (read m period items).2 = (candles m period items).tail := by
  induction items with
  | nil => exact ⟨rfl, rfl⟩
  | cons item items ih =>
    cases item with
    | lagged n => exact ih
    | bar b => cases hb : barToCandle b m.symbol m.calendar period <;> simp [read, candles, heard, hb]

instance : BarStream RealtimeBarAdapter where
  streamMeta := RealtimeBarAdapter.streamMeta
  next := next
  snapshot := snapshot
  ahead s := candles s.streamMeta s.period s.inner
  next_fst s := (read_spec s.streamMeta s.period s.inner).1
  ahead_next s := (read_spec s.streamMeta s.period s.inner).2

end RealtimeBarAdapter

/-- `ResolvedSymbol`. -/
structure ResolvedSymbol where
  symbol : Symbol
  calendar : ExchangeCalendar
  contractId : Int32

/-- The arguments of `historical_bars`. A duration is a number of seconds, days or longer. -/
structure HistoryRequest (δ : Type) where
  symbol : SymbolKey
  conId : Int32
  tsEnd : Instant
  duration : δ
  barSize : Timeframe
  whatToShow : Ib.WhatToShow
  useRth : Bool

/-- The two calls of `MarketDataSource` that are made here; `none` is no answer in time. -/
structure MarketDataSource (ε δ : Type) where
  historicalBars : HistoryRequest δ → Option (Except ε HistoricalBarsResult)
  subscribeRealtimeBars : SymbolKey → Int32 → Ib.WhatToShow → Option (Except ε (List Item))

variable {δ : Type}

/-- An answer in time. -/
def answered {α : Type} (op : String) (secs : ℕ) (answer : Option (Except ε α)) :
    Except (AdapterError ε ρ) α :=
  match answer with
  | none => .error (.timeout op secs)
  | some (.error e) => .error (.provider e)
  | some (.ok a) => .ok a

abbrev HistoryThenLiveAdapter := HistoryThenLive FixtureBarStream RealtimeBarAdapter

/-- `build_history_then_live_with_timeout`. -/
def buildHistoryThenLive (source : MarketDataSource ε δ) (resolve : String → Except ρ ResolvedSymbol)
    (ticker : String) (period : BarPeriod) (historyEnd : Instant) (historyDuration : δ) (useRth : Bool)
    (whatToShow : Option Ib.WhatToShow) (timeoutSecs : ℕ) :
    Option (Except (AdapterError ε ρ) HistoryThenLiveAdapter) :=
  match (resolve ticker).mapError AdapterError.resolve with
  | .error e => some (.error e)
  | .ok resolved =>
    match periodToTimeframe period with
    | .error e => some (.error e)
    | .ok timeframe =>
      let what := whatToShow.getD .trades
      let symbolKey : SymbolKey := ⟨resolved.contractId, ticker⟩
      match answered "historical_bars" timeoutSecs (source.historicalBars
          ⟨symbolKey, resolved.contractId, historyEnd, historyDuration, timeframe, what, useRth⟩) with
      | .error e => some (.error e)
      | .ok hist => do
        let candles ← historicalBarsToCandles hist resolved.symbol resolved.calendar period
        let m : BarStreamMeta := ⟨resolved.symbol, resolved.calendar, period⟩
        match FixtureBarStream.new m candles with
        | .error e => some (.error (.stream e))
        | .ok fixture =>
          match answered "subscribe_realtime_bars" timeoutSecs
              (source.subscribeRealtimeBars symbolKey resolved.contractId what) with
          | .error e => some (.error e)
          | .ok rt =>
            let live := RealtimeBarAdapter.new rt resolved.symbol resolved.calendar period
            some (.ok (HistoryThenLive.new m fixture live))

/-! ### Bars of the period -/

/-- The candle is the bar of the period that the calendar has at its open. -/
def IsBarOf (cal : ExchangeCalendar) (period : BarPeriod) (c : Candle) : Prop :=
  c.period = period ∧ ∃ w, cal.barWindow c.tsOpen period = .ok w ∧ w.opens = c.window.opens ∧
    w.closes = c.window.closes

/-- Bars of the timeframe, each at the start of its stretch of time. -/
structure AlignedTo (tf : Timeframe) (bars : List Bar) : Prop where
  timeframe : ∀ b ∈ bars, b.timeframe = tf
  aligned : ∀ b ∈ bars, alignDown tf.asSecs b.tsOpen = b.tsOpen
  length : OfLength tf.asSecs bars

/-- The bars that arrive are 5 seconds long, at instants the source can hold. -/
structure FiveSeconds (items : List Item) : Prop where
  length : ∀ b, .bar b ∈ items → b.tsClose = b.tsOpen + Instant.ofTimestamp 5
  inRange : ∀ b, .bar b ∈ items → minDate ≤ b.tsOpen.dateNaive ∧ b.tsClose.dateNaive ≤ maxDate

theorem candleOf_ok {bar : Bar} {symbol : Symbol} {cal : ExchangeCalendar} {period : BarPeriod}
    {completeness : Completeness} {c : Candle}
    (h : candleOf bar symbol cal period completeness = some c) :
    c.period = period ∧ c.window.opens = bar.tsOpen ∧ c.window.closes = bar.tsClose := by
  unfold candleOf at h
  simp only at h
  split at h
  · cases h
  · rename_i ohlcv _
    cases hnew : Candle.new symbol cal.id period (cal.classify bar.tsOpen)
        ⟨bar.tsOpen, bar.tsClose, cal.classify bar.tsOpen⟩ ohlcv completeness with
    | error e =>
      rw [hnew] at h
      cases h
    | ok c' =>
      rw [hnew] at h
      cases h
      obtain ⟨hperiod, hwindow⟩ := Candle.new_ok hnew
      rw [hwindow]
      exact ⟨hperiod, rfl, rfl⟩

/-- What both calendars do with a clock period. -/
theorem barWindow_clock {tz : Tz} {cal : ExchangeCalendar}
    (hcal : cal ∈ [Xnys.xnys tz, CryptoSpot.cryptoSpot]) (ci : ClockInterval) :
    ∃ dateOf, ∀ t, cal.barWindow t (.clock ci) = clockBarWindow cal.id dateOf cal.classify t ci := by
  simp only [List.mem_cons, List.not_mem_nil, or_false] at hcal
  rcases hcal with rfl | rfl
  · exact ⟨Xnys.etDate tz, fun _ => rfl⟩
  · exact ⟨CryptoSpot.utcDate, fun _ => rfl⟩

/-- The clock window of the start of a stretch is that stretch. -/
theorem clockBarWindow_of_aligned {id : CalendarId} {dateOf : Instant → ℤ}
    {classify : Instant → Session}
    {t : Instant} {ci : ClockInterval} (hpos : 0 < ci.secsPerBar) (hal : alignDown ci.secsPerBar t = t)
    (hlo : minDate ≤ t.dateNaive)
    (hhi : Instant.dateNaive (t + Instant.ofTimestamp ci.secsPerBar) ≤ maxDate) :
    clockBarWindow id dateOf classify t ci =
      .ok ⟨t, t + Instant.ofTimestamp ci.secsPerBar, classify t⟩ := by
  have hdate : ∀ secs : ℤ, (Instant.ofTimestamp secs).dateNaive = secs / 86400 := fun secs =>
    Int.mul_ediv_mul_of_pos_left secs 86400 (by decide)
  generalize hsecs : t.timestamp - t.timestamp % ci.secsPerBar = start at hal
  have ht : t = Instant.ofTimestamp start := by rw [← hsecs]; exact hal.symm
  have hend : t + Instant.ofTimestamp ci.secsPerBar = Instant.ofTimestamp (start + ci.secsPerBar) := by
    rw [ht]
    simp only [Instant.ofTimestamp]
    ring
  rw [ht, hdate] at hlo
  rw [hend, hdate] at hhi
  have hle : start / 86400 ≤ (start + ci.secsPerBar) / 86400 := Int.ediv_le_ediv (by decide) (by omega)
  have hopens : Instant.fromTimestamp start = some t := by
    rw [Instant.fromTimestamp, if_pos ⟨hlo, hle.trans hhi⟩, ht]
  have hcloses : Instant.fromTimestamp (start + ci.secsPerBar) =
      some (t + Instant.ofTimestamp ci.secsPerBar) := by
    rw [Instant.fromTimestamp, if_pos ⟨hlo.trans hle, hhi⟩, hend]
  simp only [clockBarWindow, not_le.mpr hpos, if_false, hsecs, hopens, hcloses]

/-- The clock periods that have a timeframe have its length. -/
theorem periodToTimeframe_clock {ci : ClockInterval} {tf : Timeframe}
    (h : periodToTimeframe (.clock ci) = (.ok tf : Except (AdapterError ε ρ) Timeframe)) :
    ci.secsPerBar = tf.asSecs ∧ tf.asSecs ≤ 86400 ∧ (tf.asSecs = 5 ↔ ci = .seconds 5) := by
  unfold periodToTimeframe at h
  split at h
  case h_14 => cases h
  all_goals
    rename_i heq
    cases heq
  all_goals
    cases h
    exact ⟨rfl, by decide, by decide⟩

/-! ### The candles of the chart -/

theorem mapM_some {α β : Type} {f : α → Option β} : ∀ {l : List α} {r : List β}, l.mapM f = some r →
    (∀ b ∈ r, ∃ a ∈ l, f a = some b) ∧ ∀ a ∈ l, ∃ b ∈ r, f a = some b
  | [], r, h => by
    obtain rfl : [] = r := by simpa using h
    simp
  | a :: l, r, h => by
    rw [List.mapM_cons] at h
    obtain ⟨b, hb, h⟩ := Option.bind_eq_some_iff.mp h
    obtain ⟨r', hr', h⟩ := Option.bind_eq_some_iff.mp h
    obtain rfl := Option.some.inj h
    obtain ⟨hr, hl⟩ := mapM_some hr'
    constructor
    · refine List.forall_mem_cons.mpr ⟨⟨a, List.mem_cons_self, hb⟩, fun b' hb' => ?_⟩
      obtain ⟨a', ha', hab⟩ := hr b' hb'
      exact ⟨a', List.mem_cons_of_mem a ha', hab⟩
    · refine List.forall_mem_cons.mpr ⟨⟨b, List.mem_cons_self, hb⟩, fun a' ha' => ?_⟩
      obtain ⟨b', hb', hab⟩ := hl a' ha'
      exact ⟨b', List.mem_cons_of_mem b hb', hab⟩

theorem mem_heard {m : BarStreamMeta} {period : BarPeriod} {items : List Item} {b : Bar}
    (h : b ∈ RealtimeBarAdapter.heard m period items) :
    .bar b ∈ items ∧ (barToCandle b m.symbol m.calendar period).isSome := by
  induction items with
  | nil => simp [RealtimeBarAdapter.heard] at h
  | cons item items ih =>
    cases item with
    | lagged n =>
      obtain ⟨hmem, hsome⟩ := ih h
      exact ⟨List.mem_cons_of_mem _ hmem, hsome⟩
    | bar b' =>
      unfold RealtimeBarAdapter.heard at h
      split at h
      · rename_i hsome'
        rcases List.mem_cons.mp h with rfl | h
        · exact ⟨List.mem_cons_self, hsome'⟩
        · obtain ⟨hmem, hsome⟩ := ih h
          exact ⟨List.mem_cons_of_mem _ hmem, hsome⟩
      · cases h

/-- A live bar is handed out if it opens no earlier than all of history and all live bars before it. -/
theorem mem_onward_iff {f : Bar → Option Candle} {bars : List Bar} (hsome : ∀ b ∈ bars, (f b).isSome)
    (hopen : ∀ b c, f b = some c → c.tsOpen = b.tsOpen) (seam : Option Instant) (c : Candle) :
    c ∈ onward seam (bars.filterMap f) ↔ ∃ pre b post, bars = pre ++ b :: post ∧ f b = some c ∧
      (∀ t, seam = some t → t ≤ b.tsOpen) ∧ ∀ p ∈ pre, p.tsOpen ≤ b.tsOpen := by
  induction bars generalizing seam with
  | nil => simp [onward]
  | cons a bars ih =>
    obtain ⟨ca, hca⟩ := Option.isSome_iff_exists.mp (hsome a List.mem_cons_self)
    have hta := hopen a ca hca
    have ih := ih fun b hb => hsome b (List.mem_cons_of_mem a hb)
    rw [List.filterMap_cons_some hca, onward]
    split
    · rename_i hstale
      rw [ih]
      obtain ⟨t, rfl, hlt⟩ : ∃ t, seam = some t ∧ a.tsOpen < t := by
        cases seam with
        | none => simp [stale] at hstale
        | some t => exact ⟨t, rfl, hta ▸ stale_some.mp hstale⟩
      constructor
      · rintro ⟨pre, b, post, rfl, hb, hseam, hpre⟩
        refine ⟨a :: pre, b, post, rfl, hb, hseam, List.forall_mem_cons.mpr ⟨?_, hpre⟩⟩
        exact hlt.le.trans (hseam t rfl)
      · rintro ⟨pre, b, post, hsplit, hb, hseam, hpre⟩
        cases pre with
        | nil =>
          cases hsplit
          exact absurd (hseam t rfl) (not_le.mpr hlt)
        | cons p pre =>
          cases hsplit
          exact ⟨pre, b, post, rfl, hb, hseam, fun q hq => hpre q (List.mem_cons_of_mem _ hq)⟩
    · rename_i hfresh
      have hseam : ∀ t, seam = some t → t ≤ a.tsOpen := by
        rintro t rfl
        exact hta ▸ not_lt.mp fun hlt => hfresh (stale_some.mpr hlt)
      rw [List.mem_cons, ih, hta]
      constructor
      · rintro (rfl | ⟨pre, b, post, rfl, hb, hle, hpre⟩)
        · exact ⟨[], a, bars, rfl, hca, hseam, by simp⟩
        · have hab := hle a.tsOpen rfl
          exact ⟨a :: pre, b, post, rfl, hb, fun t ht => (hseam t ht).trans hab,
            List.forall_mem_cons.mpr ⟨hab, hpre⟩⟩
      · rintro ⟨pre, b, post, hsplit, hb, -, hpre⟩
        cases pre with
        | nil =>
          cases hsplit
          exact Or.inl (Option.some.inj (hb.symm.trans hca))
        | cons p pre =>
          cases hsplit
          obtain ⟨hpb, hpre⟩ := List.forall_mem_cons.mp hpre
          refine Or.inr ⟨pre, b, post, rfl, hb, ?_, hpre⟩
          rintro t ⟨rfl⟩
          exact hpb

/-- The source can hold the bounds of a bar of a covered date. -/
theorem inRange_of_covered {tz : Tz} {cal : ExchangeCalendar}
    (hcal : cal ∈ [Xnys.xnys tz, CryptoSpot.cryptoSpot]) {t : Instant} {secs : ℤ} (hsecs : secs ≤ 86400)
    (ht : cal.covers.1 ≤ t.dateNaive ∧ t.dateNaive < cal.covers.2) :
    minDate ≤ t.dateNaive ∧ Instant.dateNaive (t + Instant.ofTimestamp secs) ≤ maxDate := by
  have hcovers : minDate ≤ cal.covers.1 ∧ cal.covers.2 ≤ maxDate := by
    simp only [List.mem_cons, List.not_mem_nil, or_false] at hcal
    rcases hcal with rfl | rfl
    · exact (by decide : minDate ≤ Xnys.coverageStart ∧ Xnys.coverageEnd ≤ maxDate)
    · exact (by decide : minDate ≤ CryptoSpot.coverageStart ∧ CryptoSpot.coverageEnd ≤ maxDate)
  refine ⟨hcovers.1.trans ht.1, ?_⟩
  have hday : Instant.ofTimestamp secs ≤ Instant.day :=
    Int.mul_le_mul_of_nonneg_right hsecs (by decide)
  have hnext : Instant.dateNaive (t + Instant.ofTimestamp secs) ≤ t.dateNaive + 1 :=
    calc Instant.dateNaive (t + Instant.ofTimestamp secs) ≤ Instant.dateNaive (t + Instant.day) :=
          Instant.dateNaive_mono (Int.add_le_add_left hday t)
      _ = t.dateNaive + 1 := Int.add_ediv_of_dvd_right (dvd_refl _) |>.trans rfl
  exact hnext.trans (ht.2.trans_le hcovers.2)

/-- A clock bar at the start of its stretch is the calendar's. -/
theorem isBarOf_of_aligned {tz : Tz} {cal : ExchangeCalendar}
    (hcal : cal ∈ [Xnys.xnys tz, CryptoSpot.cryptoSpot]) {ci : ClockInterval} {c : Candle}
    (hpos : 0 < ci.secsPerBar) (hperiod : c.period = .clock ci)
    (hal : alignDown ci.secsPerBar c.tsOpen = c.tsOpen)
    (hclose : c.window.closes = c.tsOpen + Instant.ofTimestamp ci.secsPerBar)
    (hlo : minDate ≤ c.tsOpen.dateNaive) (hhi : c.window.closes.dateNaive ≤ maxDate) :
    IsBarOf cal (.clock ci) c := by
  obtain ⟨dateOf, hwindow⟩ := barWindow_clock hcal ci
  refine ⟨hperiod, _, (hwindow c.tsOpen).trans (clockBarWindow_of_aligned hpos hal hlo ?_), rfl,
    hclose.symm⟩
  rw [← hclose]
  exact hhi

/-- A bar of 5 seconds is a bar of the period if that is 5 seconds and the bar starts a stretch of
    them. -/
theorem isBarOf_five_iff {tz : Tz} {cal : ExchangeCalendar}
    (hcal : cal ∈ [Xnys.xnys tz, CryptoSpot.cryptoSpot]) {ci : ClockInterval} {c : Candle}
    (hperiod : c.period = .clock ci) (hclose : c.window.closes = c.tsOpen + Instant.ofTimestamp 5)
    (hlo : minDate ≤ c.tsOpen.dateNaive) (hhi : c.window.closes.dateNaive ≤ maxDate) :
    IsBarOf cal (.clock ci) c ↔ ci.secsPerBar = 5 ∧ alignDown 5 c.tsOpen = c.tsOpen := by
  constructor
  · rintro ⟨-, w, hw, hopens, hcloses⟩
    obtain ⟨dateOf, hwindow⟩ := barWindow_clock hcal ci
    obtain ⟨-, rfl⟩ := clockBarWindow_ok ((hwindow c.tsOpen).symm.trans hw)
    simp only at hopens hcloses
    have hsecs : ci.secsPerBar = 5 := by
      rw [hopens, hclose, Candle.tsOpen] at hcloses
      have := Int.add_left_cancel hcloses
      exact Int.eq_of_mul_eq_mul_right (by decide) this
    exact ⟨hsecs, hsecs ▸ hopens⟩
  · rintro ⟨hsecs, hal⟩
    exact isBarOf_of_aligned hcal (by omega) hperiod (hsecs ▸ hal) (hsecs ▸ hclose) hlo hhi

section Build

variable {source : MarketDataSource ε δ} {resolve : String → Except ρ ResolvedSymbol} {ticker : String}
  {period : BarPeriod} {historyEnd : Instant} {historyDuration : δ} {useRth : Bool}
  {whatToShow : Option Ib.WhatToShow} {timeoutSecs : ℕ} {resolved : ResolvedSymbol} {tf : Timeframe}
  {hist : HistoricalBarsResult} {items : List Item} {stream : HistoryThenLiveAdapter}

/-- The history of the resolved symbol that is asked for. -/
def historyRequest (resolved : ResolvedSymbol) (ticker : String) (historyEnd : Instant)
    (historyDuration : δ) (tf : Timeframe) (whatToShow : Option Ib.WhatToShow) (useRth : Bool) :
    HistoryRequest δ :=
  ⟨⟨resolved.contractId, ticker⟩, resolved.contractId, historyEnd, historyDuration, tf,
    whatToShow.getD .trades, useRth⟩

/-- What a stream that could be built is made of. -/
theorem build_ok (hresolve : resolve ticker = .ok resolved)
    (htf : periodToTimeframe period = (.ok tf : Except (AdapterError ε ρ) Timeframe))
    (hhist : source.historicalBars
      (historyRequest resolved ticker historyEnd historyDuration tf whatToShow useRth) =
        some (.ok hist))
    (hlive : source.subscribeRealtimeBars ⟨resolved.contractId, ticker⟩ resolved.contractId
      (whatToShow.getD .trades) = some (.ok items))
    (hbuild : buildHistoryThenLive source resolve ticker period historyEnd historyDuration useRth
      whatToShow timeoutSecs = some (.ok stream)) :
    ∃ candles fixture,
      historicalBarsToCandles hist resolved.symbol resolved.calendar period = some candles ∧
      FixtureBarStream.new ⟨resolved.symbol, resolved.calendar, period⟩ candles = .ok fixture ∧
      stream = HistoryThenLive.new ⟨resolved.symbol, resolved.calendar, period⟩ fixture
        (RealtimeBarAdapter.new items resolved.symbol resolved.calendar period) := by
  unfold historyRequest at hhist
  simp only [buildHistoryThenLive, hresolve, Except.mapError, htf, hhist, hlive, answered] at hbuild
  obtain ⟨candles, hcandles, hbuild⟩ := Option.bind_eq_some_iff.mp hbuild
  cases hnew : FixtureBarStream.new ⟨resolved.symbol, resolved.calendar, period⟩ candles with
  | error e => simp [hnew] at hbuild
  | ok fixture =>
    simp only [hnew, Option.some.injEq, Except.ok.injEq] at hbuild
    exact ⟨candles, fixture, hcandles, hnew, hbuild.symm⟩

/-- The live bars that are handed out are 5-second bars of the period: none opens after all of history
    and after the live bars before it, unless the period is 5 seconds and the bar starts such a
    stretch. -/
def LiveFits (ci : ClockInterval) (history live : List Bar) : Prop :=
  ∀ pre b post, live = pre ++ b :: post → (∀ h ∈ history, h.tsOpen ≤ b.tsOpen) →
    (∀ p ∈ pre, p.tsOpen ≤ b.tsOpen) → ci = .seconds 5 ∧ alignDown 5 b.tsOpen = b.tsOpen

variable {tz : Tz} {ci : ClockInterval} {candles : List Candle} {fixture : FixtureBarStream}

/-- The candles of an aligned answer are bars of the period. -/
theorem history_isBarOf (hcal : resolved.calendar ∈ [Xnys.xnys tz, CryptoSpot.cryptoSpot])
    (htf : periodToTimeframe (.clock ci) = (.ok tf : Except (AdapterError ε ρ) Timeframe))
    (haligned : AlignedTo tf hist.bars)
    (hcandles : historicalBarsToCandles hist resolved.symbol resolved.calendar (.clock ci) =
      some candles)
    (hnew : FixtureBarStream.new ⟨resolved.symbol, resolved.calendar, .clock ci⟩ candles =
      .ok fixture) :
    ∀ c ∈ candles, IsBarOf resolved.calendar (.clock ci) c := by
  intro c hc
  obtain ⟨hsecs, hday, -⟩ := periodToTimeframe_clock htf
  have hpos := tf.asSecs_pos
  obtain ⟨b, hb, hbc⟩ := (mapM_some hcandles).1 c hc
  obtain ⟨hperiod, hopens, hcloses⟩ := candleOf_ok hbc
  obtain ⟨hmeta, rfl, -⟩ := FixtureBarStream.new_ok hnew
  have hcovered := (fixture.belongs c hc).covered
  rw [hmeta] at hcovered
  have hclose : c.window.closes = c.tsOpen + Instant.ofTimestamp ci.secsPerBar := by
    rw [hcloses, Candle.tsOpen, hopens, hsecs, haligned.length b hb]
  have hle : ci.secsPerBar ≤ 86400 := by omega
  obtain ⟨hlo, hhi⟩ := inRange_of_covered hcal hle hcovered
  refine isBarOf_of_aligned hcal (by omega) hperiod ?_ hclose hlo (hclose ▸ hhi)
  rw [hsecs, Candle.tsOpen, hopens]
  exact haligned.aligned b hb

theorem live_isBarOf_iff (hcal : resolved.calendar ∈ [Xnys.xnys tz, CryptoSpot.cryptoSpot])
    (htf : periodToTimeframe (.clock ci) = (.ok tf : Except (AdapterError ε ρ) Timeframe))
    (hfive : FiveSeconds items) {b : Bar} {c : Candle} (hb : .bar b ∈ items)
    (hbc : barToCandle b resolved.symbol resolved.calendar (.clock ci) = some c) :
    IsBarOf resolved.calendar (.clock ci) c ↔ ci = .seconds 5 ∧ alignDown 5 b.tsOpen = b.tsOpen := by
  obtain ⟨hsecs, -, hci⟩ := periodToTimeframe_clock htf
  obtain ⟨hperiod, hopens, hcloses⟩ := candleOf_ok hbc
  have htsOpen : c.tsOpen = b.tsOpen := hopens
  have hclose : c.window.closes = c.tsOpen + Instant.ofTimestamp 5 := by
    rw [hcloses, htsOpen, hfive.length b hb]
  obtain ⟨hlo, hhi⟩ := hfive.inRange b hb
  have hci' : ci.secsPerBar = 5 ↔ ci = .seconds 5 := by
    rw [← hci]
    omega
  rw [isBarOf_five_iff hcal hperiod hclose (htsOpen ▸ hlo) (hcloses ▸ hhi), hci', htsOpen]

/-- A chart's stream has the history ahead, then the live candles over its seam. -/
theorem ahead_new (items : List Item) {m : BarStreamMeta}
    (hnew : FixtureBarStream.new m candles = .ok fixture) :
    (HistoryThenLive.new m fixture (RealtimeBarAdapter.new items m.symbol m.calendar m.period)).ahead =
      candles ++ onward (seamAfter none candles) ((RealtimeBarAdapter.heard m m.period items).filterMap
        fun b => barToCandle b m.symbol m.calendar m.period) := by
  obtain ⟨-, rfl, hcursor⟩ := FixtureBarStream.new_ok hnew
  have hdrop : BarStream.ahead fixture = fixture.candles := by
    change fixture.candles.drop fixture.cursor = fixture.candles
    rw [hcursor, List.drop_zero]
  simp only [HistoryThenLive.ahead, HistoryThenLive.new, Option.elim_some, hdrop]
  rfl

/-- All that a chart's stream has ahead are bars of its period if and only if the live bars fit. -/
theorem ahead_isBarOf_iff (hcal : resolved.calendar ∈ [Xnys.xnys tz, CryptoSpot.cryptoSpot])
    (htf : periodToTimeframe (.clock ci) = (.ok tf : Except (AdapterError ε ρ) Timeframe))
    (haligned : AlignedTo tf hist.bars) (hfive : FiveSeconds items)
    (hcandles : historicalBarsToCandles hist resolved.symbol resolved.calendar (.clock ci) =
      some candles)
    (hnew : FixtureBarStream.new ⟨resolved.symbol, resolved.calendar, .clock ci⟩ candles =
      .ok fixture) :
    (∀ c ∈ (HistoryThenLive.new ⟨resolved.symbol, resolved.calendar, .clock ci⟩ fixture
        (RealtimeBarAdapter.new items resolved.symbol resolved.calendar (.clock ci))).ahead,
      IsBarOf resolved.calendar (.clock ci) c) ↔
    LiveFits ci hist.bars
      (RealtimeBarAdapter.heard ⟨resolved.symbol, resolved.calendar, .clock ci⟩ (.clock ci) items) := by
  have hsorted : candles.Pairwise fun a b => a.tsOpen ≤ b.tsOpen := by
    obtain ⟨-, rfl, -⟩ := FixtureBarStream.new_ok hnew
    exact fixture.sorted
  obtain ⟨hbar, hcandle⟩ := mapM_some hcandles
  -- the seam is over all of history
  have hseam : ∀ x, (∀ t, seamAfter none candles = some t → t ≤ x) ↔ ∀ h ∈ hist.bars, h.tsOpen ≤ x := by
    intro x
    rw [seamAfter_le_iff hsorted]
    constructor
    · intro hx h hh
      obtain ⟨c, hc, hhc⟩ := hcandle h hh
      have hopen : c.tsOpen = h.tsOpen := (candleOf_ok hhc).2.1
      exact hopen ▸ hx c hc
    · intro hx c hc
      obtain ⟨h, hh, hhc⟩ := hbar c hc
      have hopen : c.tsOpen = h.tsOpen := (candleOf_ok hhc).2.1
      exact hopen ▸ hx h hh
  have hahead := ahead_new items hnew
  simp only at hahead
  rw [hahead, List.forall_mem_append, and_iff_right (history_isBarOf hcal htf haligned hcandles hnew)]
  have hsome : ∀ b ∈ RealtimeBarAdapter.heard ⟨resolved.symbol, resolved.calendar, .clock ci⟩
    (.clock ci)
      items, (barToCandle b resolved.symbol resolved.calendar (.clock ci)).isSome :=
    fun b hb => (mem_heard hb).2
  have hmem := mem_onward_iff hsome (fun b c hbc => (candleOf_ok hbc).2.1) (seamAfter none candles)
  constructor
  · intro hall pre b post hsplit hhist hpre
    obtain ⟨hb, hsome⟩ := mem_heard (hsplit ▸ List.mem_append_right pre List.mem_cons_self)
    obtain ⟨c, hbc⟩ := Option.isSome_iff_exists.mp hsome
    have hc := (hmem c).mpr ⟨pre, b, post, hsplit, hbc, (hseam _).mpr hhist, hpre⟩
    exact (live_isBarOf_iff hcal htf hfive hb hbc).mp (hall c hc)
  · intro hfits c hc
    obtain ⟨pre, b, post, hsplit, hbc, hle, hpre⟩ := (hmem c).mp hc
    obtain ⟨hb, -⟩ := mem_heard (hsplit ▸ List.mem_append_right pre List.mem_cons_self)
    exact (live_isBarOf_iff hcal htf hfive hb hbc).mpr (hfits pre b post hsplit ((hseam _).mp hle) hpre)

/-- The stream of a chart hands out bars of its period, and a series keeps such bars only, if and
    only if the live bars fit. -/
theorem chart_bars_iff {F : Type} (asF32 : ℚ → F) (nan : F) (hresolve : resolve ticker = .ok resolved)
    (hcal : resolved.calendar ∈ [Xnys.xnys tz, CryptoSpot.cryptoSpot])
    (htf : periodToTimeframe (.clock ci) = (.ok tf : Except (AdapterError ε ρ) Timeframe))
    (hhist : source.historicalBars
      (historyRequest resolved ticker historyEnd historyDuration tf whatToShow useRth) =
        some (.ok hist))
    (haligned : AlignedTo tf hist.bars)
    (hlive : source.subscribeRealtimeBars ⟨resolved.contractId, ticker⟩ resolved.contractId
      (whatToShow.getD .trades) = some (.ok items))
    (hfive : FiveSeconds items)
    (hbuild : buildHistoryThenLive source resolve ticker (.clock ci) historyEnd historyDuration useRth
      whatToShow timeoutSecs = some (.ok stream)) :
    (∀ n, (∀ c ∈ drain n stream, IsBarOf resolved.calendar (.clock ci) c) ∧
        ∀ series, (CandleSeries.new resolved.calendar.id (.clock ci) resolved.symbol).applyAll asF32 nan
            (drain n stream) = some series →
          ∃ rows, series.Rows asF32 nan rows ∧ ∀ r ∈ rows, IsBarOf resolved.calendar (.clock ci) r) ↔
      LiveFits ci hist.bars
        (RealtimeBarAdapter.heard ⟨resolved.symbol, resolved.calendar, .clock ci⟩
          (.clock ci) items) := by
  obtain ⟨candles, fixture, hcandles, hnew, hstream⟩ := build_ok hresolve htf hhist hlive hbuild
  have hahead : BarStream.ahead stream =
    (HistoryThenLive.new ⟨resolved.symbol, resolved.calendar, .clock ci⟩
      fixture (RealtimeBarAdapter.new items resolved.symbol resolved.calendar (.clock ci))).ahead := by
    rw [hstream]
    rfl
  rw [← ahead_isBarOf_iff hcal htf haligned hfive hcandles hnew, ← hahead]
  constructor
  · intro h c hc
    obtain ⟨n, hn⟩ := exists_mem_drain hc
    exact (h n).1 c hn
  · intro h n
    have hall := fun c (hc : c ∈ drain n stream) => h c (mem_of_mem_drain hc)
    refine ⟨hall, fun series hseries => ?_⟩
    rw [hstream] at hseries hall
    have hfits := (CandleSeries.applyAll_iff asF32 nan (CandleSeries.rows_new asF32 nan) rfl _).mp
      ⟨series, hseries⟩
    obtain ⟨series', rows, hseries', hrows, hof, -⟩ := (stores_iff asF32 nan hnew _ n).mpr hfits
    obtain rfl := Option.some.inj (hseries.symm.trans hseries')
    refine ⟨rows, hrows, fun r hr => hall r ?_⟩
    exact List.mem_of_mem_filter (List.mem_of_getLast? (hof.last r hr))

end Build

/-! ### Charts of bitcoin -/

def btc : ResolvedSymbol := ⟨⟨"BTC-USD", CryptoSpot.cryptoSpotId⟩, CryptoSpot.cryptoSpot, 1⟩

/-- A bar of one trade. -/
def btcBar (tf : Timeframe) (opens : ℤ) : Bar :=
  ⟨⟨1, "BTC-USD"⟩, tf, Instant.ofTimestamp opens,
    Instant.ofTimestamp opens + Instant.ofTimestamp tf.asSecs,
    1, 1, 1, 1, 1, 1, none, .completed⟩

/-- One bar of history, and a live bar right after it. -/
def btcSource : MarketDataSource Unit Unit where
  historicalBars request :=
    some (.ok ⟨[btcBar request.barSize 0], 0, Instant.ofTimestamp request.barSize.asSecs⟩)
  subscribeRealtimeBars _ _ _ := some (.ok [.bar (btcBar .s5 60)])

/-- The chart of a clock period. -/
def btcChart (ci : ClockInterval) : Option (Except (AdapterError Unit Unit) HistoryThenLiveAdapter) :=
  buildHistoryThenLive btcSource (fun _ => .ok btc) "BTC-USD" (.clock ci) 0 () false none 30

theorem five_second_chart : ∃ stream, btcChart (.seconds 5) = some (.ok stream) ∧
    ∀ n, ∀ c ∈ drain n stream, IsBarOf CryptoSpot.cryptoSpot (.clock (.seconds 5)) c := by
  obtain ⟨stream, hstream⟩ : ∃ stream, btcChart (.seconds 5) = some (.ok stream) := ⟨_, rfl⟩
  have hfive : FiveSeconds [.bar (btcBar .s5 60)] := by
    constructor <;> intro b hb
    all_goals
      cases List.mem_singleton.mp hb
      decide
  have hcal : btc.calendar ∈ [Xnys.xnys Xnys.easternStandard, CryptoSpot.cryptoSpot] := by simp [btc]
  have haligned : AlignedTo .s5 [btcBar .s5 0] := ⟨by simp [btcBar], by decide, by decide⟩
  have hiff := chart_bars_iff id (0 : ℚ) rfl hcal rfl rfl haligned rfl hfive hstream
  refine ⟨stream, hstream, fun n => (hiff.mpr ?_ n).1⟩
  intro pre b post hsplit _ _
  have hheard : [btcBar .s5 60] = pre ++ b :: post := hsplit
  have hb : b ∈ [btcBar .s5 60] := hheard ▸ List.mem_append_right pre List.mem_cons_self
  rw [List.mem_singleton.mp hb]
  exact ⟨rfl, by decide⟩

/-- The minute chart has a live candle of five seconds. -/
theorem minute_chart : ∃ stream, btcChart (.minutes 1) = some (.ok stream) ∧
    ∃ c ∈ drain 2 stream, ¬ IsBarOf CryptoSpot.cryptoSpot (.clock (.minutes 1)) c := by
  refine ⟨_, rfl, _, List.mem_cons_of_mem _ List.mem_cons_self, ?_⟩
  rintro ⟨-, w, hw, -, hcloses⟩
  obtain ⟨dateOf, hwindow⟩ := barWindow_clock
    (by simp : CryptoSpot.cryptoSpot ∈ [Xnys.xnys Xnys.easternStandard, CryptoSpot.cryptoSpot])
    (.minutes 1)
  obtain ⟨-, rfl⟩ := clockBarWindow_ok ((hwindow _).symm.trans hw)
  revert hcloses
  decide

end Midas.BarsAdapter
