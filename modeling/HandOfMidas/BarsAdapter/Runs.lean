import HandOfMidas.BarsAdapter.Core
import HandOfMidas.Lib.Run

/-! What one call of the aggregator does, and what is to be seen of many: the ticks it accepted and the
    candles it completed. -/

namespace Midas.BarsAdapter

open Calendar Bars SessionedBarAggregator

/-- What the aggregator takes from a tick that it does not ignore. -/
def tradeOf (config : AggregatorConfig) (tick : Tick) : Option (BarWindow × ℚ × ℕ) :=
  match extractTrade tick with
  | none => none
  | some trade => (config.calendar.barWindow tick.ts config.period).toOption.map fun w => (w, trade)

theorem tradeOf_eq_some {config : AggregatorConfig} {tick : Tick} {window : BarWindow} {price : ℚ}
    {size : ℕ} : tradeOf config tick = some (window, price, size) ↔
      extractTrade tick = some (price, size) ∧
        config.calendar.barWindow tick.ts config.period = .ok window := by
  unfold tradeOf
  cases extractTrade tick with
  | none => simp
  | some trade =>
    cases hw : config.calendar.barWindow tick.ts config.period with
    | error e => simp [Except.toOption]
    | ok w => simp [Except.toOption, and_comm]

/-- A bar as a candle. -/
def InProgressBar.view (inp : InProgressBar) (config : AggregatorConfig) (completeness : Completeness) :
    Candle :=
  ⟨config.symbol, config.calendar.id, config.period, inp.window.session, inp.window, inp.o, inp.h,
    inp.l,
    inp.c, inp.volume, inp.tradeCount, inp.wap.filter fun w => inp.l ≤ w && w ≤ inp.h, completeness⟩

/-- The calendars of the symbol and of the window's session are the aggregator's. -/
def CalendarsAgree (config : AggregatorConfig) (window : BarWindow) : Prop :=
  window.session.calendar = config.calendar.id ∧ config.symbol.calendar = config.calendar.id

theorem eq_of_ohlcv_new {o h l c : ℚ} {volume tradeCount : ℕ} {wap : Option ℚ} {r : Ohlcv}
    (hr : Ohlcv.new o h l c volume tradeCount wap = .ok r) :
    r = ⟨o, h, l, c, volume, tradeCount, wap⟩ := by
  unfold Ohlcv.new at hr
  split at hr
  · cases hr
  split at hr
  · cases hr
  split at hr
  · cases hr
  cases wap with
  | none => exact (Except.ok.inj hr).symm
  | some w =>
    simp only at hr
    split at hr
    · cases hr
    · exact (Except.ok.inj hr).symm

theorem toCandle_eq_some {config : AggregatorConfig} {completeness : Completeness} {inp : InProgressBar}
    {c : Candle} (h : inp.toCandle config completeness = some c) :
    c = inp.view config completeness ∧ CalendarsAgree config inp.window := by
  unfold InProgressBar.toCandle at h
  simp only at h
  split at h
  · cases h
  · rename_i ohlcv hohlcv
    obtain rfl := eq_of_ohlcv_new hohlcv
    unfold Candle.new at h
    split at h
    · cases h
    split at h
    · cases h
    split at h
    · cases h
    · rename_i hsession hsymbol _
      rw [hohlcv] at h
      exact ⟨(Option.some.inj h).symm, not_not.mp hsession, not_not.mp hsymbol⟩

/-- The view of a bar in order does not fail. -/
theorem toCandle_of_ordered {config : AggregatorConfig} {inp : InProgressBar}
    (hcal : CalendarsAgree config inp.window) (ho : inp.l ≤ inp.o ∧ inp.o ≤ inp.h)
    (hc : inp.l ≤ inp.c ∧ inp.c ≤ inp.h) (completeness : Completeness) :
    inp.toCandle config completeness = some (inp.view config completeness) := by
  have hord : Ordered inp.o inp.h inp.l inp.c (inp.wap.filter fun w => inp.l ≤ w && w ≤ inp.h) := by
    refine ⟨ho, hc, fun w hw => ?_⟩
    simpa using (Option.filter_eq_some_iff.mp hw).2
  unfold InProgressBar.toCandle
  simp only [Ohlcv.new_ok hord]
  unfold Candle.new
  rw [if_neg (not_not.mpr hcal.1), if_neg (not_not.mpr hcal.1), if_neg (not_not.mpr hcal.2),
    if_neg (by simp),
    Ohlcv.new_ok hord]
  rfl

/-- The next state of the bar in progress when a tick is taken. -/
inductive Took (config : AggregatorConfig) (tick : Tick) (window : BarWindow) (price : ℚ) (size : ℕ) :
    Option InProgressBar → InProgressBar → AggregatorOutput → Prop where
  | opened (hcal : CalendarsAgree config window) :
      Took config tick window price size none (newBar window price size tick.ts)
        (.opened ((newBar window price size tick.ts).view config .partialBar))
  | folded {inp} (h : inp.window = window) :
      Took config tick window price size (some inp) (fold inp price size) .folded
  | partialBar {inp} (h : inp.window = window) :
      Took config tick window price size (some inp) (fold inp price size)
        (.partialBar ((fold inp price size).view config .partialBar))
  | rollover {inp} (h : inp.window ≠ window) (hcal : CalendarsAgree config window) :
      Took config tick window price size (some inp) (newBar window price size tick.ts)
        (.rollover (inp.view config .completed)
          ((newBar window price size tick.ts).view config .partialBar))

/-- A tick is ignored, or it is taken into the bar in progress. -/
theorem acceptTick_cases {agg agg' : SessionedBarAggregator} {tick : Tick} {clock : Reading}
    {out : AggregatorOutput} (h : agg.acceptTick tick clock = some (out, agg')) :
    tradeOf agg.config tick = none ∧ out = .ignored ∧ agg' = agg ∨
      ∃ window price size inp', tradeOf agg.config tick = some (window, price, size) ∧
        agg'.config = agg.config ∧ agg'.current = some inp' ∧
        Took agg.config tick window price size agg.current inp' out := by
  unfold SessionedBarAggregator.acceptTick at h
  cases htrade : extractTrade tick with
  | none =>
    rw [htrade] at h
    obtain ⟨rfl, rfl⟩ := Prod.mk.inj (Option.some.inj h)
    exact Or.inl ⟨by simp [tradeOf, htrade], rfl, rfl⟩
  | some trade =>
    obtain ⟨price, size⟩ := trade
    rw [htrade] at h
    simp only at h
    cases hwindow : agg.config.calendar.barWindow tick.ts agg.config.period with
    | error e =>
      rw [hwindow] at h
      obtain ⟨rfl, rfl⟩ := Prod.mk.inj (Option.some.inj h)
      exact Or.inl ⟨by simp [tradeOf, htrade, hwindow, Except.toOption], rfl, rfl⟩
    | ok window =>
      refine Or.inr ⟨window, price, size, ?_⟩
      have hof := tradeOf_eq_some.mpr ⟨htrade, hwindow⟩
      rw [hwindow] at h
      simp only at h
      cases hcurrent : agg.current with
      | none =>
        rw [hcurrent] at h
        obtain ⟨c, hc, h⟩ := Option.bind_eq_some_iff.mp h
        obtain ⟨rfl, rfl⟩ := Prod.mk.inj (Option.some.inj h)
        obtain ⟨rfl, hcal⟩ := toCandle_eq_some hc
        exact ⟨_, hof, rfl, rfl, .opened hcal⟩
      | some inp =>
        rw [hcurrent] at h
        simp only at h
        split at h
        · rename_i hsame
          split at h
          · obtain ⟨c, hc, h⟩ := Option.bind_eq_some_iff.mp h
            obtain ⟨rfl, rfl⟩ := Prod.mk.inj (Option.some.inj h)
            obtain ⟨rfl, -⟩ := toCandle_eq_some hc
            exact ⟨_, hof, rfl, rfl, .partialBar hsame⟩
          · obtain ⟨rfl, rfl⟩ := Prod.mk.inj (Option.some.inj h)
            exact ⟨_, hof, rfl, rfl, .folded hsame⟩
        · rename_i hother
          obtain ⟨closed, hclosed, h⟩ := Option.bind_eq_some_iff.mp h
          obtain ⟨opened, hopened, h⟩ := Option.bind_eq_some_iff.mp h
          obtain ⟨rfl, rfl⟩ := Prod.mk.inj (Option.some.inj h)
          obtain ⟨rfl, -⟩ := toCandle_eq_some hclosed
          obtain ⟨rfl, hcal⟩ := toCandle_eq_some hopened
          exact ⟨_, hof, rfl, rfl, .rollover hother hcal⟩

/-- A flush does nothing, or it closes the bar in progress, whose window is over. -/
theorem flushIfDue_cases {agg agg' : SessionedBarAggregator} {clock : Reading} {out : Option Candle}
    (h : agg.flushIfDue clock = some (out, agg')) :
    out = none ∧ agg' = agg ∨ ∃ inp, agg.current = some inp ∧ inp.window.closes ≤ clock.now ∧
      out = some (inp.view agg.config .completed) ∧ agg'.config = agg.config ∧ agg'.current = none := by
  unfold SessionedBarAggregator.flushIfDue at h
  cases hcurrent : agg.current with
  | none =>
    rw [hcurrent] at h
    obtain ⟨rfl, rfl⟩ := Prod.mk.inj (Option.some.inj h)
    exact Or.inl ⟨rfl, rfl⟩
  | some inp =>
    rw [hcurrent] at h
    simp only at h
    split at h
    · rename_i hdue
      obtain ⟨closed, hclosed, h⟩ := Option.bind_eq_some_iff.mp h
      obtain ⟨rfl, rfl⟩ := Prod.mk.inj (Option.some.inj h)
      obtain ⟨rfl, -⟩ := toCandle_eq_some hclosed
      exact Or.inr ⟨inp, rfl, hdue, rfl, rfl, rfl⟩
    · obtain ⟨rfl, rfl⟩ := Prod.mk.inj (Option.some.inj h)
      exact Or.inl ⟨rfl, rfl⟩

/-! ### Runs of calls -/

/-- A call of the aggregator. -/
inductive Call where
  | tick (tick : Tick) (clock : Reading)
  | flush (clock : Reading)

/-- The aggregator with what there was to be seen of it: the ticks it took, and the candles it
    completed, each with whether a flush did. -/
structure Journal where
  agg : SessionedBarAggregator
  accepted : List Tick
  completed : List (Candle × Bool)

/-- The completed candles of an output. -/
def AggregatorOutput.completed : AggregatorOutput → List Candle
  | .closed c => [c]
  | .rollover prev _ => [prev]
  | _ => []

def Journal.call (j : Journal) : Call → Option Journal
  | .tick tick clock => do
    let (out, agg) ← j.agg.acceptTick tick clock
    some ⟨agg, if out = .ignored then j.accepted else j.accepted ++ [tick],
      j.completed ++ out.completed.map fun c => (c, false)⟩
  | .flush clock => do
    let (out, agg) ← j.agg.flushIfDue clock
    some ⟨agg, j.accepted, j.completed ++ out.toList.map fun c => (c, true)⟩

/-- The journal after the calls, unless one panicked. -/
def runCalls (agg : SessionedBarAggregator) (calls : List Call) : Option Journal :=
  run (fun j call => j.bind fun j => j.call call) (some ⟨agg, [], []⟩) calls

/-- A trade at a second of UTC. -/
def tradeAt (secs : ℤ) (price : ℚ) (size : ℤ) : Tick :=
  ⟨.priceSize, .last, .priceSize (some price) size, Instant.ofTimestamp secs⟩

/-- What a clock says at a second of UTC. -/
def readingAt (secs : ℤ) : Reading := ⟨Instant.ofTimestamp secs, secs.toNat, secs.toNat⟩

end Midas.BarsAdapter
