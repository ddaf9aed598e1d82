import HandOfMidas.Bars.Series

/-! The session-aware aggregator (`aggregator/core.rs` of `midas-bars-adapter`): ticks are folded into
    one bar in progress, whose window is the calendar's. What panics in the source is `none` here. -/

namespace Midas.BarsAdapter

open Calendar Bars

inductive TickKind where | price | size | priceSize | generic | string | params
  deriving DecidableEq, Repr

inductive TickType where
  | bid | ask | last | bidSize | askSize | lastSize | volume | high | low | close | openTick |
    haltedState
  deriving DecidableEq, Repr

/-- A price as it comes in: `none` is infinite or not a number. -/
abbrev RawPrice := Option ℚ

inductive TickValue where
  | price (p : RawPrice)
  | size (s : ℤ)
  | priceSize (price : RawPrice) (size : ℤ)
  | generic (v : RawPrice)
  | text (s : String)
  | bool (b : Bool)
  deriving DecidableEq

/-- The fields of `Tick` that are read here. -/
structure Tick where
  kind : TickKind
  tickType : TickType
  value : TickValue
  ts : Instant
  deriving DecidableEq

/-- What the clock says during a call: wall time, and monotonic time when first and when last asked. -/
structure Reading where
  now : Instant
  monotonic : ℕ
  monotonicAfter : ℕ

def u32Max : ℕ := 2 ^ 32 - 1

def u64Max : ℕ := 2 ^ 64 - 1

def i64Max : ℤ := 2 ^ 63 - 1

/-- `sane_price_size`. -/
def sanePriceSize (price : RawPrice) (size : ℤ) : Option (ℚ × ℕ) :=
  match price with
  | none => none
  | some price =>
    if size < 0 then some (price, 0)
    else if size > i64Max / 2 then none
    else some (price, size.toNat)

/-- `extract_trade`. -/
def extractTrade (tick : Tick) : Option (ℚ × ℕ) :=
  match tick.kind, tick.tickType, tick.value with
  | .priceSize, .last, .priceSize price size => sanePriceSize price size
  | .price, .last, .price p => p.map fun p => (p, 0)
  | _, _, _ => none

structure InProgressBar where
  window : BarWindow
  o : ℚ
  h : ℚ
  l : ℚ
  c : ℚ
  volume : ℕ
  tradeCount : ℕ
  vwapNum : ℚ
  vwapDen : ℕ
  firstTickTs : Instant

def newBar (window : BarWindow) (price : ℚ) (size : ℕ) (ts : Instant) : InProgressBar :=
  let vwap : ℚ × ℕ := if size = 0 then (0, 0) else (price * size, size)
  ⟨window, price, price, price, price, size, 1, vwap.1, vwap.2, ts⟩

def fold (inp : InProgressBar) (price : ℚ) (size : ℕ) : InProgressBar :=
  let inp := { inp with
    h := if price > inp.h then price else inp.h
    l := if price < inp.l then price else inp.l
    c := price
    tradeCount := min (inp.tradeCount + 1) u32Max }
  if size > 0 then
    { inp with
      volume := min (inp.volume + size) u64Max
      vwapNum := inp.vwapNum + price * size
      vwapDen := min (inp.vwapDen + size) u64Max }
  else inp

@[simp] theorem fold_window (inp : InProgressBar) (price : ℚ) (size : ℕ) :
    (fold inp price size).window = inp.window := by
  by_cases h : size > 0 <;> simp [fold, h]

def InProgressBar.wap (inp : InProgressBar) : Option ℚ :=
  if inp.vwapDen = 0 then none else some (inp.vwapNum / inp.vwapDen)

/-- `AggregatorConfig`, without its clock. -/
structure AggregatorConfig where
  symbol : Symbol
  calendar : ExchangeCalendar
  period : BarPeriod
  partialEmitRateHz : ℕ

/-- `to_candle`; it expects both constructors to succeed. -/
def InProgressBar.toCandle (inp : InProgressBar) (config : AggregatorConfig)
    (completeness : Completeness) : Option Candle :=
  let wap := inp.wap.filter fun w => inp.l ≤ w && w ≤ inp.h
  match Ohlcv.new inp.o inp.h inp.l inp.c inp.volume inp.tradeCount wap with
  | .error _ => none
  | .ok ohlcv =>
    (Candle.new config.symbol config.calendar.id config.period inp.window.session inp.window ohlcv
      completeness).toOption

inductive AggregatorOutput where
  | ignored
  | folded
  | partialBar (c : Candle)
  | opened (c : Candle)
  | closed (c : Candle)
  | rollover (closed opened : Candle)
  deriving DecidableEq

structure SessionedBarAggregator where
  config : AggregatorConfig
  current : Option InProgressBar
  lastPartialEmit : Option ℕ

namespace SessionedBarAggregator

/-- `SessionedBarAggregator::new`. -/
def new (config : AggregatorConfig) : Except CalendarError SessionedBarAggregator := do
  config.calendar.validatePeriod config.period
  .ok ⟨config, none, none⟩

/-- `snapshot_current_partial`. -/
def snapshotCurrentPartial (agg : SessionedBarAggregator) : Option Candle :=
  agg.current.bind fun inp => inp.toCandle agg.config .partialBar

def shouldEmitPartial (agg : SessionedBarAggregator) (monotonic : ℕ) : Bool :=
  if agg.config.partialEmitRateHz = 0 then true
  else
    let interval := 1000000000 / agg.config.partialEmitRateHz
    match agg.lastPartialEmit with
    | none => true
    | some last => monotonic - last ≥ interval

/-- `accept_tick`. -/
def acceptTick (agg : SessionedBarAggregator) (tick : Tick) (clock : Reading) :
    Option (AggregatorOutput × SessionedBarAggregator) :=
  match extractTrade tick with
  | none => some (.ignored, agg)
  | some (price, size) =>
    match agg.config.calendar.barWindow tick.ts agg.config.period with
    | .error _ => some (.ignored, agg)
    | .ok window =>
      match agg.current with
      | none => do
        let inp := newBar window price size tick.ts
        let candle ← inp.toCandle agg.config .partialBar
        some (.opened candle, { agg with current := some inp, lastPartialEmit := some clock.monotonic })
      | some inp =>
        if inp.window = window then
          let inp := fold inp price size
          if agg.shouldEmitPartial clock.monotonic then do
            let candle ← inp.toCandle agg.config .partialBar
            some (.partialBar candle,
              { agg with current := some inp, lastPartialEmit := some clock.monotonicAfter })
          else some (.folded, { agg with current := some inp })
        else do
          let closed ← inp.toCandle agg.config .completed
          let inp := newBar window price size tick.ts
          let opened ← inp.toCandle agg.config .partialBar
          some (.rollover closed opened,
            { agg with current := some inp, lastPartialEmit := some clock.monotonic })

/-- `flush_if_due`, with what it returns. -/
def flushIfDue (agg : SessionedBarAggregator) (clock : Reading) :
    Option (Option Candle × SessionedBarAggregator) :=
  match agg.current with
  | none => some (none, agg)
  | some inp =>
    if clock.now ≥ inp.window.closes then do
      let closed ← inp.toCandle agg.config .completed
      some (some closed, { agg with current := none, lastPartialEmit := none })
    else some (none, agg)

end SessionedBarAggregator

end Midas.BarsAdapter
