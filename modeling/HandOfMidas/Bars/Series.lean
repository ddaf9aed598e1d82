import HandOfMidas.Calendar.Types
import HandOfMidas.Lib.Overwrite

/-! Candles with their session (`candle.rs` and `symbol.rs` of `midas-bars`), with exact rationals for
    prices, so that none is infinite or not a number; and the stored candles (`series.rs`): one column
    for each field, one row for each bar. A column of prices holds what `as f32` makes of them; that is
    a parameter, as is the value that stands for a missing weighted price. -/

namespace Midas.Bars

open Calendar

/-- `Symbol`. -/
structure Symbol where
  ticker : String
  calendar : CalendarId
  deriving DecidableEq, Repr

inductive Completeness where | completed | partialBar
  deriving DecidableEq, Repr

structure Ohlcv where
  o : ℚ
  h : ℚ
  l : ℚ
  c : ℚ
  volume : ℕ
  tradeCount : ℕ
  wap : Option ℚ
  deriving DecidableEq

inductive CandleError where
  | invalidOhlc (reason : String) (o h l c : ℚ)
  | calendarMismatch (expected sessionCalendar windowCalendar : CalendarId)
  | symbolCalendarMismatch (expected got : CalendarId)
  | windowSessionMismatch
  | seriesCalendarMismatch (seriesCalendar candleCalendar : CalendarId)
  | seriesPeriodMismatch (seriesPeriod candlePeriod : BarPeriod)
  | seriesSymbolMismatch (seriesSymbol candleSymbol : Symbol)
  deriving DecidableEq

/-- `Ohlcv::new`. -/
def Ohlcv.new (o h l c : ℚ) (volume tradeCount : ℕ) (wap : Option ℚ) : Except CandleError Ohlcv :=
  if l > h then .error (.invalidOhlc "low > high" o h l c)
  else if o < l ∨ o > h then .error (.invalidOhlc "open outside [low, high]" o h l c)
  else if c < l ∨ c > h then .error (.invalidOhlc "close outside [low, high]" o h l c)
  else
    match wap with
    | some w =>
      if w < l ∨ w > h then .error (.invalidOhlc "wap outside [low, high]" o h l c)
      else .ok ⟨o, h, l, c, volume, tradeCount, some w⟩
    | none => .ok ⟨o, h, l, c, volume, tradeCount, none⟩

structure Candle where
  symbol : Symbol
  calendar : CalendarId
  period : BarPeriod
  session : Session
  window : BarWindow
  o : ℚ
  h : ℚ
  l : ℚ
  c : ℚ
  volume : ℕ
  tradeCount : ℕ
  wap : Option ℚ
  completeness : Completeness
  deriving DecidableEq

/-- `Candle::new`. `calendar` is the id of the calendar. -/
def Candle.new (symbol : Symbol) (calendar : CalendarId) (period : BarPeriod) (session : Session)
    (window : BarWindow) (ohlcv : Ohlcv) (completeness : Completeness) : Except CandleError Candle :=
  if session.calendar ≠ calendar then
    .error (.calendarMismatch calendar session.calendar window.session.calendar)
  else if window.session.calendar ≠ calendar then
    .error (.calendarMismatch calendar session.calendar window.session.calendar)
  else if symbol.calendar ≠ calendar then
    .error (.symbolCalendarMismatch calendar symbol.calendar)
  else if window.session.kind ≠ session.kind ∨ window.session.opens ≠ session.opens ∨
      window.session.closes ≠ session.closes then .error .windowSessionMismatch
  else do
    let ohlcv ← Ohlcv.new ohlcv.o ohlcv.h ohlcv.l ohlcv.c ohlcv.volume ohlcv.tradeCount ohlcv.wap
    .ok ⟨symbol, calendar, period, session, window, ohlcv.o, ohlcv.h, ohlcv.l, ohlcv.c, ohlcv.volume,
      ohlcv.tradeCount, ohlcv.wap, completeness⟩

/-- OHLC values in order: what `Ohlcv::new` asks for. -/
structure Ordered (o h l c : ℚ) (wap : Option ℚ) : Prop where
  opens : l ≤ o ∧ o ≤ h
  closes : l ≤ c ∧ c ≤ h
  wap : ∀ w, wap = some w → l ≤ w ∧ w ≤ h

theorem Ohlcv.new_ok {o h l c : ℚ} {volume tradeCount : ℕ} {wap : Option ℚ}
    (hord : Ordered o h l c wap) :
    Ohlcv.new o h l c volume tradeCount wap = .ok ⟨o, h, l, c, volume, tradeCount, wap⟩ := by
  obtain ⟨⟨hlo, hoh⟩, ⟨hlc, hch⟩, hwap⟩ := hord
  unfold Ohlcv.new
  rw [if_neg (not_lt.mpr (hlo.trans hoh)), if_neg (not_or.mpr ⟨not_lt.mpr hlo, not_lt.mpr hoh⟩),
    if_neg (not_or.mpr ⟨not_lt.mpr hlc, not_lt.mpr hch⟩)]
  cases wap with
  | none => rfl
  | some w =>
    obtain ⟨hlw, hwh⟩ := hwap w rfl
    exact if_neg (not_or.mpr ⟨not_lt.mpr hlw, not_lt.mpr hwh⟩)

/-- A candle has the period and the window it is made with. -/
theorem Candle.new_ok {symbol : Symbol} {calendar : CalendarId} {period : BarPeriod} {session : Session}
    {window : BarWindow} {ohlcv : Ohlcv} {completeness : Completeness} {c : Candle}
    (h : Candle.new symbol calendar period session window ohlcv completeness = .ok c) :
    c.period = period ∧ c.window = window := by
  unfold Candle.new at h
  split at h
  · cases h
  split at h
  · cases h
  split at h
  · cases h
  split at h
  · cases h
  obtain ⟨ohlcv', -, hc⟩ := bind_ok h
  cases hc
  exact ⟨rfl, rfl⟩

end Midas.Bars

/-! ### Stored candles -/

namespace Midas.Bars

open Calendar

/-- `ts_open` of the row of a candle. -/
def Candle.tsOpen (candle : Candle) : Instant := candle.window.opens

/-- `CandleSeries`. -/
structure CandleSeries (F : Type) where
  calendar : CalendarId
  period : BarPeriod
  symbol : Symbol
  timestamps : List ℤ
  opens : List F
  highs : List F
  lows : List F
  closes : List F
  volumes : List ℕ
  tradeCounts : List ℕ
  waps : List F
  sessions : List SessionKind
  completeness : List Completeness
  maxRows : Option ℕ
  version : ℕ

def u32Max : ℕ := 2 ^ 32 - 1

variable {F : Type} (asF32 : ℚ → F) (nan : F)

/-- `wap_to_column`. -/
def wapToColumn (wap : Option ℚ) : F :=
  match wap with
  | some v => asF32 v
  | none => nan

namespace CandleSeries

/-- `CandleSeries::new`. -/
def new (calendar : CalendarId) (period : BarPeriod) (symbol : Symbol) : CandleSeries F :=
  ⟨calendar, period, symbol, [], [], [], [], [], [], [], [], [], [], none, 0⟩

/-- `validate_candle`. -/
def validateCandle (s : CandleSeries F) (candle : Candle) : Except CandleError Unit :=
  if candle.calendar ≠ s.calendar then .error (.seriesCalendarMismatch s.calendar candle.calendar)
  else if candle.period ≠ s.period then .error (.seriesPeriodMismatch s.period candle.period)
  else if candle.symbol ≠ s.symbol then .error (.seriesSymbolMismatch s.symbol candle.symbol)
  else .ok ()

/-- `push_columns`. -/
def pushColumns (s : CandleSeries F) (candle : Candle) : Option (CandleSeries F) := do
  let tsOpenNs ← candle.window.opens.timestampNanosOpt
  some { s with
    timestamps := s.timestamps ++ [tsOpenNs]
    opens := s.opens ++ [asF32 candle.o]
    highs := s.highs ++ [asF32 candle.h]
    lows := s.lows ++ [asF32 candle.l]
    closes := s.closes ++ [asF32 candle.c]
    volumes := s.volumes ++ [min candle.volume u32Max]
    tradeCounts := s.tradeCounts ++ [candle.tradeCount]
    waps := s.waps ++ [wapToColumn asF32 nan candle.wap]
    sessions := s.sessions ++ [candle.session.kind]
    completeness := s.completeness ++ [candle.completeness] }

/-- `write_row`. -/
def writeRow (s : CandleSeries F) (idx : ℕ) (candle : Candle) : Option (CandleSeries F) := do
  let tsOpenNs ← candle.window.opens.timestampNanosOpt
  some { s with
    timestamps := s.timestamps.set idx tsOpenNs
    opens := s.opens.set idx (asF32 candle.o)
    highs := s.highs.set idx (asF32 candle.h)
    lows := s.lows.set idx (asF32 candle.l)
    closes := s.closes.set idx (asF32 candle.c)
    volumes := s.volumes.set idx (min candle.volume u32Max)
    tradeCounts := s.tradeCounts.set idx candle.tradeCount
    waps := s.waps.set idx (wapToColumn asF32 nan candle.wap)
    sessions := s.sessions.set idx candle.session.kind
    completeness := s.completeness.set idx candle.completeness }

/-- `enforce_cap`: the oldest rows fall off. -/
def enforceCap (s : CandleSeries F) : CandleSeries F :=
  match s.maxRows with
  | none => s
  | some cap =>
    if s.timestamps.length ≤ cap then s
    else
      let dropN := s.timestamps.length - cap
      { s with
        timestamps := s.timestamps.drop dropN
        opens := s.opens.drop dropN
        highs := s.highs.drop dropN
        lows := s.lows.drop dropN
        closes := s.closes.drop dropN
        volumes := s.volumes.drop dropN
        tradeCounts := s.tradeCounts.drop dropN
        waps := s.waps.drop dropN
        sessions := s.sessions.drop dropN
        completeness := s.completeness.drop dropN }

def bumpVersion (s : CandleSeries F) : CandleSeries F := { s with version := s.version + 1 }

/-- `apply`: a candle that opens where the last one does takes its row. It panics where this is
    `none`. -/
def apply (s : CandleSeries F) (candle : Candle) : Option (CandleSeries F) :=
  match s.validateCandle candle with
  | .error _ => none
  | .ok () => do
    let tsOpenNs ← candle.window.opens.timestampNanosOpt
    if s.timestamps.getLast? = some tsOpenNs then do
      let s ← s.writeRow asF32 nan (s.timestamps.length - 1) candle
      some s.bumpVersion
    else do
      let s ← s.pushColumns asF32 nan candle
      some s.enforceCap.bumpVersion

theorem version_enforceCap (s : CandleSeries F) : s.enforceCap.version = s.version := by
  unfold enforceCap
  split
  · rfl
  · split <;> rfl

/-- Every candle that is applied raises the version. -/
theorem version_apply {s s' : CandleSeries F} {candle : Candle}
    (h : s.apply asF32 nan candle = some s') : s'.version = s.version + 1 := by
  unfold apply at h
  split at h
  · cases h
  obtain ⟨tsOpenNs, -, h⟩ := Option.bind_eq_some_iff.mp h
  split at h
  · obtain ⟨written, hwrite, h⟩ := Option.bind_eq_some_iff.mp h
    obtain ⟨_, -, hwrite⟩ := Option.bind_eq_some_iff.mp hwrite
    obtain rfl := Option.some.inj hwrite
    obtain rfl := Option.some.inj h
    rfl
  · obtain ⟨pushed, hpush, h⟩ := Option.bind_eq_some_iff.mp h
    obtain ⟨_, -, hpush⟩ := Option.bind_eq_some_iff.mp hpush
    obtain rfl := Option.some.inj hpush
    obtain rfl := Option.some.inj h
    exact congrArg (· + 1) (version_enforceCap _)

/-- Candles applied one after the other. -/
def applyAll (s : CandleSeries F) : List Candle → Option (CandleSeries F)
  | [] => some s
  | candle :: candles => (s.apply asF32 nan candle).bind fun s => s.applyAll candles

/-! ### Columns and rows -/

/-- The columns are those of these candles, one row each. -/
structure Rows (s : CandleSeries F) (rows : List Candle) : Prop where
  timestamps : s.timestamps = rows.map Candle.tsOpen
  opens : s.opens = rows.map fun r => asF32 r.o
  highs : s.highs = rows.map fun r => asF32 r.h
  lows : s.lows = rows.map fun r => asF32 r.l
  closes : s.closes = rows.map fun r => asF32 r.c
  volumes : s.volumes = rows.map fun r => min r.volume u32Max
  tradeCounts : s.tradeCounts = rows.map fun r => r.tradeCount
  waps : s.waps = rows.map fun r => wapToColumn asF32 nan r.wap
  sessions : s.sessions = rows.map fun r => r.session.kind
  completeness : s.completeness = rows.map fun r => r.completeness

theorem rows_new {calendar : CalendarId} {period : BarPeriod} {symbol : Symbol} :
    (new calendar period symbol : CandleSeries F).Rows asF32 nan [] := by
  constructor <;> rfl

/-- The candle belongs in the series, and its open in a column. -/
structure Fits (s : CandleSeries F) (candle : Candle) : Prop where
  valid : s.validateCandle candle = .ok ()
  nanos : candle.window.opens.timestampNanosOpt = some candle.window.opens

theorem map_set_last {α : Type*} (f : Candle → α) (init : List Candle) (last candle : Candle) :
    ((init ++ [last]).map f).set init.length (f candle) = (init ++ [candle]).map f := by
  rw [List.map_append, List.set_append_right _ _ (by simp)]
  simp

/-- A row written over the last one. -/
theorem writeRow_rows {s : CandleSeries F} {init : List Candle} {last candle : Candle}
    (h : Rows asF32 nan s (init ++ [last]))
    (hnanos : candle.window.opens.timestampNanosOpt = some candle.window.opens) :
    ∃ s', s.writeRow asF32 nan init.length candle = some s' ∧ Rows asF32 nan s' (init ++ [candle]) ∧
      s'.maxRows = s.maxRows ∧ s'.validateCandle = s.validateCandle := by
  rw [writeRow, hnanos]
  refine ⟨_, rfl, ?_, rfl, rfl⟩
  constructor
  · exact h.timestamps ▸ map_set_last Candle.tsOpen init last candle
  · exact h.opens ▸ map_set_last (fun r => asF32 r.o) init last candle
  · exact h.highs ▸ map_set_last (fun r => asF32 r.h) init last candle
  · exact h.lows ▸ map_set_last (fun r => asF32 r.l) init last candle
  · exact h.closes ▸ map_set_last (fun r => asF32 r.c) init last candle
  · exact h.volumes ▸ map_set_last (fun r => min r.volume u32Max) init last candle
  · exact h.tradeCounts ▸ map_set_last (fun r => r.tradeCount) init last candle
  · exact h.waps ▸ map_set_last (fun r => wapToColumn asF32 nan r.wap) init last candle
  · exact h.sessions ▸ map_set_last (fun r => r.session.kind) init last candle
  · exact h.completeness ▸ map_set_last (fun r => r.completeness) init last candle

/-- A row at the end. -/
theorem pushColumns_rows {s : CandleSeries F} {rows : List Candle} {candle : Candle}
    (h : Rows asF32 nan s rows)
    (hnanos : candle.window.opens.timestampNanosOpt = some candle.window.opens) :
    ∃ s', s.pushColumns asF32 nan candle = some s' ∧ Rows asF32 nan s' (rows ++ [candle]) ∧
      s'.maxRows = s.maxRows ∧ s'.validateCandle = s.validateCandle := by
  rw [pushColumns, hnanos]
  refine ⟨_, rfl, ?_, rfl, rfl⟩
  constructor <;> simp only [List.map_append, List.map_cons, List.map_nil]
  · rw [h.timestamps, Candle.tsOpen]
  · rw [h.opens]
  · rw [h.highs]
  · rw [h.lows]
  · rw [h.closes]
  · rw [h.volumes]
  · rw [h.tradeCounts]
  · rw [h.waps]
  · rw [h.sessions]
  · rw [h.completeness]

/-- A version is no column. -/
theorem Rows.bumpVersion {s : CandleSeries F} {rows : List Candle} (h : Rows asF32 nan s rows) :
    Rows asF32 nan s.bumpVersion rows :=
  ⟨h.timestamps, h.opens, h.highs, h.lows, h.closes, h.volumes, h.tradeCounts, h.waps, h.sessions,
    h.completeness⟩

open Overwrite in
/-- The columns of a series without a cap are those of its rows, the last of which is overwritten. -/
theorem apply_rows {s : CandleSeries F} {rows : List Candle} (h : Rows asF32 nan s rows)
    (hcap : s.maxRows = none) {candle : Candle} (hfits : s.Fits candle) :
    ∃ s', s.apply asF32 nan candle = some s' ∧
      Rows asF32 nan s' (put Candle.tsOpen rows candle) ∧ s'.maxRows = none ∧
      s'.validateCandle = s.validateCandle := by
  have hlast : s.timestamps.getLast? = rows.getLast?.map Candle.tsOpen := by
    rw [h.timestamps, List.getLast?_map]
  unfold apply
  simp only [hfits.valid, hfits.nanos, Option.bind_eq_bind, Option.bind_some]
  by_cases hsame : rows.getLast?.map Candle.tsOpen = some candle.tsOpen
  · rcases List.eq_nil_or_concat' rows with rfl | ⟨init, last, rfl⟩
    · cases hsame
    have hlen : s.timestamps.length - 1 = init.length := by simp [h.timestamps]
    obtain ⟨s', hs', hrows, hcap', hvalid⟩ := writeRow_rows asF32 nan h hfits.nanos
    have hif : s.timestamps.getLast? = some candle.window.opens := hlast.trans hsame
    rw [if_pos hif, hlen, hs', put, if_pos hsame, List.dropLast_concat]
    exact ⟨_, rfl, hrows.bumpVersion, hcap'.trans hcap, hvalid⟩
  · obtain ⟨s', hs', hrows, hcap', hvalid⟩ := pushColumns_rows asF32 nan h hfits.nanos
    have hcapped : s'.enforceCap = s' := by simp [enforceCap, hcap', hcap]
    have hif : s.timestamps.getLast? ≠ some candle.window.opens :=
      fun heq => hsame (hlast.symm.trans heq)
    rw [if_neg hif, hs', Option.bind_some, hcapped, put, if_neg hsame]
    exact ⟨_, rfl, hrows.bumpVersion, hcap'.trans hcap, hvalid⟩

open Overwrite in
theorem applyAll_rows {s : CandleSeries F} {rows : List Candle} (h : Rows asF32 nan s rows)
    (hcap : s.maxRows = none) {candles : List Candle} (hfits : ∀ c ∈ candles, s.Fits c) :
    ∃ s', s.applyAll asF32 nan candles = some s' ∧
      Rows asF32 nan s' (putAll Candle.tsOpen rows candles) := by
  induction candles generalizing s rows with
  | nil => exact ⟨s, rfl, h⟩
  | cons candle candles ih =>
    obtain ⟨s', hs', hrows, hcap', hvalid⟩ :=
      apply_rows asF32 nan h hcap (hfits candle List.mem_cons_self)
    rw [applyAll, hs', Option.bind_some]
    refine ih hrows hcap' fun c hc => ?_
    have hfits := hfits c (List.mem_cons_of_mem _ hc)
    exact ⟨hvalid ▸ hfits.valid, hfits.nanos⟩

/-- What is applied belongs in the series. -/
theorem fits_of_apply {s s' : CandleSeries F} {candle : Candle}
    (h : s.apply asF32 nan candle = some s') :
    s.Fits candle := by
  unfold apply at h
  split at h
  · cases h
  rename_i hvalid
  refine ⟨hvalid, ?_⟩
  obtain ⟨ns, hns, -⟩ := Option.bind_eq_some_iff.mp h
  rw [hns]
  unfold Instant.timestampNanosOpt at hns
  split at hns
  · exact hns.symm
  · cases hns

/-- Candles can be applied to a series without a cap if they all belong in it. -/
theorem applyAll_iff {s : CandleSeries F} {rows : List Candle} (h : Rows asF32 nan s rows)
    (hcap : s.maxRows = none) (candles : List Candle) :
    (∃ s', s.applyAll asF32 nan candles = some s') ↔ ∀ c ∈ candles, s.Fits c := by
  constructor
  · rintro ⟨s', hs'⟩
    induction candles generalizing s rows with
    | nil => simp
    | cons candle candles ih =>
      obtain ⟨s₁, hs₁, hs'⟩ := Option.bind_eq_some_iff.mp hs'
      have hfits := fits_of_apply asF32 nan hs₁
      obtain ⟨s₂, hs₂, hrows, hcap₂, hvalid⟩ := apply_rows asF32 nan h hcap hfits
      obtain rfl := Option.some.inj (hs₁.symm.trans hs₂)
      have ih := ih hrows hcap₂ hs'
      intro c hc
      rcases List.mem_cons.mp hc with rfl | hc
      · exact hfits
      · exact ⟨hvalid ▸ (ih c hc).valid, (ih c hc).nanos⟩
  · intro hfits
    obtain ⟨s', hs', -⟩ := applyAll_rows asF32 nan h hcap hfits
    exact ⟨s', hs'⟩

end CandleSeries

end Midas.Bars
