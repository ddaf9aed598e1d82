import HandOfMidas.Bars.Series
import HandOfMidas.Calendar.CryptoSpot
import HandOfMidas.Candles.CandleBuffer
import HandOfMidas.Lib.Run

/-! The old store of candles and the new one (`CandleBuffer` and `CandleSeries`), fed with the same bars
    and prices. They part when a bar comes that is earlier than the last one: the buffer drops it, and
    the series puts it behind. -/

namespace Midas.Candles

open Bars Upsert Overwrite

variable {F : Type}

/-- A row of the columns that both stores have. -/
structure Quote (F : Type) where
  ts : ℤ
  o : F
  h : F
  l : F
  c : F
  v : ℕ

/-- The row as the buffer keeps it, whose times are in milliseconds. -/
def Quote.inMillis (q : Quote F) : Quote F := { q with ts := q.ts / 1000000 }

def Row.quote (r : Row F) : Quote F := ⟨r.ts, r.o, r.h, r.l, r.c, r.v.toNat⟩

variable (asF32 : ℚ → F) (nan : F)

/-- The row of a candle. -/
def quoteOf (candle : Candle) : Quote F :=
  ⟨candle.tsOpen, asF32 candle.o, asF32 candle.h, asF32 candle.l, asF32 candle.c,
    min candle.volume u32Max⟩

/-- The arguments with which `apply_bar` is called for a candle. -/
def barOf (candle : Candle) (session : Calendar.SessionKind) : Row F :=
  ⟨candle.tsOpen / 1000000, asF32 candle.o, asF32 candle.h, asF32 candle.l, asF32 candle.c,
    UInt32.ofNat (min candle.volume u32Max), session⟩

theorem quote_barOf (candle : Candle) (session : Calendar.SessionKind) :
    (barOf asF32 candle session).quote = (quoteOf asF32 candle).inMillis := by
  have hv : (UInt32.ofNat (min candle.volume u32Max)).toNat = min candle.volume u32Max :=
    UInt32.toNat_ofNat_of_lt' ((Nat.min_le_right _ _).trans_lt (by decide))
  simp [barOf, Row.quote, quoteOf, Quote.inMillis, hv]

/-! ### The series -/

/-- `CandleSeries::update_last_price`. It panics where this is `none`. -/
def updateLastPrice [F32 F] (s : CandleSeries F) (price : ℚ) : Option (CandleSeries F) :=
  if s.closes.isEmpty then some s
  else do
    let priceF32 := asF32 price
    let last := s.closes.length - 1
    let high ← s.highs[last]?
    let low ← s.lows[last]?
    some { s with
      highs := s.highs.set last (raise priceF32 high)
      lows := s.lows.set last (lower priceF32 low)
      closes := s.closes.set last priceF32
      version := s.version + 1 }

/-- An uncapped series with these rows. -/
structure Quotes (s : CandleSeries F) (rows : List (Quote F)) : Prop where
  timestamps : s.timestamps = rows.map (·.ts)
  opens : s.opens = rows.map (·.o)
  highs : s.highs = rows.map (·.h)
  lows : s.lows = rows.map (·.l)
  closes : s.closes = rows.map (·.c)
  volumes : s.volumes = rows.map (·.v)
  maxRows : s.maxRows = none

theorem quotes_new (calendar : Calendar.CalendarId) (period : Calendar.BarPeriod) (symbol : Symbol) :
    Quotes (CandleSeries.new calendar period symbol : CandleSeries F) [] := by
  constructor <;> rfl

theorem Quotes.bumpVersion {s : CandleSeries F} {rows : List (Quote F)} (h : Quotes s rows) :
    Quotes s.bumpVersion rows :=
  ⟨h.timestamps, h.opens, h.highs, h.lows, h.closes, h.volumes, h.maxRows⟩

/-- A write on the last entry of a column. -/
theorem set_map_last {α β : Type} (f : α → β) (init : List α) (x y : α) :
    ((init ++ [x]).map f).set init.length (f y) = (init ++ [y]).map f := by
  rw [List.map_append, List.set_append_right _ _ (by simp)]
  simp

theorem writeRow_quotes {s : CandleSeries F} {init : List (Quote F)} {x : Quote F}
    (h : Quotes s (init ++ [x])) {candle : Candle}
    (hnanos : candle.window.opens.timestampNanosOpt = some candle.window.opens) :
    ∃ s', s.writeRow asF32 nan init.length candle = some s' ∧
      Quotes s' (init ++ [quoteOf asF32 candle]) := by
  rw [CandleSeries.writeRow, hnanos]
  refine ⟨_, rfl, ?_⟩
  constructor
  · exact h.timestamps ▸ set_map_last (·.ts) init x (quoteOf asF32 candle)
  · exact h.opens ▸ set_map_last (·.o) init x (quoteOf asF32 candle)
  · exact h.highs ▸ set_map_last (·.h) init x (quoteOf asF32 candle)
  · exact h.lows ▸ set_map_last (·.l) init x (quoteOf asF32 candle)
  · exact h.closes ▸ set_map_last (·.c) init x (quoteOf asF32 candle)
  · exact h.volumes ▸ set_map_last (·.v) init x (quoteOf asF32 candle)
  · exact h.maxRows

theorem pushColumns_quotes {s : CandleSeries F} {rows : List (Quote F)} (h : Quotes s rows)
    {candle : Candle} (hnanos : candle.window.opens.timestampNanosOpt = some candle.window.opens) :
    ∃ s', s.pushColumns asF32 nan candle = some s' ∧ Quotes s' (rows ++ [quoteOf asF32 candle]) := by
  rw [CandleSeries.pushColumns, hnanos]
  refine ⟨_, rfl, ?_⟩
  constructor
  case maxRows => exact h.maxRows
  all_goals rw [List.map_append]
  · exact congrArg (· ++ [candle.tsOpen]) h.timestamps
  · exact congrArg (· ++ [asF32 candle.o]) h.opens
  · exact congrArg (· ++ [asF32 candle.h]) h.highs
  · exact congrArg (· ++ [asF32 candle.l]) h.lows
  · exact congrArg (· ++ [asF32 candle.c]) h.closes
  · exact congrArg (· ++ [min candle.volume u32Max]) h.volumes

/-- `apply` puts a candle over the last row if that opens when it does, and behind it otherwise. -/
theorem apply_quotes {s : CandleSeries F} {rows : List (Quote F)} (h : Quotes s rows) {candle : Candle}
    (hfits : s.Fits candle) :
    ∃ s', s.apply asF32 nan candle = some s' ∧
      Quotes s' (put Quote.ts rows (quoteOf asF32 candle)) := by
  have hlast : s.timestamps.getLast? = rows.getLast?.map Quote.ts := by
    rw [h.timestamps, List.getLast?_map]
  unfold CandleSeries.apply
  simp only [hfits.valid, hfits.nanos, Option.bind_eq_bind, Option.bind_some]
  by_cases hsame : rows.getLast?.map Quote.ts = some (quoteOf asF32 candle).ts
  · rcases List.eq_nil_or_concat' rows with rfl | ⟨init, x, rfl⟩
    · cases hsame
    have hlen : s.timestamps.length - 1 = init.length := by simp [h.timestamps]
    obtain ⟨s', hs', hrows⟩ := writeRow_quotes asF32 nan h hfits.nanos
    have hif : s.timestamps.getLast? = some candle.window.opens := hlast.trans hsame
    rw [if_pos hif, hlen, hs', put, if_pos hsame, List.dropLast_concat]
    exact ⟨_, rfl, hrows.bumpVersion⟩
  · obtain ⟨s', hs', hrows⟩ := pushColumns_quotes asF32 nan h hfits.nanos
    have hcapped : s'.enforceCap = s' := by simp [CandleSeries.enforceCap, hrows.maxRows]
    have hif : s.timestamps.getLast? ≠ some candle.window.opens :=
      fun heq => hsame (hlast.symm.trans heq)
    rw [if_neg hif, hs', Option.bind_some, hcapped, put, if_neg hsame]
    exact ⟨_, rfl, hrows.bumpVersion⟩

section
variable [F32 F]

theorem updateLastPrice_of_nil {s : CandleSeries F} (h : Quotes s []) (price : ℚ) :
    updateLastPrice asF32 s price = some s := by
  simp [updateLastPrice, h.closes]

/-- A price folded into a row. -/
def priceQuote (price : F) (q : Quote F) : Quote F :=
  { q with h := raise price q.h, l := lower price q.l, c := price }

/-- `update_last_price` folds a price into the last row. -/
theorem updateLastPrice_quotes {s : CandleSeries F} {init : List (Quote F)} {x : Quote F}
    (h : Quotes s (init ++ [x])) (price : ℚ) :
    ∃ s', updateLastPrice asF32 s price = some s' ∧
      Quotes s' (init ++ [priceQuote (asF32 price) x]) := by
  have hlen : s.closes.length - 1 = init.length := by simp [h.closes]
  have hhigh : s.highs[init.length]? = some x.h := by simp [h.highs]
  have hlow : s.lows[init.length]? = some x.l := by simp [h.lows]
  have hne : s.closes.isEmpty = false := by simp [h.closes]
  refine ⟨{ s with
    highs := s.highs.set init.length (raise (asF32 price) x.h)
    lows := s.lows.set init.length (lower (asF32 price) x.l)
    closes := s.closes.set init.length (asF32 price)
    version := s.version + 1 }, ?_, ?_⟩
  · simp only [updateLastPrice, hne, hlen, hhigh, hlow]
    rfl
  constructor
  · simp [h.timestamps, priceQuote]
  · simp [h.opens, priceQuote]
  · exact h.highs ▸ set_map_last (·.h) init x (priceQuote (asF32 price) x)
  · exact h.lows ▸ set_map_last (·.l) init x (priceQuote (asF32 price) x)
  · exact h.closes ▸ set_map_last (·.c) init x (priceQuote (asF32 price) x)
  · simp [h.volumes, priceQuote]
  · exact h.maxRows

/-! ### Both stores -/

/-- An update of both stores. -/
inductive Update where
  | bar (candle : Candle) (session : Calendar.SessionKind)
  | price (price : ℚ)

/-- The stores after an update; after a panic there is nothing to update. -/
def feed (s : Option (CandleSeries F × CandleBuffer F)) (u : Update) :
    Option (CandleSeries F × CandleBuffer F) :=
  s.bind fun p =>
    match u with
    | .bar candle session => do
      let series ← p.1.apply asF32 nan candle
      let buffer ← p.2.applyBar (barOf asF32 candle session)
      some (series, buffer)
    | .price price => do
      let series ← updateLastPrice asF32 p.1 price
      let buffer ← p.2.updateLastPrice (asF32 price)
      some (series, buffer)

omit [F32 F] in
/-- Both stores have the same rows. The series counts time in nanoseconds, the buffer in
    milliseconds. -/
structure SameRows (series : CandleSeries F) (buffer : CandleBuffer F) : Prop where
  timestamps : buffer.timestamps = series.timestamps.map (· / 1000000)
  opens : buffer.opens = series.opens
  highs : buffer.highs = series.highs
  lows : buffer.lows = series.lows
  closes : buffer.closes = series.closes
  volumes : buffer.volumes.map UInt32.toNat = series.volumes

/-- Neither store has panicked, and they have the same rows. -/
def Agree (s : Option (CandleSeries F × CandleBuffer F)) : Prop := ∃ p ∈ s, SameRows p.1 p.2

/-- A bar belongs in the series and opens when its last row does, or at a later millisecond. A price
    is finite as a `f32`, or changes nothing. -/
def UpdateInOrder (s : Option (CandleSeries F × CandleBuffer F)) : Update → Prop
  | .bar candle _ => ∀ p ∈ s, p.1.Fits candle ∧ ∀ ts ∈ p.1.timestamps.getLast?,
      ts = candle.tsOpen ∨ ts / 1000000 < candle.tsOpen / 1000000
  | .price price => ∀ p ∈ s, F32.isFinite (asF32 price) = true ∨
      (∀ high ∈ p.1.highs.getLast?, raise (asF32 price) high = high) ∧
        (∀ low ∈ p.1.lows.getLast?, lower (asF32 price) low = low) ∧
          ∀ close ∈ p.1.closes.getLast?, asF32 price = close

/-- The columns of both stores are those of rows. -/
structure Held (p : CandleSeries F × CandleBuffer F) (quotes : List (Quote F)) (rows : List (Row F)) :
    Prop where
  series : Quotes p.1 quotes
  buffer : ∃ version, p.2 = .ofRows rows version

omit [F32 F] in
/-- Rows with the same columns are the same. -/
theorem quotes_ext {l l' : List (Quote F)} (hts : l.map (·.ts) = l'.map (·.ts))
    (ho : l.map (·.o) = l'.map (·.o)) (hh : l.map (·.h) = l'.map (·.h))
    (hl : l.map (·.l) = l'.map (·.l))
    (hc : l.map (·.c) = l'.map (·.c)) (hv : l.map (·.v) = l'.map (·.v)) : l = l' := by
  induction l generalizing l' with
  | nil => exact (List.map_eq_nil_iff.mp hts.symm).symm
  | cons q l ih =>
    cases l' with
    | nil => cases hts
    | cons q' l' =>
      simp only [List.map_cons, List.cons.injEq] at hts ho hh hl hc hv
      rw [ih hts.2 ho.2 hh.2 hl.2 hc.2 hv.2]
      cases q
      cases q'
      simp_all

omit [F32 F] in
theorem sameRows_iff {p : CandleSeries F × CandleBuffer F} {quotes : List (Quote F)}
    {rows : List (Row F)}
    (h : Held p quotes rows) : SameRows p.1 p.2 ↔ rows.map Row.quote = quotes.map Quote.inMillis := by
  obtain ⟨hseries, version, hbuffer⟩ := h
  rw [hbuffer]
  constructor
  · rintro ⟨hts, ho, hh, hl, hc, hv⟩
    rw [hseries.timestamps] at hts
    rw [hseries.opens] at ho
    rw [hseries.highs] at hh
    rw [hseries.lows] at hl
    rw [hseries.closes] at hc
    rw [hseries.volumes] at hv
    simp only [CandleBuffer.ofRows, List.map_map] at hts ho hh hl hc hv
    apply quotes_ext <;> rw [List.map_map, List.map_map] <;> assumption
  · intro h
    have hts := congrArg (List.map (·.ts)) h
    have ho := congrArg (List.map (·.o)) h
    have hh := congrArg (List.map (·.h)) h
    have hl := congrArg (List.map (·.l)) h
    have hc := congrArg (List.map (·.c)) h
    have hv := congrArg (List.map (·.v)) h
    simp only [List.map_map] at hts ho hh hl hc hv
    constructor
    · rw [hseries.timestamps, List.map_map]
      exact hts
    · exact ho.trans hseries.opens.symm
    · exact hh.trans hseries.highs.symm
    · exact hl.trans hseries.lows.symm
    · exact hc.trans hseries.closes.symm
    · have hvolumes : (rows.map (·.v)).map UInt32.toNat = quotes.map (·.v) := (List.map_map ..).trans hv
      exact hvolumes.trans hseries.volumes.symm

/-- Stores that have not panicked hold rows, if not the same; neither is empty alone. -/
def HoldRows (s : Option (CandleSeries F × CandleBuffer F)) : Prop :=
  ∀ p ∈ s, ∃ quotes rows, Held p quotes rows ∧ (quotes = [] ↔ rows = [])

/-- A candle for both stores. -/
theorem feed_bar {p : CandleSeries F × CandleBuffer F} {quotes : List (Quote F)} {rows : List (Row F)}
    (h : Held p quotes rows) {candle : Candle} (hfits : p.1.Fits candle)
    (session : Calendar.SessionKind) :
    ∃ p', feed asF32 nan (some p) (.bar candle session) = some p' ∧
      Held p' (put Quote.ts quotes (quoteOf asF32 candle))
        (upsert Row.ts (fun _ bar => bar) rows (barOf asF32 candle session)) := by
  obtain ⟨hseries, version, hbuffer⟩ := h
  obtain ⟨series, hs, hquotes⟩ := apply_quotes asF32 nan hseries hfits
  obtain ⟨version', hb⟩ := CandleBuffer.applyBar_ofRows rows version (barOf asF32 candle session)
  rw [← hbuffer] at hb
  refine ⟨⟨series, .ofRows _ version'⟩, ?_, hquotes, version', rfl⟩
  simp only [feed, Option.bind_some, hs, Option.bind_eq_bind]
  exact (congrArg (Option.bind · _) hb)

/-- A candle that does not belong in the series makes it panic. -/
theorem feed_bar_of_not_fits {p : CandleSeries F × CandleBuffer F} {candle : Candle}
    (h : ¬p.1.Fits candle) (session : Calendar.SessionKind) :
    feed asF32 nan (some p) (.bar candle session) = none := by
  have hnone : p.1.apply asF32 nan candle = none := by
    cases hs : p.1.apply asF32 nan candle with
    | none => rfl
    | some series => exact absurd (CandleSeries.fits_of_apply asF32 nan hs) h
  simp [feed, hnone]

/-- A price for empty stores. -/
theorem feed_price_nil {p : CandleSeries F × CandleBuffer F} (h : Held p [] []) (price : ℚ) :
    feed asF32 nan (some p) (.price price) = some p := by
  obtain ⟨hseries, version, hbuffer⟩ := h
  obtain ⟨series, buffer⟩ := p
  cases hbuffer
  have hs := updateLastPrice_of_nil asF32 hseries price
  have hb := CandleBuffer.updateLastPrice_nil version (asF32 price)
  simp only [feed, Option.bind_some, hs, Option.bind_eq_bind]
  exact congrArg (Option.bind · fun buffer => some (series, buffer)) hb

/-- The row that the buffer makes of its last one at a price. -/
def bufferRow (price : F) (y : Row F) : Row F :=
  if F32.isFinite price then CandleBuffer.priceRow price y else y

/-- A price for stores with rows. -/
theorem feed_price {p : CandleSeries F × CandleBuffer F} {init : List (Quote F)} {x : Quote F}
    {rinit : List (Row F)} {y : Row F} (h : Held p (init ++ [x]) (rinit ++ [y])) (price : ℚ) :
    ∃ p', feed asF32 nan (some p) (.price price) = some p' ∧
      Held p' (init ++ [priceQuote (asF32 price) x]) (rinit ++ [bufferRow (asF32 price) y]) := by
  obtain ⟨hseries, version, hbuffer⟩ := h
  obtain ⟨series, hs, hquotes⟩ := updateLastPrice_quotes asF32 hseries price
  have hb : ∃ version', p.2.updateLastPrice (asF32 price) =
      some (.ofRows (rinit ++ [bufferRow (asF32 price) y]) version') := by
    rw [hbuffer, bufferRow]
    by_cases hfinite : F32.isFinite (asF32 price) = true
    · rw [if_pos hfinite]
      exact ⟨_, CandleBuffer.updateLastPrice_ofRows rinit y version hfinite⟩
    · rw [if_neg hfinite]
      exact ⟨version, by simp [CandleBuffer.updateLastPrice, hfinite]⟩
  obtain ⟨version', hb⟩ := hb
  refine ⟨⟨series, .ofRows _ version'⟩, ?_, hquotes, version', rfl⟩
  simp only [feed, Option.bind_some, hs, Option.bind_eq_bind]
  exact (congrArg (Option.bind · _) hb)

omit [F32 F] in
/-- The same rows, and a last one among them. -/
theorem map_eq_concat {rows : List (Row F)} {init : List (Quote F)} {x : Quote F}
    (h : rows.map Row.quote = (init ++ [x]).map Quote.inMillis) :
    ∃ rinit y, rows = rinit ++ [y] ∧ rinit.map Row.quote = init.map Quote.inMillis ∧
      y.quote = x.inMillis := by
  rw [List.map_append] at h
  obtain ⟨rinit, rest, rfl, hinit, hrest⟩ := List.map_eq_append_iff.mp h
  obtain ⟨y, rfl, hy⟩ := List.map_eq_singleton_iff.mp hrest
  exact ⟨rinit, y, rfl, hinit, hy⟩

/-- Stores that agree go on agreeing over a bar exactly when it comes in order. -/
theorem agree_bar_iff {p : CandleSeries F × CandleBuffer F} {quotes : List (Quote F)}
    {rows : List (Row F)}
    (h : Held p quotes rows) (hsame : SameRows p.1 p.2) (candle : Candle)
    (session : Calendar.SessionKind) :
    Agree (feed asF32 nan (some p) (.bar candle session)) ↔
      UpdateInOrder asF32 (some p) (.bar candle session) := by
  have horder : UpdateInOrder asF32 (some p) (.bar candle session) ↔ p.1.Fits candle ∧
      ∀ ts ∈ quotes.getLast?.map Quote.ts,
        ts = candle.tsOpen ∨ ts / 1000000 < candle.tsOpen / 1000000 := by
    rw [← List.getLast?_map, ← h.series.timestamps]
    simp [UpdateInOrder]
  rw [horder]
  by_cases hfits : p.1.Fits candle
  swap
  · rw [feed_bar_of_not_fits asF32 nan hfits]
    exact iff_of_false (fun ⟨_, hq, _⟩ => nomatch hq) fun h => hfits h.1
  obtain ⟨p', hfeed, hheld⟩ := feed_bar asF32 nan h hfits session
  have hagree : Agree (feed asF32 nan (some p) (.bar candle session)) ↔ SameRows p'.1 p'.2 := by
    rw [hfeed]
    exact ⟨fun ⟨q, hq, hrows⟩ => Option.some.inj hq ▸ hrows, fun hrows => ⟨p', rfl, hrows⟩⟩
  have hquote := quote_barOf asF32 candle session
  have hold := (sameRows_iff h).mp hsame
  rw [hagree, sameRows_iff hheld]
  simp only [hfits, true_and]
  rcases List.eq_nil_or_concat' quotes with rfl | ⟨init, x, rfl⟩
  · obtain rfl : rows = [] := List.map_eq_nil_iff.mp hold
    refine iff_of_true ?_ (by simp)
    simp [upsert_nil, put, hquote]
  obtain ⟨rinit, y, rfl, hinit, hy⟩ := map_eq_concat hold
  have hyts : y.ts = x.ts / 1000000 := congrArg Quote.ts hy
  have hbar : (barOf asF32 candle session).ts = candle.tsOpen / 1000000 := rfl
  have hlast : (init ++ [x]).getLast?.map Quote.ts = some x.ts := by simp
  have hrhs : (∀ ts ∈ (init ++ [x]).getLast?.map Quote.ts,
      ts = candle.tsOpen ∨ ts / 1000000 < candle.tsOpen / 1000000) ↔
        x.ts = candle.tsOpen ∨ y.ts < (barOf asF32 candle session).ts := by
    rw [hlast, hyts, hbar]
    simp
  rw [hrhs]
  by_cases heq : x.ts = candle.tsOpen
  · have hts : y.ts = (barOf asF32 candle session).ts := by rw [hyts, hbar, heq]
    rw [put_same Quote.ts init heq, upsert_same Row.ts rinit hts]
    refine iff_of_true ?_ (.inl heq)
    simp [hinit, hquote]
  rw [put_other Quote.ts init heq]
  rcases lt_trichotomy y.ts (barOf asF32 candle session).ts with hlt | hts | hgt
  · rw [upsert_later Row.ts rinit hlt]
    refine iff_of_true ?_ (.inr hlt)
    simp [hinit, hy, hquote]
  · rw [upsert_same Row.ts rinit hts]
    refine iff_of_false (fun hrows => ?_) (not_or.mpr ⟨heq, hts.not_lt⟩)
    -- The series has one row more.
    have hlen := congrArg List.length hrows
    have hinit := congrArg List.length hinit
    simp only [List.length_map, List.length_append, List.length_singleton] at hlen hinit
    omega
  · rw [upsert_earlier Row.ts rinit hgt]
    refine iff_of_false (fun hrows => ?_) (not_or.mpr ⟨heq, hgt.not_gt⟩)
    have hlen := congrArg List.length hrows
    have hinit := congrArg List.length hinit
    simp only [List.length_map, List.length_append, List.length_singleton] at hlen hinit
    omega

omit [F32 F] in
theorem agree_some_iff {p : CandleSeries F × CandleBuffer F} : Agree (some p) ↔ SameRows p.1 p.2 :=
  ⟨fun ⟨_, hq, hrows⟩ => Option.some.inj hq ▸ hrows, fun hrows => ⟨p, rfl, hrows⟩⟩

/-- Stores that agree go on agreeing over a price exactly when the buffer takes it, or the series
    need not. -/
theorem agree_price_iff {p : CandleSeries F × CandleBuffer F} {quotes : List (Quote F)}
    {rows : List (Row F)} (h : Held p quotes rows) (hsame : SameRows p.1 p.2) (price : ℚ) :
    Agree (feed asF32 nan (some p) (.price price)) ↔ UpdateInOrder asF32 (some p) (.price price) := by
  have hold := (sameRows_iff h).mp hsame
  rcases List.eq_nil_or_concat' quotes with rfl | ⟨init, x, rfl⟩
  · obtain rfl : rows = [] := List.map_eq_nil_iff.mp hold
    rw [feed_price_nil asF32 nan h]
    refine iff_of_true (agree_some_iff.mpr hsame) ?_
    simp [UpdateInOrder, h.series.highs, h.series.lows, h.series.closes]
  obtain ⟨rinit, y, rfl, hinit, hy⟩ := map_eq_concat hold
  obtain ⟨p', hfeed, hheld⟩ := feed_price asF32 nan h price
  have horder : UpdateInOrder asF32 (some p) (.price price) ↔ F32.isFinite (asF32 price) = true ∨
      raise (asF32 price) x.h = x.h ∧ lower (asF32 price) x.l = x.l ∧ asF32 price = x.c := by
    simp [UpdateInOrder, h.series.highs, h.series.lows, h.series.closes]
  have hrows : (rinit ++ [bufferRow (asF32 price) y]).map Row.quote =
      (init ++ [priceQuote (asF32 price) x]).map Quote.inMillis ↔
        (bufferRow (asF32 price) y).quote = (priceQuote (asF32 price) x).inMillis := by
    simp [hinit]
  rw [hfeed, agree_some_iff, sameRows_iff hheld, hrows, horder, bufferRow]
  have hfields := hy
  simp only [Row.quote, Quote.inMillis, Quote.mk.injEq] at hfields
  by_cases hfinite : F32.isFinite (asF32 price) = true
  · rw [if_pos hfinite]
    refine iff_of_true ?_ (.inl hfinite)
    simp [Row.quote, Quote.inMillis, CandleBuffer.priceRow, priceQuote, hfields]
  · rw [if_neg hfinite, hy]
    simp only [hfinite, Quote.inMillis, priceQuote, Quote.mk.injEq, true_and, false_or, and_true,
      Bool.false_eq_true]
    rw [eq_comm (a := x.h), eq_comm (a := x.l), eq_comm (a := x.c)]

theorem holdRows_feed {s : Option (CandleSeries F × CandleBuffer F)} (h : HoldRows s) (u : Update) :
    HoldRows (feed asF32 nan s u) := by
  rcases s with - | p
  · exact nofun
  obtain ⟨quotes, rows, hheld, hempty⟩ := h p rfl
  cases u with
  | bar candle session =>
    by_cases hfits : p.1.Fits candle
    · obtain ⟨p', hfeed, hheld'⟩ := feed_bar asF32 nan hheld hfits session
      have hquotes : put Quote.ts quotes (quoteOf asF32 candle) ≠ [] := by
        refine List.ne_nil_of_mem (List.mem_of_getLast? (getLast?_put quotes _))
      rw [hfeed]
      exact fun q hq => Option.some.inj hq ▸ ⟨_, _, hheld', iff_of_false hquotes (upsert_ne_nil rows _)⟩
    · rw [feed_bar_of_not_fits asF32 nan hfits]
      exact nofun
  | price price =>
    rcases List.eq_nil_or_concat' rows with rfl | ⟨rinit, y, rfl⟩
    · obtain rfl := hempty.mpr rfl
      rw [feed_price_nil asF32 nan hheld]
      exact fun q hq => Option.some.inj hq ▸ ⟨_, _, hheld, by simp⟩
    · rcases List.eq_nil_or_concat' quotes with rfl | ⟨init, x, rfl⟩
      · exact absurd (hempty.mp rfl) (by simp)
      obtain ⟨p', hfeed, hheld'⟩ := feed_price asF32 nan hheld price
      rw [hfeed]
      exact fun q hq => Option.some.inj hq ▸ ⟨_, _, hheld', by simp⟩

/-- Over any sequence of bars and prices both stores have the same rows exactly when every update
    comes in order. -/
theorem same_rows_iff (calendar : Calendar.CalendarId) (period : Calendar.BarPeriod) (symbol : Symbol)
    (updates : List Update) :
    AllStates (feed asF32 nan) Agree (some (CandleSeries.new calendar period symbol, .new)) updates ↔
      AllSteps (feed asF32 nan) (UpdateInOrder asF32)
        (some (CandleSeries.new calendar period symbol, .new)) updates := by
  have hheld : Held (CandleSeries.new calendar period symbol, (.new : CandleBuffer F)) [] [] :=
    ⟨quotes_new calendar period symbol, 0, rfl⟩
  refine allStates_iff_allSteps (feed asF32 nan) (I := HoldRows)
    (fun s u h => holdRows_feed asF32 nan h u) ?_
    (fun p hp => Option.some.inj hp ▸ ⟨_, _, hheld, by simp⟩) ⟨_, rfl, (sameRows_iff hheld).mpr rfl⟩
      updates
  rintro s u hholds ⟨p, hp, hsame⟩
  obtain rfl := hp
  obtain ⟨quotes, rows, hheld, -⟩ := hholds p rfl
  cases u with
  | bar candle session => exact agree_bar_iff asF32 nan hheld hsame candle session
  | price price => exact agree_price_iff asF32 nan hheld hsame price

end

/-- A minute of 1970 in the crypto calendar. -/
def minuteBar (i : ℕ) : Candle :=
  let opens := Instant.ofTimestamp (60 * i)
  let session := Calendar.Session.new Calendar.CryptoSpot.cryptoSpotId .regular 0 (Instant.ofDate 1)
  ⟨⟨"BTC", Calendar.CryptoSpot.cryptoSpotId⟩, Calendar.CryptoSpot.cryptoSpotId, .clock (.minutes 1),
    session,
    ⟨opens, opens + Instant.ofTimestamp 60, session⟩, 1, 1, 1, 1, 0, 0, none, .completed⟩

/-- Both stores without a candle. -/
def emptyStores : Option (CandleSeries ℚ × CandleBuffer ℚ) :=
  some (.new Calendar.CryptoSpot.cryptoSpotId (.clock (.minutes 1))
    ⟨"BTC", Calendar.CryptoSpot.cryptoSpotId⟩, .new)

/-- A bar that comes after a later one is put behind it by the series, and dropped by the buffer. -/
theorem earlier_bar_parts_stores :
    ∃ p, run (feed id 0) emptyStores [.bar (minuteBar 1) .regular, .bar (minuteBar 0) .regular] =
      some p ∧
      p.1.timestamps = [60000000000, 0] ∧ p.2.timestamps = [60000] ∧
        ¬Agree (run (feed id 0) emptyStores
          [.bar (minuteBar 1) .regular, .bar (minuteBar 0) .regular]) := by
  refine ⟨_, rfl, rfl, rfl, ?_⟩
  rintro ⟨p, hp, hsame⟩
  cases hp
  exact absurd hsame.timestamps (by decide)

end Midas.Candles
