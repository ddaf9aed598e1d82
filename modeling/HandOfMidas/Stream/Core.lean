import HandOfMidas.Bars.Series
import HandOfMidas.Core.Date
import HandOfMidas.Lib.Search

/-! Streams of candles (`lib.rs` of `midas-stream`): the ones from memory (`fixture.rs`) and from a
    channel (`channel.rs`). -/

namespace Midas.Stream

open Calendar Bars

/-- `TimeRange`: from `tsFrom` to `tsTo`, the end being out. -/
structure TimeRange where
  tsFrom : Instant
  tsTo : Instant
  le : tsFrom ≤ tsTo

namespace TimeRange

/-- `TimeRange::new`. -/
def new (tsFrom tsTo : Instant) : Option TimeRange :=
  if h : tsFrom ≤ tsTo then some ⟨tsFrom, tsTo, h⟩ else none

/-- `contains`. -/
def contains (r : TimeRange) (ts : Instant) : Bool := ts ≥ r.tsFrom && ts < r.tsTo

theorem contains_iff {r : TimeRange} {ts : Instant} :
    r.contains ts = true ↔ r.tsFrom ≤ ts ∧ ts < r.tsTo := by
  simp [contains]

theorem new_of_le {tsFrom tsTo : Instant} (h : tsFrom ≤ tsTo) :
    new tsFrom tsTo = some ⟨tsFrom, tsTo, h⟩ :=
  dif_pos h

end TimeRange

/-- What an `Upstream` text of a fixture names. -/
inductive FixtureFault where
  | calendar (i : ℕ) (got want : CalendarId)
  | period (i : ℕ) (got want : BarPeriod)
  | symbol (i : ℕ) (got want : Symbol)
  | notSorted (earlier later : Instant)

inductive StreamError where
  | closed
  | notSeekable
  | outOfRange (ts : Instant)
  | upstream (fault : FixtureFault)
  | coverageExceeded (calendar : CalendarId) (range : TimeRange)

structure BarStreamMeta where
  symbol : Symbol
  calendar : ExchangeCalendar
  period : BarPeriod

/-- The trait `BarStream`, with `meta` as `streamMeta`. `ahead` is what `next` has not handed out
    yet; a live stream is taken up to the candles that reach it. No stream here is moved by
    `snapshot`. -/
class BarStream (σ : Type*) where
  streamMeta : σ → BarStreamMeta
  next : σ → Option Candle × σ
  snapshot : σ → TimeRange → Except StreamError (List Candle)
  ahead : σ → List Candle
  next_fst : ∀ s, (next s).1 = (ahead s).head?
  ahead_next : ∀ s, ahead (next s).2 = (ahead s).tail

/-- The trait `SeekableBarStream`. -/
class SeekableBarStream (σ : Type*) extends BarStream σ where
  seek : σ → Instant → Except StreamError σ

namespace BarStream

variable {σ : Type*} [BarStream σ]

/-- What `n` calls of `next` hand out, or those up to the first one that has nothing. -/
def drain : ℕ → σ → List Candle
  | 0, _ => []
  | n + 1, s =>
    match next s with
    | (some c, s) => c :: drain n s
    | (none, _) => []

theorem next_nil {s : σ} (h : ahead s = []) : (next s).1 = none := by rw [next_fst, h, List.head?_nil]

theorem next_cons {s : σ} {c : Candle} {cs : List Candle} (h : ahead s = c :: cs) :
    ∃ s', next s = (some c, s') ∧ ahead s' = cs := by
  have hfst := next_fst s
  have hsnd := ahead_next s
  rw [h] at hfst hsnd
  exact ⟨(next s).2, Prod.ext hfst rfl, hsnd⟩

theorem drain_eq (n : ℕ) (s : σ) : drain n s = (ahead s).take n := by
  induction n generalizing s with
  | zero => simp [drain]
  | succ n ih =>
    cases h : ahead s with
    | nil =>
      have hnone := next_nil h
      rcases hnext : next s with ⟨c, s'⟩
      rw [hnext] at hnone
      subst hnone
      simp [drain, hnext]
    | cons c cs =>
      obtain ⟨s', hnext, hs'⟩ := next_cons h
      simp [drain, hnext, ih, hs']

theorem mem_of_mem_drain {n : ℕ} {s : σ} {c : Candle} (h : c ∈ drain n s) : c ∈ ahead s := by
  rw [drain_eq] at h
  exact List.mem_of_mem_take h

/-- All that is ahead is handed out sometime. -/
theorem exists_mem_drain {s : σ} {c : Candle} (h : c ∈ ahead s) : ∃ n, c ∈ drain n s := by
  refine ⟨(ahead s).length, ?_⟩
  rw [drain_eq, List.take_length]
  exact h

end BarStream

end Midas.Stream

/-! ### From memory and from a channel -/

namespace Midas.Stream

open Calendar Bars

/-- The range a coverage error names: from the first candle to the last one. -/
def faultRange (candles : List Candle) (c : Candle) : TimeRange :=
  let rangeFrom := (candles.head?.getD c).window.opens
  let rangeTo := (candles.getLast?.getD c).window.opens
  (TimeRange.new rangeFrom rangeTo).getD ⟨rangeFrom, rangeFrom, le_rfl⟩

/-- The checks of `new` on the candle at `i`. -/
def candleFault (m : BarStreamMeta) (candles : List Candle) (i : ℕ) (c : Candle) : Option StreamError :=
  if c.calendar ≠ m.calendar.id then some (.upstream (.calendar i c.calendar m.calendar.id))
  else if c.period ≠ m.period then some (.upstream (.period i c.period m.period))
  else if c.symbol ≠ m.symbol then some (.upstream (.symbol i c.symbol m.symbol))
  else
    let date := c.window.opens.dateNaive
    if date < m.calendar.covers.1 ∨ date ≥ m.calendar.covers.2 then
      some (.coverageExceeded m.calendar.id (faultRange candles c))
    else none

/-- The first candle that fails a check. -/
def firstFault (m : BarStreamMeta) (candles : List Candle) : Option StreamError :=
  candles.zipIdx.findSome? fun p => candleFault m candles p.2 p.1

/-- The sortedness check of `new`. -/
def orderFault : List Candle → Option StreamError
  | a :: b :: rest =>
    if b.window.opens < a.window.opens then some (.upstream (.notSorted a.window.opens b.window.opens))
    else orderFault (b :: rest)
  | _ => none

/-- A candle of the stream's calendar, period and symbol, on a date the calendar covers. -/
structure Belongs (m : BarStreamMeta) (c : Candle) : Prop where
  calendar : c.calendar = m.calendar.id
  period : c.period = m.period
  symbol : c.symbol = m.symbol
  covered : m.calendar.covers.1 ≤ c.tsOpen.dateNaive ∧ c.tsOpen.dateNaive < m.calendar.covers.2

theorem belongs_of_candleFault {m : BarStreamMeta} {candles : List Candle} {i : ℕ} {c : Candle}
    (h : candleFault m candles i c = none) : Belongs m c := by
  unfold candleFault at h
  split at h
  · cases h
  split at h
  · cases h
  split at h
  · cases h
  rename_i hcal hperiod hsym
  simp only [ite_eq_right_iff, reduceCtorEq, imp_false, not_or, not_lt, not_le] at h
  exact ⟨of_not_not hcal, of_not_not hperiod, of_not_not hsym, h⟩

theorem belongs_of_firstFault {m : BarStreamMeta} {candles : List Candle}
    (h : firstFault m candles = none) : ∀ c ∈ candles, Belongs m c := by
  intro c hc
  obtain ⟨i, hi⟩ := List.mem_iff_getElem?.mp hc
  exact belongs_of_candleFault
    (List.findSome?_eq_none_iff.mp h (c, i) (List.mem_zipIdx_iff_getElem?.mpr hi))

theorem sorted_of_orderFault : ∀ {candles : List Candle}, orderFault candles = none →
    candles.Pairwise fun a b => a.tsOpen ≤ b.tsOpen
  | [], _ => .nil
  | [a], _ => List.pairwise_singleton _ a
  | a :: b :: rest, h => by
    unfold orderFault at h
    split at h
    · cases h
    rename_i hle
    have ih := sorted_of_orderFault h
    refine List.pairwise_cons.mpr ⟨fun c hc => ?_, ih⟩
    rcases List.mem_cons.mp hc with rfl | hc
    · exact not_lt.mp hle
    · exact (not_lt.mp hle).trans ((List.pairwise_cons.mp ih).1 c hc)

/-- `FixtureBarStream`, with what `new` has checked. -/
structure FixtureBarStream where
  streamMeta : BarStreamMeta
  candles : List Candle
  cursor : ℕ
  belongs : ∀ c ∈ candles, Belongs streamMeta c
  sorted : candles.Pairwise fun a b => a.tsOpen ≤ b.tsOpen

namespace FixtureBarStream

/-- `FixtureBarStream::new`. -/
def new (m : BarStreamMeta) (candles : List Candle) : Except StreamError FixtureBarStream :=
  match hfirst : firstFault m candles with
  | some e => .error e
  | none =>
    match horder : orderFault candles with
    | some e => .error e
    | none => .ok ⟨m, candles, 0, belongs_of_firstFault hfirst, sorted_of_orderFault horder⟩

/-- `next`. -/
def next (s : FixtureBarStream) : Option Candle × FixtureBarStream :=
  match s.candles[s.cursor]? with
  | none => (none, s)
  | some c => (some c, { s with cursor := s.cursor + 1 })

/-- `snapshot`. -/
def snapshot (s : FixtureBarStream) (range : TimeRange) : Except StreamError (List Candle) :=
  .ok (s.candles.filter fun c => range.contains c.window.opens)

/-- `seek`. -/
def seek (s : FixtureBarStream) (ts : Instant) : Except StreamError FixtureBarStream :=
  .ok { s with cursor := Search.partitionPoint (fun c => c.window.opens < ts) s.candles }

theorem new_ok {m : BarStreamMeta} {candles : List Candle} {s : FixtureBarStream}
    (h : new m candles = .ok s) : s.streamMeta = m ∧ s.candles = candles ∧ s.cursor = 0 := by
  unfold new at h
  split at h
  · cases h
  split at h
  · cases h
  cases h
  exact ⟨rfl, rfl, rfl⟩

instance : SeekableBarStream FixtureBarStream where
  streamMeta := FixtureBarStream.streamMeta
  next := next
  snapshot := snapshot
  seek := seek
  ahead s := s.candles.drop s.cursor
  next_fst s := by
    rw [List.head?_drop, next]
    split <;> rename_i h <;> exact h.symm
  ahead_next s := by
    rw [List.tail_drop, next]
    split
    · rename_i h
      have hlen := List.getElem?_eq_none_iff.mp h
      rw [List.drop_eq_nil_of_le hlen, List.drop_eq_nil_of_le (by omega)]
    · rfl

end FixtureBarStream

/-- `ChannelBarStream`: `rx` is what its senders will have sent. -/
structure ChannelBarStream where
  streamMeta : BarStreamMeta
  rx : List Candle

namespace ChannelBarStream

def next (s : ChannelBarStream) : Option Candle × ChannelBarStream :=
  match s.rx with
  | [] => (none, s)
  | c :: rx => (some c, { s with rx })

def snapshot (_ : ChannelBarStream) (_ : TimeRange) : Except StreamError (List Candle) :=
  .error .notSeekable

instance : BarStream ChannelBarStream where
  streamMeta := ChannelBarStream.streamMeta
  next := next
  snapshot := snapshot
  ahead := ChannelBarStream.rx
  next_fst s := by
    unfold next
    split <;> rename_i h <;> simp [h]
  ahead_next s := by
    unfold next
    split <;> rename_i h <;> simp [h]

end ChannelBarStream

end Midas.Stream
