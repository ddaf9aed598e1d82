import HandOfMidas.Stream.HistoryThenLive
import HandOfMidas.Calendar.CryptoSpot

/-! History and live candles as one series: what a store keeps of all that is handed out, and what a
    snapshot has of both. -/

namespace Midas.Stream

open Calendar Bars BarStream

/-! ### Rows -/

/-- In strict order, the last candle of each open. -/
structure RowsOf (yielded rows : List Candle) : Prop where
  increasing : rows.Pairwise fun a b => a.tsOpen < b.tsOpen
  opens : ∀ t, t ∈ rows.map Candle.tsOpen ↔ t ∈ yielded.map Candle.tsOpen
  last : ∀ r ∈ rows, (yielded.filter fun c => c.tsOpen = r.tsOpen).getLast? = some r

open Overwrite in
theorem rowsOf_putAll {yielded : List Candle} (h : yielded.Pairwise fun a b => a.tsOpen ≤ b.tsOpen) :
    RowsOf yielded (putAll Candle.tsOpen [] yielded) where
  increasing := pairwise_putAll h
  opens := mem_map_putAll h
  last r hr := (mem_putAll_iff h r).mp hr

/-- What a fixture and the live candles after it hand out is in order. -/
theorem HistoryThenLive.sorted_ahead {L : Type} [BarStream L] (s : HistoryThenLive FixtureBarStream L) :
    s.ahead.Pairwise fun a b => a.tsOpen ≤ b.tsOpen := by
  have hrest : (s.history.elim [] BarStream.ahead).Pairwise fun a b => a.tsOpen ≤ b.tsOpen := by
    cases s.history with
    | none => exact .nil
    | some h => exact h.sorted.sublist (List.drop_sublist h.cursor h.candles)
  obtain ⟨hsorted, hle⟩ := sorted_onward
    (seamAfter s.handoffTs (s.history.elim [] BarStream.ahead)) (BarStream.ahead s.live)
  refine List.pairwise_append.mpr ⟨hrest, hsorted, fun a ha b hb => ?_⟩
  obtain ⟨t, ht, hat⟩ := le_seamAfter s.handoffTs hrest a ha
  exact hat.trans (hle b hb t ht)

open CandleSeries in
/-- A series takes what is handed out, one row for each open, if and only if every candle belongs in
    it. -/
theorem stores_iff {F L : Type} [BarStream L] (asF32 : ℚ → F) (nan : F) {m : BarStreamMeta}
    {candles : List Candle} {hist : FixtureBarStream}
    (hhist : FixtureBarStream.new m candles = .ok hist)
    (live : L) (n : ℕ) :
    (∃ s rows, (CandleSeries.new m.calendar.id m.period m.symbol).applyAll asF32 nan
          (drain n (HistoryThenLive.new m hist live)) = some s ∧
        s.Rows asF32 nan rows ∧ RowsOf (drain n (HistoryThenLive.new m hist live)) rows ∧
        (candles.length ≤ n → ∀ c ∈ candles, c.tsOpen ∈ s.timestamps)) ↔
      ∀ c ∈ drain n (HistoryThenLive.new m hist live),
        (CandleSeries.new m.calendar.id m.period m.symbol : CandleSeries F).Fits c := by
  have hnew : (CandleSeries.new m.calendar.id m.period m.symbol).Rows asF32 nan [] := rows_new asF32 nan
  obtain ⟨-, hcandles, hcursor⟩ := FixtureBarStream.new_ok hhist
  have hahead : BarStream.ahead hist = candles := by
    change hist.candles.drop hist.cursor = candles
    rw [hcandles, hcursor, List.drop_zero]
  constructor
  · rintro ⟨s, rows, hs, -⟩
    exact (applyAll_iff asF32 nan hnew rfl _).mp ⟨s, hs⟩
  · intro hfits
    obtain ⟨s, hs, hrows⟩ := applyAll_rows asF32 nan hnew rfl hfits
    have hsorted : (drain n (HistoryThenLive.new m hist live)).Pairwise fun a b =>
        a.tsOpen ≤ b.tsOpen := by
      rw [drain_eq]
      exact (HistoryThenLive.sorted_ahead _).sublist (List.take_sublist n _)
    have hof := rowsOf_putAll hsorted
    refine ⟨s, _, hs, hrows, hof, fun hn c hc => ?_⟩
    rw [hrows.timestamps, hof.opens, drain_eq]
    have hmem : c ∈ (candles ++ onward (seamAfter none candles) (BarStream.ahead live)).take n := by
      rw [List.take_append, List.take_of_length_le hn]
      exact List.mem_append_left _ hc
    refine List.mem_map_of_mem ?_
    change c ∈ (HistoryThenLive.new m hist live).ahead.take n
    simpa [HistoryThenLive.ahead, HistoryThenLive.new, hahead] using hmem

/-! ### Snapshots -/

theorem strict_iff_nodup {cs : List Candle} (h : cs.Pairwise fun a b => a.tsOpen ≤ b.tsOpen) :
    (cs.Pairwise fun a b => a.tsOpen < b.tsOpen) ↔ (cs.map Candle.tsOpen).Nodup := by
  rw [List.Nodup, List.pairwise_map]
  constructor
  · exact fun hlt => hlt.imp fun h => h.ne
  · exact fun hne => (h.and hne).imp fun ⟨hle, hne⟩ => lt_of_le_of_ne hle hne

/-- Live candles after history, where a candle at the seam takes the place of the last one of
    history. -/
theorem strict_joined_iff {seam : Instant} {bars live : List Candle}
    (hbars : bars.Pairwise fun a b => a.tsOpen ≤ b.tsOpen)
    (hlive : live.Pairwise fun a b => a.tsOpen ≤ b.tsOpen) (hseam : ∀ l ∈ live, seam ≤ l.tsOpen) :
    ((if live.head?.any (fun c => c.tsOpen = seam) && bars.getLast?.any fun c => c.tsOpen = seam then
        bars.dropLast else bars) ++ live).Pairwise (fun a b => a.tsOpen < b.tsOpen) ↔
      bars.Pairwise (fun a b => a.tsOpen < b.tsOpen) ∧ live.Pairwise (fun a b => a.tsOpen < b.tsOpen) ∧
        ∀ b ∈ bars, ∀ l ∈ live, b.tsOpen < l.tsOpen ∨ b.tsOpen = seam ∧ l.tsOpen = seam := by
  split
  · rename_i hif
    obtain ⟨hhead, hlast⟩ := (Bool.and_eq_true _ _).mp hif
    obtain ⟨l, hl, hlseam⟩ := (Option.any_eq_true _ _).mp hhead
    obtain ⟨b, hb, hbseam⟩ := (Option.any_eq_true _ _).mp hlast
    obtain ⟨init, rfl⟩ := List.getLast?_eq_some_iff.mp hb
    obtain ⟨rest, rfl⟩ := List.head?_eq_some_iff.mp hl
    simp only [decide_eq_true_eq] at hlseam hbseam
    rw [List.dropLast_concat, List.pairwise_append, List.pairwise_append]
    have hnext := fun x hx => (List.pairwise_cons.mp hlive).1 x hx
    constructor
    · rintro ⟨hinit, hrest, hlt⟩
      refine ⟨⟨hinit, List.pairwise_singleton _ b, fun x hx y hy => ?_⟩, hrest, fun x hx y hy => ?_⟩
      · rw [List.mem_singleton.mp hy, hbseam, ← hlseam]
        exact hlt x hx l List.mem_cons_self
      · rcases List.mem_append.mp hx with hx | hx
        · exact Or.inl (hlt x hx y hy)
        · rw [List.mem_singleton.mp hx, hbseam]
          exact (hseam y hy).lt_or_eq.imp id fun heq => ⟨rfl, heq.symm⟩
    · rintro ⟨⟨hinit, -, hlt⟩, hrest, -⟩
      refine ⟨hinit, hrest, fun x hx y hy => ?_⟩
      have hxb := hlt x hx b (List.mem_singleton.mpr rfl)
      exact hxb.trans_le (hbseam ▸ hseam y hy)
  · rename_i hif
    rw [List.pairwise_append]
    refine and_congr_right fun _ => and_congr_right fun _ =>
      ⟨fun h x hx y hy => Or.inl (h x hx y hy), ?_⟩
    intro h x hx y hy
    rcases h x hx y hy with hlt | ⟨hxseam, hyseam⟩
    · exact hlt
    -- otherwise history goes on after the seam
    · exfalso
      obtain ⟨l, rest, rfl⟩ := List.exists_cons_of_ne_nil (List.ne_nil_of_mem hy)
      have hl : l.tsOpen = seam := by
        refine le_antisymm ?_ (hseam l List.mem_cons_self)
        rcases List.mem_cons.mp hy with rfl | hy
        · exact hyseam.le
        · exact hyseam ▸ (List.pairwise_cons.mp hlive).1 y hy
      rcases List.eq_nil_or_concat' bars with rfl | ⟨init, b, rfl⟩
      · cases hx
      have hb : b.tsOpen ≠ seam := fun heq => hif (by simp [hl, heq])
      have hle : x.tsOpen ≤ b.tsOpen := by
        rcases List.mem_append.mp hx with hx | hx
        · exact (List.pairwise_append.mp hbars).2.2 x hx b (List.mem_singleton.mpr rfl)
        · rw [List.mem_singleton.mp hx]
      rcases h b (by simp) l List.mem_cons_self with hlt | ⟨heq, -⟩
      · exact absurd (hxseam ▸ hle) (not_le.mpr (hl ▸ hlt))
      · exact hb heq

/-- The candles that open in the range. -/
def FixtureBarStream.within (s : FixtureBarStream) (range : TimeRange) : List Candle :=
  s.candles.filter fun c => range.contains c.tsOpen

/-- The candles that open from the seam on, before the end of a range. -/
def FixtureBarStream.beyond (s : FixtureBarStream) (seam tsTo : Instant) : List Candle :=
  s.candles.filter fun c => seam ≤ c.tsOpen && c.tsOpen < tsTo

theorem FixtureBarStream.sorted_within (s : FixtureBarStream) (range : TimeRange) :
    (s.within range).Pairwise fun a b => a.tsOpen ≤ b.tsOpen := s.sorted.filter _

theorem FixtureBarStream.sorted_beyond (s : FixtureBarStream) (seam tsTo : Instant) :
    (s.beyond seam tsTo).Pairwise fun a b => a.tsOpen ≤ b.tsOpen := s.sorted.filter _

theorem FixtureBarStream.mem_beyond {s : FixtureBarStream} {seam tsTo : Instant} {c : Candle}
    (h : c ∈ s.beyond seam tsTo) : seam ≤ c.tsOpen ∧ c.tsOpen < tsTo := by
  simpa using (List.mem_filter.mp h).2

def DistinctOpens (cs : List Candle) : Prop := (cs.map Candle.tsOpen).Nodup

/-- A live candle opens in the range and after what history has there. Only at the seam may both
    legs have one. -/
def Follows (seam tsFrom : Instant) (bars live : List Candle) : Prop :=
  ∀ l ∈ live, tsFrom ≤ l.tsOpen ∧ ∀ b ∈ bars, b.tsOpen < l.tsOpen ∨ b.tsOpen = seam ∧ l.tsOpen = seam

/-- What a snapshot asks of the two legs. -/
def Joins (s : HistoryThenLive FixtureBarStream FixtureBarStream) (range : TimeRange) : Prop :=
  match s.history, s.handoffTs with
  | none, _ => DistinctOpens (s.live.within range)
  | some h, none => DistinctOpens (h.within range)
  | some h, some seam =>
    DistinctOpens (h.within range) ∧
      (seam < range.tsTo → DistinctOpens (s.live.beyond seam range.tsTo) ∧
        Follows seam range.tsFrom (h.within range) (s.live.beyond seam range.tsTo))

/-- Strictly increasing opens inside the range. -/
structure CleanIn (range : TimeRange) (bars : List Candle) : Prop where
  increasing : bars.Pairwise fun a b => a.tsOpen < b.tsOpen
  inside : ∀ c ∈ bars, range.contains c.tsOpen = true

theorem cleanIn_within_iff (s : FixtureBarStream) (range : TimeRange) :
    CleanIn range (s.within range) ↔ DistinctOpens (s.within range) := by
  rw [DistinctOpens, ← strict_iff_nodup (s.sorted_within range)]
  exact ⟨fun h => h.increasing, fun h => ⟨h, fun c hc => (List.mem_filter.mp hc).2⟩⟩

/-- A snapshot that has to ask both legs. -/
theorem snapshot_both {s : HistoryThenLive FixtureBarStream FixtureBarStream} {h : FixtureBarStream}
    {seam : Instant} {range : TimeRange} (hh : s.history = some h) (hseam : s.handoffTs = some seam)
    (hlt : seam < range.tsTo) :
    s.snapshot range = .ok ((if (s.live.beyond seam range.tsTo).head?.any (fun c => c.tsOpen = seam) &&
      (h.within range).getLast?.any fun c => c.tsOpen = seam then (h.within range).dropLast
      else h.within range) ++ s.live.beyond seam range.tsTo) := by
  have hfwd : (s.live.candles.filter fun c =>
    (⟨seam, range.tsTo, hlt.le⟩ : TimeRange).contains c.window.opens).filter
      (fun c => decide (c.window.opens ≥ seam)) = s.live.beyond seam range.tsTo := by
    rw [List.filter_filter, FixtureBarStream.beyond]
    refine List.filter_congr fun c _ => ?_
    rw [Bool.eq_iff_iff]
    simp only [Bool.and_eq_true, TimeRange.contains_iff, decide_eq_true_eq]
    exact ⟨fun h => h.2, fun h => ⟨h.1, h⟩⟩
  unfold HistoryThenLive.snapshot
  simp only [hh, hseam, not_le.mpr hlt, if_false, TimeRange.new_of_le hlt.le, Option.getD_some]
  change Except.ok (_ ++ (s.live.candles.filter _).filter _) = _
  rw [hfwd]
  rfl

/-- A snapshot of two fixtures is clean if and only if the legs join. -/
theorem clean_snapshot_iff (s : HistoryThenLive FixtureBarStream FixtureBarStream) (range : TimeRange) :
    (∃ bars, s.snapshot range = .ok bars ∧ CleanIn range bars) ↔ Joins s range := by
  have hone : ∀ {f : FixtureBarStream}, s.snapshot range = .ok (f.within range) →
      ((∃ bars, s.snapshot range = .ok bars ∧ CleanIn range bars) ↔
        DistinctOpens (f.within range)) := by
    intro f hf
    rw [← cleanIn_within_iff, hf]
    exact ⟨fun ⟨bars, hbars, hclean⟩ => Except.ok.inj hbars ▸ hclean, fun hclean => ⟨_, rfl, hclean⟩⟩
  unfold Joins
  cases hh : s.history with
  | none =>
    have hsnap : s.snapshot range = .ok (s.live.within range) := by
      unfold HistoryThenLive.snapshot
      rw [hh]
      rfl
    simpa only [hh] using hone hsnap
  | some h =>
    cases hseam : s.handoffTs with
    | none =>
      have hsnap : s.snapshot range = .ok (h.within range) := by
        unfold HistoryThenLive.snapshot
        rw [hh, hseam]
        rfl
      simpa only [hh, hseam] using hone hsnap
    | some seam =>
      simp only
      by_cases hlt : seam < range.tsTo
      · have hjoined := strict_joined_iff (h.sorted_within range) (s.live.sorted_beyond seam range.tsTo)
          fun l hl => (FixtureBarStream.mem_beyond hl).1
        rw [strict_iff_nodup (h.sorted_within range),
          strict_iff_nodup (s.live.sorted_beyond seam range.tsTo)] at hjoined
        rw [snapshot_both hh hseam hlt]
        constructor
        · rintro ⟨bars, hbars, hclean⟩
          obtain rfl := Except.ok.inj hbars
          obtain ⟨hdistinct, hdistinct', hfollows⟩ := hjoined.mp hclean.increasing
          refine ⟨hdistinct, fun _ => ⟨hdistinct', fun l hl => ⟨?_, fun b hb => hfollows b hb l hl⟩⟩⟩
          exact (TimeRange.contains_iff.mp (hclean.inside l (List.mem_append_right _ hl))).1
        · rintro ⟨hdistinct, hlive⟩
          obtain ⟨hdistinct', hfollows⟩ := hlive hlt
          refine ⟨_, rfl, hjoined.mpr ⟨hdistinct, hdistinct',
            fun b hb l hl => (hfollows l hl).2 b hb⟩, ?_⟩
          intro c hc
          rcases List.mem_append.mp hc with hc | hc
          · have hmem : c ∈ h.within range := by
              split at hc
              · exact List.dropLast_subset _ hc
              · exact hc
            exact (List.mem_filter.mp hmem).2
          · exact TimeRange.contains_iff.mpr ⟨(hfollows c hc).1, (FixtureBarStream.mem_beyond hc).2⟩
      · have hsnap : s.snapshot range = .ok (h.within range) := by
          unfold HistoryThenLive.snapshot
          simp only [hh, hseam, if_pos (not_lt.mp hlt)]
          rfl
        rw [hone hsnap]
        simp [hlt]

/-- All that is handed out makes one series as long as the candles belong in it, and a snapshot of both
    legs is one as long as the legs join. -/
theorem one_series_iff {F L : Type} [BarStream L] (asF32 : ℚ → F) (nan : F) {m : BarStreamMeta}
    {candles : List Candle} {hist : FixtureBarStream}
    (hhist : FixtureBarStream.new m candles = .ok hist)
    (live : L) (n : ℕ) (s : HistoryThenLive FixtureBarStream FixtureBarStream) (range : TimeRange) :
    ((∃ series rows, (CandleSeries.new m.calendar.id m.period m.symbol).applyAll asF32 nan
            (drain n (HistoryThenLive.new m hist live)) = some series ∧
          series.Rows asF32 nan rows ∧ RowsOf (drain n (HistoryThenLive.new m hist live)) rows ∧
          (candles.length ≤ n → ∀ c ∈ candles, c.tsOpen ∈ series.timestamps)) ↔
        ∀ c ∈ drain n (HistoryThenLive.new m hist live),
          (CandleSeries.new m.calendar.id m.period m.symbol : CandleSeries F).Fits c) ∧
      ((∃ bars, s.snapshot range = .ok bars ∧ CleanIn range bars) ↔ Joins s range) :=
  ⟨stores_iff asF32 nan hhist live n, clean_snapshot_iff s range⟩

/-! ### A snapshot in the middle of history -/

/-- A minute of 1970, of prices that do not matter. -/
def minuteOf (i : ℕ) : Candle :=
  let opens := Instant.ofTimestamp (60 * i)
  let session := Session.new CryptoSpot.cryptoSpotId .regular 0 (Instant.ofDate 1)
  ⟨⟨"BTC", CryptoSpot.cryptoSpotId⟩, CryptoSpot.cryptoSpotId, .clock (.minutes 1), session,
    ⟨opens, opens + Instant.ofTimestamp 60, session⟩, 1, 1, 1, 1, 0, 0, none, .completed⟩

def btcMinutes : BarStreamMeta :=
  ⟨⟨"BTC", CryptoSpot.cryptoSpotId⟩, CryptoSpot.cryptoSpot, .clock (.minutes 1)⟩

def threeMinutes : FixtureBarStream where
  streamMeta := btcMinutes
  candles := [minuteOf 0, minuteOf 1, minuteOf 2]
  cursor := 0
  belongs := belongs_of_firstFault rfl
  sorted := sorted_of_orderFault rfl

def secondMinute : FixtureBarStream where
  streamMeta := btcMinutes
  candles := [minuteOf 1]
  cursor := 0
  belongs := belongs_of_firstFault rfl
  sorted := sorted_of_orderFault rfl

def firstThreeMinutes : TimeRange := ⟨0, Instant.ofTimestamp 180, by decide⟩

theorem one_series_three_minutes :
    (∃ (series : CandleSeries ℚ) (rows : List Candle),
      (CandleSeries.new btcMinutes.calendar.id btcMinutes.period btcMinutes.symbol).applyAll id 0
          (drain 4 (HistoryThenLive.new btcMinutes threeMinutes secondMinute)) = some series ∧
        series.Rows id 0 rows ∧
        RowsOf (drain 4 (HistoryThenLive.new btcMinutes threeMinutes secondMinute)) rows ∧
        ([minuteOf 0, minuteOf 1, minuteOf 2].length ≤ 4 →
          ∀ c ∈ [minuteOf 0, minuteOf 1, minuteOf 2], c.tsOpen ∈ series.timestamps)) ∧
      ∃ bars, (HistoryThenLive.new btcMinutes threeMinutes secondMinute).snapshot firstThreeMinutes =
        .ok bars ∧ CleanIn firstThreeMinutes bars := by
  have hnew : FixtureBarStream.new btcMinutes [minuteOf 0, minuteOf 1, minuteOf 2] =
    .ok threeMinutes := rfl
  obtain ⟨hstores, hsnapshot⟩ := one_series_iff id (0 : ℚ) hnew secondMinute 4
    (HistoryThenLive.new btcMinutes threeMinutes secondMinute) firstThreeMinutes
  refine ⟨hstores.mpr ?_, hsnapshot.mpr ?_⟩
  · -- the live candle is older than the seam
    have hdrain : drain 4 (HistoryThenLive.new btcMinutes threeMinutes secondMinute) =
        [minuteOf 0, minuteOf 1, minuteOf 2] := rfl
    rw [hdrain]
    intro c hc
    simp only [List.mem_cons, List.not_mem_nil, or_false] at hc
    rcases hc with rfl | rfl | rfl <;> exact ⟨rfl, rfl⟩
  · change (([minuteOf 0, minuteOf 1, minuteOf 2].map Candle.tsOpen).Nodup)
    decide

/-- One candle of history is read, and the live leg has the second minute too: the snapshot has all of
    history, and the second minute after it once more. -/
theorem snapshot_repeats :
    FixtureBarStream.new btcMinutes [minuteOf 0, minuteOf 1, minuteOf 2] = .ok threeMinutes ∧
      FixtureBarStream.new btcMinutes [minuteOf 1] = .ok secondMinute ∧
      (HistoryThenLive.new btcMinutes threeMinutes secondMinute).next.2.snapshot firstThreeMinutes =
        .ok [minuteOf 0, minuteOf 1, minuteOf 2, minuteOf 1] ∧
      ¬ ∃ bars, (HistoryThenLive.new btcMinutes threeMinutes secondMinute).next.2.snapshot
        firstThreeMinutes = .ok bars ∧ CleanIn firstThreeMinutes bars := by
  refine ⟨rfl, rfl, rfl, ?_⟩
  rintro ⟨bars, hbars, hclean⟩
  obtain rfl : [minuteOf 0, minuteOf 1, minuteOf 2, minuteOf 1] = bars := Except.ok.inj hbars
  exact absurd hclean.increasing (by decide)

end Midas.Stream
