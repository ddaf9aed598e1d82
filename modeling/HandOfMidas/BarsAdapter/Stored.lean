import HandOfMidas.BarsAdapter.Feeds

/-! The series that stores what a stream hands out, against the ticks that were accepted. -/

namespace Midas.BarsAdapter

open Calendar Bars Overwrite

/-! ### Sums over the segments -/

section Segments

variable {config : AggregatorConfig} {segments : List (List Tick)} {candles : List Candle}

theorem CandleOf.ne_nil {ticks : List Tick} {c : Candle} (h : CandleOf config ticks c) :
    ticks ≠ [] := by
  rintro rfl
  exact absurd h.o (by simp [tradesOf])

theorem CandleOf.tradeCount_pos {ticks : List Tick} {c : Candle} (h : CandleOf config ticks c) :
    0 < c.tradeCount := by
  have hpos := List.length_pos_of_ne_nil h.ne_nil
  rw [h.tradeCount, u32Max]
  omega

/-- Every segment has a candle and every candle a segment. -/
theorem partners (h : List.Forall₂ (CandleOf config) segments candles) :
    (∀ seg ∈ segments, ∃ c ∈ candles, CandleOf config seg c) ∧
      ∀ c ∈ candles, ∃ seg ∈ segments, CandleOf config seg c := by
  induction h with
  | nil => simp
  | @cons seg c segments candles hof _ ih =>
    obtain ⟨ihseg, ihc⟩ := ih
    constructor
    · intro seg' hseg'
      rcases List.mem_cons.mp hseg' with rfl | hseg'
      · exact ⟨c, List.mem_cons_self, hof⟩
      · obtain ⟨c', hc', hof'⟩ := ihseg seg' hseg'
        exact ⟨c', List.mem_cons_of_mem _ hc', hof'⟩
    · intro c' hc'
      rcases List.mem_cons.mp hc' with rfl | hc'
      · exact ⟨seg, List.mem_cons_self, hof⟩
      · obtain ⟨seg', hseg', hof'⟩ := ihc c' hc'
        exact ⟨seg', List.mem_cons_of_mem _ hseg', hof'⟩

/-- The candles count the ticks, unless a segment is too long for its count. -/
theorem sum_tradeCount (h : List.Forall₂ (CandleOf config) segments candles) :
    (candles.map Candle.tradeCount).sum ≤ segments.flatten.length ∧
      ((candles.map Candle.tradeCount).sum = segments.flatten.length ↔
        ∀ seg ∈ segments, seg.length ≤ u32Max) := by
  induction h with
  | nil => simp
  | @cons seg c segments candles hof _ ih =>
    obtain ⟨ihle, iheq⟩ := ih
    have hcount := hof.tradeCount
    simp only [List.map_cons, List.sum_cons, List.flatten_cons, List.length_append,
      List.forall_mem_cons]
    refine ⟨by omega, ?_⟩
    rw [← iheq]
    omega

theorem sizes_append (trades trades' : List (ℚ × ℕ)) :
    sizes (trades ++ trades') = sizes trades + sizes trades' := by
  simp [sizes]

/-- Volumes that fit their column are the sizes of the ticks. -/
theorem sum_volume (h : List.Forall₂ (CandleOf config) segments candles)
    (hvol : ∀ c ∈ candles, c.volume < 2 ^ 32) :
    (candles.map fun c => min c.volume Bars.u32Max).sum = sizes (tradesOf segments.flatten) := by
  induction h with
  | nil => rfl
  | @cons seg c segments candles hof _ ih =>
    have ih := ih fun c hc => hvol c (List.mem_cons_of_mem _ hc)
    have hc := hvol c List.mem_cons_self
    have hsizes := hof.volume
    simp only [u64Max] at hsizes
    have hcol : min c.volume Bars.u32Max = sizes (tradesOf seg) := by
      rw [Bars.u32Max]
      omega
    rw [List.map_cons, List.sum_cons, ih, hcol, List.flatten_cons, tradesOf, tradesOf, tradesOf,
      List.filterMap_append, sizes_append]

/-- Every candle has a tick, and every tick a candle. -/
theorem windows_of_segments (h : List.Forall₂ (CandleOf config) segments candles) :
    (∀ c ∈ candles, ∃ t ∈ segments.flatten,
        config.calendar.barWindow t.ts config.period = .ok c.window) ∧
      ∀ t ∈ segments.flatten, ∃ c ∈ candles,
        config.calendar.barWindow t.ts config.period = .ok c.window := by
  obtain ⟨hsegs, hcandles⟩ := partners h
  constructor
  · intro c hc
    obtain ⟨seg, hseg, hof⟩ := hcandles c hc
    obtain ⟨t, ht⟩ := List.exists_mem_of_ne_nil _ hof.ne_nil
    exact ⟨t, List.mem_flatten_of_mem hseg ht, hof.mapped t ht⟩
  · intro t ht
    obtain ⟨seg, hseg, ht⟩ := List.mem_flatten.mp ht
    obtain ⟨c, hc, hof⟩ := hsegs seg hseg
    exact ⟨c, hc, hof.mapped t ht⟩

/-- The tick's window opens then. -/
def opensAt (config : AggregatorConfig) (opens : Instant) (t : Tick) : Bool :=
  match config.calendar.barWindow t.ts config.period with
  | .ok w => w.opens = opens
  | .error _ => false

theorem CandleOf.filter_opensAt {ticks : List Tick} {c : Candle} (h : CandleOf config ticks c)
    (opens : Instant) :
    ticks.filter (opensAt config opens) = if c.tsOpen = opens then ticks else [] := by
  have hall : ∀ t ∈ ticks, opensAt config opens t = decide (c.tsOpen = opens) := by
    intro t ht
    rw [opensAt, h.mapped t ht]
    rfl
  split
  · rename_i heq
    exact List.filter_eq_self.mpr fun t ht => by simpa [heq] using hall t ht
  · rename_i hne
    exact List.filter_eq_nil_iff.mpr fun t ht => by simp [hall t ht, hne]

/-- If no two candles open at one time, the ticks of an opening are those of one segment. -/
theorem length_filter_opensAt (h : List.Forall₂ (CandleOf config) segments candles)
    (hlt : candles.Pairwise fun a b => a.tsOpen < b.tsOpen)
    (hlen : ∀ seg ∈ segments, seg.length ≤ u32Max) (opens : Instant) :
    (segments.flatten.filter (opensAt config opens)).length ≤ u32Max := by
  induction h with
  | nil => simp
  | @cons seg c segments candles hof hrest ih =>
    obtain ⟨hlater, hlt⟩ := List.pairwise_cons.mp hlt
    obtain ⟨hseg, hlen⟩ := List.forall_mem_cons.mp hlen
    rw [List.flatten_cons, List.filter_append, hof.filter_opensAt, List.length_append]
    split
    · rename_i hopens
      have hnone : segments.flatten.filter (opensAt config opens) = [] := by
        refine List.filter_eq_nil_iff.mpr fun t ht hat => ?_
        obtain ⟨c', hc', hw⟩ := (windows_of_segments hrest).2 t ht
        simp only [opensAt, hw, decide_eq_true_eq] at hat
        exact (hlater c' hc').ne (hopens.trans hat.symm)
      rw [hnone, List.length_nil, add_zero]
      exact hseg
    · rw [List.length_nil, zero_add]
      exact ih hlt hlen

end Segments

/-! ### The condition -/

/-- No window holds ticks of two sessions, or more of them than its count can say. -/
structure OneSessionEach (config : AggregatorConfig) (accepted : List Tick) : Prop where
  session : ∀ t ∈ accepted, ∀ t' ∈ accepted, ∀ w w',
    config.calendar.barWindow t.ts config.period = .ok w →
      config.calendar.barWindow t'.ts config.period = .ok w' → w.opens = w'.opens →
        w.session = w'.session
  count : ∀ opens, (accepted.filter (opensAt config opens)).length ≤ u32Max

section

variable {config : AggregatorConfig} {segments : List (List Tick)} {candles : List Candle}

theorem eq_of_tsOpen (hlt : candles.Pairwise fun a b => a.tsOpen < b.tsOpen) {c c' : Candle}
    (hc : c ∈ candles) (hc' : c' ∈ candles) (hopen : c.tsOpen = c'.tsOpen) : c = c' := by
  have hne : candles.Pairwise fun a b => a.tsOpen ≠ b.tsOpen := hlt.imp fun h => h.ne
  have hsymm : Std.Symm fun a b : Candle => a.tsOpen ≠ b.tsOpen := ⟨fun _ _ h => h.symm⟩
  by_contra hdiff
  exact hne.forall hc hc' hdiff hopen

/-- The candles all open at their own time, with counts that hold, just if the ticks meet the
    condition. -/
theorem oneSessionEach_iff (h : List.Forall₂ (CandleOf config) segments candles)
    (hbefore : candles.Pairwise fun a b => a.window.Before b.window) :
    OneSessionEach config segments.flatten ↔
      (candles.Pairwise fun a b => a.tsOpen < b.tsOpen) ∧ ∀ seg ∈ segments, seg.length ≤ u32Max := by
  obtain ⟨hticks, hcandles⟩ := windows_of_segments h
  constructor
  · rintro ⟨hsession, hcount⟩
    constructor
    · refine hbefore.imp_of_mem fun {a b} ha hb hab => ?_
      rcases hab with hlt | ⟨hopens, hlt⟩
      · exact hlt
      · obtain ⟨t, ht, hw⟩ := hticks a ha
        obtain ⟨t', ht', hw'⟩ := hticks b hb
        rw [hsession t ht t' ht' _ _ hw hw' hopens] at hlt
        exact absurd hlt (lt_irrefl _)
    · intro seg hseg
      obtain ⟨c, -, hof⟩ := (partners h).1 seg hseg
      have hfilter := hof.filter_opensAt c.tsOpen
      rw [if_pos rfl] at hfilter
      have hle := ((List.sublist_flatten_of_mem hseg).filter (opensAt config c.tsOpen)).length_le
      rw [hfilter] at hle
      exact hle.trans (hcount c.tsOpen)
  · rintro ⟨hlt, hlen⟩
    refine ⟨fun t ht t' ht' w w' hw hw' hopens => ?_, length_filter_opensAt h hlt hlen⟩
    obtain ⟨c, hc, hcw⟩ := hcandles t ht
    obtain ⟨c', hc', hcw'⟩ := hcandles t' ht'
    obtain rfl := Except.ok.inj (hcw.symm.trans hw)
    obtain rfl := Except.ok.inj (hcw'.symm.trans hw')
    rw [eq_of_tsOpen hlt hc hc' hopens]

/-- What is stored of the candles, their last one of each opening, is in order, and its sums are those
    of the ticks just if the ticks meet the condition. -/
theorem putAll_exact_iff (h : List.Forall₂ (CandleOf config) segments candles)
    (hbefore : candles.Pairwise fun a b => a.window.Before b.window)
    (hvol : ∀ c ∈ candles, c.volume < 2 ^ 32) :
    let stored := putAll Candle.tsOpen [] candles
    ((stored.map Candle.tsOpen).Pairwise (· < ·) ∧
        (stored.map fun c => min c.volume Bars.u32Max).sum = sizes (tradesOf segments.flatten) ∧
        (stored.map Candle.tradeCount).sum = segments.flatten.length) ↔
      OneSessionEach config segments.flatten := by
  intro stored
  have hle : candles.Pairwise fun a b => a.tsOpen ≤ b.tsOpen := by
    refine hbefore.imp fun hab => ?_
    rcases hab with hlt | ⟨heq, -⟩
    · exact hlt.le
    · exact heq.le
  have hsorted : (stored.map Candle.tsOpen).Pairwise (· < ·) :=
    List.pairwise_map.mpr (pairwise_putAll hle)
  obtain ⟨hsum, hsumeq⟩ := sum_tradeCount h
  rw [oneSessionEach_iff h hbefore]
  constructor
  · rintro ⟨-, -, hcount⟩
    have hlt : candles.Pairwise fun a b => a.tsOpen < b.tsOpen := by
      by_contra hnot
      have hpos : ∀ c ∈ candles, 0 < c.tradeCount := by
        intro c hc
        obtain ⟨seg, -, hof⟩ := (partners h).2 c hc
        exact hof.tradeCount_pos
      have hlost := sum_putAll_lt hle hpos hnot
      rw [hcount] at hlost
      exact absurd hlost (not_lt.mpr hsum)
    have hsame : stored = candles := putAll_of_pairwise hlt
    exact ⟨hlt, hsumeq.mp (hsame ▸ hcount)⟩
  · rintro ⟨hlt, hlen⟩
    have hsame : stored = candles := putAll_of_pairwise hlt
    refine ⟨hsorted, ?_, ?_⟩
    · rw [hsame]
      exact sum_volume h hvol
    · rw [hsame]
      exact hsumeq.mpr hlen

end

/-! ### The series -/

/-- Local dates are those of UTC up to a day: no zone is farther off. -/
def NearUtc (tz : Tz) : Prop :=
  ∀ t : Instant, tz.dateNaive t ≤ t.dateNaive + 1 ∧ t.dateNaive ≤ tz.dateNaive t + 1

/-- The clock window of a tick in a session opens in the range of 64 bits. -/
theorem nanos_of_clockWindow {tz : Tz} (hnear : NearUtc tz) {ci : ClockInterval} {t : Instant}
    {w : BarWindow} (h : Xnys.barWindow tz t (.clock ci) = .ok w)
    (hopen : (Xnys.classify tz t).kind ≠ .closed) : w.opens.timestampNanosOpt = some w.opens := by
  obtain ⟨hpos, rfl⟩ := clockBarWindow_ok h
  have hcov : Xnys.inCoverage (tz.dateNaive t) = true := by
    by_contra hout
    have hclosed : Xnys.classify tz t = Xnys.closedSession t := by
      simp [Xnys.classify, Xnys.etDate, hout]
    rw [hclosed] at hopen
    exact hopen rfl
  obtain ⟨hstart, hend⟩ := Xnys.inCoverage_iff.mp hcov
  obtain ⟨hlow, hhigh⟩ := hnear t
  have h2000 : Xnys.coverageStart = 10957 := by decide
  have h2032 : Xnys.coverageEnd = 22645 := by decide
  have hfrom : Instant.ofDate 0 ≤ t := Instant.ofDate_le.mpr (by omega)
  have hto : t < Instant.ofDate 22647 := Instant.lt_ofDate.mpr (by omega)
  have hnonneg : Instant.ofTimestamp 0 ≤ alignDown ci.secsPerBar t := by
    have hsecs : 0 ≤ t.timestamp := Instant.ofTimestamp_le.mp hfrom
    rw [alignDown_eq, Instant.ofTimestamp_le, Instant.timestamp_ofTimestamp]
    exact mul_nonneg hpos.le (Int.ediv_nonneg hsecs hpos.le)
  have hle : alignDown ci.secsPerBar t < Instant.ofDate 22647 := (alignDown_le hpos).trans_lt hto
  have hzero : Instant.ofTimestamp 0 = 0 := rfl
  have hlast : Instant.ofDate 22647 ≤ 2 ^ 63 := by decide
  refine if_pos ⟨?_, hle.trans_le hlast⟩
  rw [hzero] at hnonneg
  exact le_trans (by decide) hnonneg

/-- The ticks that `accept_tick` did not ignore. -/
def Delivery.accepted (d : Delivery) : List Tick := acceptedOf d.sent d.stream.answers

theorem acceptedOf_append {taken rx : List (Tick × Reading)} {answers : List AggregatorOutput}
    (hlen : taken.length = answers.length) :
    acceptedOf (taken ++ rx) answers = acceptedOf taken answers := by
  have hzip : (taken ++ rx).zip answers = taken.zip answers := by
    calc (taken ++ rx).zip answers = (taken ++ rx).zip (answers ++ []) := by rw [List.append_nil]
      _ = taken.zip answers ++ rx.zip [] := List.zip_append hlen
      _ = taken.zip answers := by simp
  rw [acceptedOf, hzip, acceptedOf]

/-- No call of the aggregator comes before a tick if the ticks are in order. -/
theorem inOrder_tickCalls {taken : List (Tick × Reading)}
    (h : (taken.map Prod.fst).Pairwise fun a b => a.ts ≤ b.ts) : InOrder (tickCalls taken) := by
  rw [InOrder, tickCalls, List.pairwise_map]
  refine (List.pairwise_map.mp h).imp fun hle t ht => ?_
  rw [← Option.some.inj ht]
  exact hle

/-- The completed bars and the bar in progress, in the order of their windows. -/
theorem bars_before {tz : Tz} {config : AggregatorConfig} (hmaps : Xnys.MapsSessionTimes tz)
    (hcal : config.calendar ∈ [Xnys.xnys tz, CryptoSpot.cryptoSpot])
    (hnew : SessionedBarAggregator.new config = .ok ⟨config, none, none⟩) {calls : List Call}
    (hord : InOrder calls) {j : Journal} (hj : runCalls ⟨config, none, none⟩ calls = some j)
    (hticks : ∀ done ∈ j.completed, done.2 = false) :
    (j.completed.map Prod.fst ++ j.agg.snapshotCurrentPartial.toList).Pairwise
      fun a b => a.window.Before b.window := by
  obtain ⟨_, hvalid, -⟩ := bind_ok hnew
  have hclosing := runCalls_closing hmaps hcal hvalid rfl False calls hord False.elim j hj
  have hfollows : ∀ {w : BarWindow} {done}, done ∈ j.completed → Follows False w done →
      done.1.window.Before w := by
    rintro w done hdone (h | ⟨-, hflush, -⟩)
    · exact h
    · exact absurd ((hticks done hdone).symm.trans hflush) (by decide)
  rw [List.pairwise_append]
  refine ⟨List.pairwise_map.mpr (hclosing.inOrder.imp_of_mem fun ha _ h => hfollows ha h), ?_, ?_⟩
  · cases j.agg.snapshotCurrentPartial with
    | none => exact .nil
    | some c => exact List.pairwise_singleton _ c
  · intro c hc c' hc'
    obtain ⟨done, hdone, rfl⟩ := List.mem_map.mp hc
    obtain ⟨inp, hinp, hsnap⟩ := Option.bind_eq_some_iff.mp (Option.mem_toList.mp hc')
    obtain ⟨rfl, -⟩ := toCandle_eq_some hsnap
    exact hfollows hdone (hclosing.current inp hinp done hdone)

/-- Through the stream into a series without a cap, ticks in order and in sessions: the series is in
    order, with the volume and the count of the accepted ticks, just if no window holds ticks of two
    sessions, or more of them than its count can say. -/
theorem series_keeps_iff {tz : Tz} (hmaps : Xnys.MapsSessionTimes tz) (hnear : NearUtc tz)
    {config : AggregatorConfig} (hcal : config.calendar = Xnys.xnys tz) {ci : ClockInterval}
    (hperiod : config.period = .clock ci) (hsymbol : config.symbol.calendar = config.calendar.id)
    {agg : SessionedBarAggregator} (hnew : SessionedBarAggregator.new config = .ok agg)
    {calls : List StreamCall} (hflush : ∀ clock, StreamCall.flush clock ∉ calls)
    (hord : (sentTicks calls).Pairwise fun a b => a.ts ≤ b.ts)
    (hsession : ∀ t ∈ sentTicks calls,
      (config.calendar.classify t.ts).kind ∈ [.preMarket, .regular, .postMarket])
    {F : Type} (asF32 : ℚ → F) (nan : F) :
    ∃ d series, runStream agg calls = some d ∧
      (CandleSeries.new config.calendar.id config.period config.symbol).applyAll asF32 nan
        (d.delivered ++ d.snapshot) = some series ∧
      ((∀ c ∈ d.delivered ++ d.snapshot, c.volume < 2 ^ 32) →
        (series.timestamps.Pairwise (· < ·) ∧ series.volumes.sum = sizes (tradesOf d.accepted) ∧
            series.tradeCounts.sum = d.accepted.length ↔
          OneSessionEach config d.accepted)) := by
  have hmem : config.calendar ∈ [Xnys.xnys tz, CryptoSpot.cryptoSpot] := by simp [hcal]
  obtain ⟨_, hvalid, hagg⟩ := bind_ok hnew
  obtain rfl := Except.ok.inj hagg
  obtain ⟨d, hd, -⟩ := runStream_sound ⟨calendar_of_barWindow hmem, hsymbol⟩ hnew calls
  have hdelivered := runStream_delivered calls d hd
  have hsent := sent_of_runStream calls d hd
  obtain ⟨taken, j, htaken, hlen, hj, hjagg, hfed, hcollapse, hown⟩ :=
    (runStream_fedBy calls hflush d hd).collapse hnew hdelivered
  have hsub : (taken.map Prod.fst).Sublist (sentTicks calls) := by
    rw [← hsent, htaken, List.map_append]
    exact List.sublist_append_left _ _
  -- every candle fits into the series
  have hfits : ∀ c ∈ d.delivered ++ d.snapshot, CandleSeries.Fits
      (CandleSeries.new (F := F) config.calendar.id config.period config.symbol) c := by
    intro c hc
    obtain ⟨hcalendar, hcperiod, hcsymbol, t, ht, hw⟩ := hown c hc
    have hopen : (config.calendar.classify t.ts).kind ≠ .closed := by
      intro hclosed
      have := hsession t (hsub.subset ht)
      rw [hclosed] at this
      simp at this
    rw [hcal] at hopen hw
    rw [hperiod] at hw
    refine ⟨?_, nanos_of_clockWindow hnear hw hopen⟩
    simp [CandleSeries.validateCandle, CandleSeries.new, hcalendar, hcperiod, hcsymbol]
  have hrows : CandleSeries.Rows asF32 nan
      (CandleSeries.new config.calendar.id config.period config.symbol) [] :=
    ⟨rfl, rfl, rfl, rfl, rfl, rfl, rfl, rfl, rfl, rfl⟩
  obtain ⟨series, hseries, hrows⟩ := CandleSeries.applyAll_rows asF32 nan hrows rfl hfits
  refine ⟨d, series, hd, hseries, fun hvol => ?_⟩
  rw [hcollapse] at hrows
  -- the candles that count are those of the segments
  have haccepted : d.accepted = j.accepted := by
    rw [Delivery.accepted, htaken, acceptedOf_append hlen, hfed.accepted]
  obtain ⟨segments, hflat, hsegments, -⟩ := (runCalls_split hnew _ j hj).done
  have hbefore := bars_before hmaps hmem hnew (inOrder_tickCalls (hord.sublist hsub)) hj ?_
  · rw [hjagg] at hsegments hbefore
    have hvolume : ∀ c ∈ j.completed.map Prod.fst ++ d.snapshot, c.volume < 2 ^ 32 := by
      intro c hc
      refine hvol c ?_
      rcases List.mem_append.mp hc with hc | hc
      · have hcompleted : j.completed.map Prod.fst =
            d.stream.answers.flatMap AggregatorOutput.completed := by
          simp [hfed.completed, Function.comp_def]
        rw [hcompleted, ← hdelivered.filter] at hc
        exact List.mem_append_left _ (List.mem_of_mem_filter hc)
      · exact List.mem_append_right _ hc
    rw [hrows.timestamps, hrows.volumes, hrows.tradeCounts, haccepted, ← hflat]
    exact putAll_exact_iff hsegments hbefore hvolume
  · intro done hdone
    rw [hfed.completed] at hdone
    obtain ⟨c, -, rfl⟩ := List.mem_map.mp hdone
    rfl

theorem nearUtc_easternStandard : NearUtc Xnys.easternStandard := by
  intro t
  have hoff : Instant.ofTimestamp 18000 ≤ Instant.day := by decide
  have hday : (0 : ℤ) < Instant.day := by decide
  constructor
  · refine (Instant.dateNaive_mono (sub_le_self t (by decide))).trans ?_
    exact le_add_of_nonneg_right zero_le_one
  · have hback : t ≤ t - Instant.ofTimestamp 18000 + Instant.day * 1 := by linarith
    refine (Instant.dateNaive_mono hback).trans_eq ?_
    rw [Instant.dateNaive, Int.add_mul_ediv_left _ _ hday.ne']
    rfl

/-- Trades at two seconds of UTC, and enough calls of `next` to have all their candles. -/
def twoTrades (secs secs' : ℤ) : List StreamCall :=
  [.send (tradeAt secs 190 1) (readingAt secs), .send (tradeAt secs' 191 2) (readingAt secs'),
    .next, .next, .next]

/-- Trades at 14:35 and 14:45 UTC, both in regular hours. -/
theorem series_keeps_regular_trades :
    ∃ d series, runStream ⟨hourly, none, none⟩ (twoTrades 1705502100 1705502700) = some d ∧
      (CandleSeries.new hourly.calendar.id hourly.period hourly.symbol).applyAll some none
        (d.delivered ++ d.snapshot) = some series ∧
      ((∀ c ∈ d.delivered ++ d.snapshot, c.volume < 2 ^ 32) →
        (series.timestamps.Pairwise (· < ·) ∧ series.volumes.sum = sizes (tradesOf d.accepted) ∧
            series.tradeCounts.sum = d.accepted.length ↔
          OneSessionEach hourly d.accepted)) := by
  refine @series_keeps_iff Xnys.easternStandard Xnys.mapsSessionTimes_easternStandard
    nearUtc_easternStandard hourly rfl (.hours 1) rfl rfl _ rfl _ ?_ ?_ ?_ (Option ℚ) some none
  · simp [twoTrades]
  · decide +kernel
  · decide +kernel

/-- Of trades before and after the open, in one hour, the series keeps the later one only. -/
theorem premarket_bar_overwritten :
    ((sentTicks (twoTrades 1705500900 1705502700)).Pairwise fun a b => a.ts ≤ b.ts) ∧
    (∀ t ∈ sentTicks (twoTrades 1705500900 1705502700),
      (hourly.calendar.classify t.ts).kind ∈ [.preMarket, .regular, .postMarket]) ∧
    ∃ d series, runStream ⟨hourly, none, none⟩ (twoTrades 1705500900 1705502700) = some d ∧
      (CandleSeries.new hourly.calendar.id hourly.period hourly.symbol).applyAll (F := Option ℚ) some
        none
        (d.delivered ++ d.snapshot) = some series ∧
      (∀ c ∈ d.delivered ++ d.snapshot, c.volume < 2 ^ 32) ∧
      d.accepted.length = 2 ∧ sizes (tradesOf d.accepted) = 3 ∧
      series.tradeCounts.sum = 1 ∧ series.volumes.sum = 2 := by
  have hrun : (runStream ⟨hourly, none, none⟩ (twoTrades 1705500900 1705502700)).bind (fun d =>
      ((CandleSeries.new hourly.calendar.id hourly.period hourly.symbol).applyAll (F := Option ℚ)
        some none
        (d.delivered ++ d.snapshot)).map fun series =>
          (decide (∀ c ∈ d.delivered ++ d.snapshot, c.volume < 2 ^ 32), d.accepted.length,
            sizes (tradesOf d.accepted), series.tradeCounts.sum, series.volumes.sum)) =
      some (true, 2, 3, 1, 2) := by decide +kernel
  obtain ⟨d, hd, hrun⟩ := Option.bind_eq_some_iff.mp hrun
  obtain ⟨series, hseries, hrun⟩ := Option.map_eq_some_iff.mp hrun
  simp only [Prod.mk.injEq] at hrun
  obtain ⟨hvol, hlen, hsizes, hcount, hvolume⟩ := hrun
  exact ⟨by decide +kernel, by decide +kernel, d, series, hd, hseries, of_decide_eq_true hvol, hlen,
    hsizes, hcount, hvolume⟩

end Midas.BarsAdapter
