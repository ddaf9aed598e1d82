import HandOfMidas.Bars.Series
import HandOfMidas.BarsAdapter.Closing
import HandOfMidas.BarsAdapter.Segments

/-! What a stream hands out, against the aggregator that is fed with the ticks it took: of each bar, the
    last candle that opens with it is all that counts. -/

namespace Midas.BarsAdapter

open Calendar Bars Overwrite

/-- The aggregator after these ticks, with its answers. -/
inductive Feeds (agg₀ : SessionedBarAggregator) :
    List (Tick × Reading) → List AggregatorOutput → SessionedBarAggregator → Prop where
  | nil : Feeds agg₀ [] [] agg₀
  | concat {taken answers agg tick clock out agg'} (h : Feeds agg₀ taken answers agg)
      (hout : agg.acceptTick tick clock = some (out, agg')) :
      Feeds agg₀ (taken ++ [(tick, clock)]) (answers ++ [out]) agg'

theorem Feeds.length {agg₀ agg : SessionedBarAggregator} {taken : List (Tick × Reading)}
    {answers : List AggregatorOutput} (h : Feeds agg₀ taken answers agg) :
    taken.length = answers.length := by
  induction h with
  | nil => rfl
  | concat h hout ih => simp [ih]

/-! ### The stream -/

/-- The ticks that the stream took out of its channel fed the aggregator, and what is pending is a
    candle of the bar in progress. -/
structure FedBy (agg₀ : SessionedBarAggregator) (d : Delivery) : Prop where
  feeds : ∃ taken, Feeds agg₀ taken d.stream.answers d.stream.agg ∧ d.sent = taken ++ d.stream.rx
  pending : d.stream.pending = [] ∨ ∃ c inp, d.stream.pending = [c] ∧
    d.stream.agg.current = some inp ∧ c.window = inp.window

theorem current_of_rollover {agg agg' : SessionedBarAggregator} {tick : Tick} {clock : Reading}
    {prev opened : Candle} (h : agg.acceptTick tick clock = some (.rollover prev opened, agg')) :
    ∃ inp, agg'.current = some inp ∧ opened.window = inp.window := by
  rcases acceptTick_cases h with ⟨-, hout, -⟩ | ⟨window, price, size, inp', -, -, hcurrent, htook⟩
  · cases hout
  · refine ⟨inp', hcurrent, ?_⟩
    generalize agg.current = current at htook
    cases htook
    rfl

theorem receive_fedBy {agg₀ : SessionedBarAggregator} : ∀ {rx : List (Tick × Reading)}
    {agg : SessionedBarAggregator} {answers : List AggregatorOutput} {sent : List (Tick × Reading)}
    {delivered delivered' : List Candle} {c : Option Candle} {s : SessionedBarStream},
    SessionedBarStream.receive agg answers rx = some (c, s) →
      FedBy agg₀ ⟨⟨agg, rx, [], answers⟩, sent, delivered⟩ → FedBy agg₀ ⟨s, sent, delivered'⟩
  | [], agg, answers, sent, delivered, delivered', c, s, h, hd => by
    obtain ⟨rfl, rfl⟩ := Prod.mk.inj (Option.some.inj h)
    exact ⟨hd.feeds, Or.inl rfl⟩
  | (tick, clock) :: rx, agg, answers, sent, delivered, delivered', c, s, h, hd => by
    rw [SessionedBarStream.receive] at h
    obtain ⟨⟨out, agg'⟩, hout, h⟩ := Option.bind_eq_some_iff.mp h
    obtain ⟨taken, hfeeds, (hsent : sent = taken ++ (tick, clock) :: rx)⟩ := hd.feeds
    have hnext : ∃ taken, Feeds agg₀ taken (answers ++ [out]) agg' ∧ sent = taken ++ rx :=
      ⟨_, hfeeds.concat hout, by rw [hsent, List.append_assoc]; rfl⟩
    cases out with
    | ignored => exact @receive_fedBy agg₀ rx agg' _ sent delivered delivered' c s h ⟨hnext, Or.inl rfl⟩
    | folded => exact @receive_fedBy agg₀ rx agg' _ sent delivered delivered' c s h ⟨hnext, Or.inl rfl⟩
    | opened c =>
      obtain ⟨rfl, rfl⟩ := Prod.mk.inj (Option.some.inj h)
      exact ⟨hnext, Or.inl rfl⟩
    | partialBar c =>
      obtain ⟨rfl, rfl⟩ := Prod.mk.inj (Option.some.inj h)
      exact ⟨hnext, Or.inl rfl⟩
    | closed c =>
      obtain ⟨rfl, rfl⟩ := Prod.mk.inj (Option.some.inj h)
      exact ⟨hnext, Or.inl rfl⟩
    | rollover prev opened =>
      obtain ⟨rfl, rfl⟩ := Prod.mk.inj (Option.some.inj h)
      obtain ⟨inp, hinp, hwindow⟩ := current_of_rollover hout
      exact ⟨hnext, Or.inr ⟨opened, inp, rfl, hinp, hwindow⟩⟩

theorem call_fedBy {agg₀ : SessionedBarAggregator} {d d' : Delivery} {call : StreamCall}
    (hcall : d.call call = some d') (hflush : ∀ clock, call ≠ .flush clock) (hd : FedBy agg₀ d) :
    FedBy agg₀ d' := by
  cases call with
  | send tick clock =>
    obtain rfl := Option.some.inj hcall
    obtain ⟨taken, hfeeds, hsent⟩ := hd.feeds
    exact ⟨⟨taken, hfeeds, by rw [hsent, List.append_assoc]⟩, hd.pending⟩
  | next =>
    obtain ⟨⟨c, s⟩, hnext, hcall⟩ := Option.bind_eq_some_iff.mp hcall
    obtain rfl := Option.some.inj hcall
    unfold SessionedBarStream.next at hnext
    split at hnext
    · rename_i c' pending hpending
      obtain ⟨rfl, rfl⟩ := Prod.mk.inj (Option.some.inj hnext)
      refine ⟨hd.feeds, ?_⟩
      rcases hd.pending with hnil | ⟨c, inp, hone, -⟩
      · rw [hpending] at hnil
        cases hnil
      · rw [hpending] at hone
        exact Or.inl (List.cons.inj hone).2
    · rename_i hpending
      have hd : FedBy agg₀ ⟨⟨d.stream.agg, d.stream.rx, [], d.stream.answers⟩, d.sent, d.delivered⟩ :=
        ⟨hd.feeds, Or.inl rfl⟩
      exact receive_fedBy hnext hd
  | flush clock => exact absurd rfl (hflush clock)

theorem runStream_fedBy {agg₀ : SessionedBarAggregator} (calls : List StreamCall)
    (hflush : ∀ clock, StreamCall.flush clock ∉ calls) :
    ∀ d, runStream agg₀ calls = some d → FedBy agg₀ d := by
  induction calls using List.reverseRecOn with
  | nil =>
    intro d hd
    obtain rfl := Option.some.inj hd
    exact ⟨⟨[], .nil, rfl⟩, Or.inl rfl⟩
  | append_singleton calls call ih =>
    intro d' hd'
    rw [runStream, run_concat] at hd'
    obtain ⟨d, hd, hcall⟩ := Option.bind_eq_some_iff.mp hd'
    refine call_fedBy hcall (fun clock h => ?_) (ih (fun clock h => ?_) d hd)
    · exact hflush clock (List.mem_append_right _ (List.mem_singleton.mpr h.symm))
    · exact hflush clock (List.mem_append_left _ h)

/-- The ticks that are sent. -/
def sentTicks (calls : List StreamCall) : List Tick :=
  calls.filterMap fun
    | .send tick _ => some tick
    | _ => none

theorem sent_of_runStream {agg₀ : SessionedBarAggregator} (calls : List StreamCall) :
    ∀ d, runStream agg₀ calls = some d → d.sent.map Prod.fst = sentTicks calls := by
  induction calls using List.reverseRecOn with
  | nil =>
    intro d hd
    obtain rfl := Option.some.inj hd
    rfl
  | append_singleton calls call ih =>
    intro d' hd'
    rw [runStream, run_concat] at hd'
    obtain ⟨d, hd, hcall⟩ := Option.bind_eq_some_iff.mp hd'
    have ih := ih d hd
    rw [sentTicks, List.filterMap_append, ← sentTicks, ← ih]
    cases call with
    | send tick clock =>
      obtain rfl := Option.some.inj hcall
      simp
    | next =>
      obtain ⟨⟨c, s⟩, -, hcall⟩ := Option.bind_eq_some_iff.mp hcall
      obtain rfl := Option.some.inj hcall
      simp
    | flush clock =>
      obtain ⟨⟨c, agg⟩, -, hcall⟩ := Option.bind_eq_some_iff.mp hcall
      obtain rfl := Option.some.inj hcall
      simp

/-! ### The candles -/

/-- The ticks that were not answered `Ignored`. -/
def acceptedOf (taken : List (Tick × Reading)) (answers : List AggregatorOutput) : List Tick :=
  (taken.zip answers).filterMap fun p => if p.2 = .ignored then none else some p.1.1

/-- A candle of the aggregator, its window that of one of these ticks. -/
structure OwnCandle (config : AggregatorConfig) (ticks : List Tick) (c : Candle) : Prop where
  calendar : c.calendar = config.calendar.id
  period : c.period = config.period
  symbol : c.symbol = config.symbol
  window : ∃ t ∈ ticks, config.calendar.barWindow t.ts config.period = .ok c.window

theorem OwnCandle.mono {config : AggregatorConfig} {ticks ticks' : List Tick} {c : Candle}
    (h : OwnCandle config ticks c) (hsub : ticks ⊆ ticks') : OwnCandle config ticks' c := by
  obtain ⟨t, ht, hw⟩ := h.window
  exact ⟨h.calendar, h.period, h.symbol, t, hsub ht, hw⟩

/-- The answers, and the journal of the same ticks. -/
structure Fed (config : AggregatorConfig) (taken : List (Tick × Reading))
    (answers : List AggregatorOutput)
    (j : Journal) : Prop where
  sameConfig : j.agg.config = config
  accepted : j.accepted = acceptedOf taken answers
  completed : j.completed = (answers.flatMap AggregatorOutput.completed).map fun c => (c, false)
  current : ∀ inp, j.agg.current = some inp →
    ∃ t ∈ taken.map Prod.fst, config.calendar.barWindow t.ts config.period = .ok inp.window
  own : ∀ c ∈ answers.flatMap AggregatorOutput.candles, OwnCandle config (taken.map Prod.fst) c
  untouched : j.agg.current = none → answers.flatMap AggregatorOutput.candles = [] ∧
    answers.flatMap AggregatorOutput.completed = []
  collapse : ∀ inp, j.agg.current = some inp → ∀ c : Candle, c.window = inp.window →
    put Candle.tsOpen (putAll Candle.tsOpen [] (answers.flatMap AggregatorOutput.candles)) c =
      put Candle.tsOpen (putAll Candle.tsOpen [] (answers.flatMap AggregatorOutput.completed)) c

theorem acceptedOf_concat {taken : List (Tick × Reading)} {answers : List AggregatorOutput}
    (hlen : taken.length = answers.length) (tick : Tick) (clock : Reading) (out : AggregatorOutput) :
    acceptedOf (taken ++ [(tick, clock)]) (answers ++ [out]) =
      if out = .ignored then acceptedOf taken answers else acceptedOf taken answers ++ [tick] := by
  unfold acceptedOf
  rw [List.zip_append hlen, List.filterMap_append]
  split
  · rename_i h
    simp [h]
  · rename_i h
    simp [h]

theorem Fed.concat {config : AggregatorConfig} {taken : List (Tick × Reading)}
    {answers : List AggregatorOutput} {j : Journal} (h : Fed config taken answers j)
    (hlen : taken.length = answers.length) {tick : Tick} {clock : Reading} {out : AggregatorOutput}
    {agg' : SessionedBarAggregator} (hout : j.agg.acceptTick tick clock = some (out, agg')) :
    Fed config (taken ++ [(tick, clock)]) (answers ++ [out])
      ⟨agg', if out = .ignored then j.accepted else j.accepted ++ [tick],
        j.completed ++ out.completed.map fun c => (c, false)⟩ := by
  have hconfig := h.sameConfig
  have haccepted := acceptedOf_concat hlen tick clock out
  rw [← h.accepted] at haccepted
  have hcompleted : j.completed ++ (out.completed.map fun c => (c, false)) =
      ((answers ++ [out]).flatMap AggregatorOutput.completed).map fun c => (c, false) := by
    simp [h.completed]
  have hsub : taken.map Prod.fst ⊆ (taken ++ [(tick, clock)]).map Prod.fst := by simp
  have hflat : ∀ f : AggregatorOutput → List Candle,
      (answers ++ [out]).flatMap f = answers.flatMap f ++ f out := by simp
  have hown : ∀ c ∈ answers.flatMap AggregatorOutput.candles,
      OwnCandle config ((taken ++ [(tick, clock)]).map Prod.fst) c := fun c hc => (h.own c hc).mono hsub
  rcases acceptTick_cases hout with ⟨-, rfl, rfl⟩ |
    ⟨window, price, size, inp', hof, hc, hcurrent, htook⟩
  · have hcandles := (hflat AggregatorOutput.candles).trans (List.append_nil _)
    have hdone := (hflat AggregatorOutput.completed).trans (List.append_nil _)
    refine ⟨hconfig, haccepted.symm, hcompleted, fun inp hinp => ?_, hcandles ▸ hown, ?_, ?_⟩
    · obtain ⟨t, ht, hw⟩ := h.current inp hinp
      exact ⟨t, hsub ht, hw⟩
    · rw [hcandles, hdone]
      exact h.untouched
    · rw [hcandles, hdone]
      exact h.collapse
  · rw [hconfig] at hof htook hc
    have hwindow := (tradeOf_eq_some.mp hof).2
    have htick : tick ∈ (taken ++ [(tick, clock)]).map Prod.fst := by simp
    have hview : ∀ (inp : InProgressBar) completeness, ∀ t ∈ (taken ++ [(tick, clock)]).map Prod.fst,
        config.calendar.barWindow t.ts config.period = .ok inp.window →
          OwnCandle config ((taken ++ [(tick, clock)]).map Prod.fst) (inp.view config completeness) :=
      fun inp completeness t ht hw => ⟨rfl, rfl, rfl, t, ht, hw⟩
    have htaken : inp'.window = window ∧
        (∀ c ∈ out.candles, OwnCandle config ((taken ++ [(tick, clock)]).map Prod.fst) c) ∧
        ∀ c : Candle, c.window = window →
          put Candle.tsOpen
              (putAll Candle.tsOpen [] (answers.flatMap AggregatorOutput.candles ++ out.candles)) c =
            put Candle.tsOpen
              (putAll Candle.tsOpen [] (answers.flatMap AggregatorOutput.completed ++ out.completed))
                c := by
      generalize hj : j.agg.current = current at htook
      cases htook with
      | opened hcal =>
        obtain ⟨hX, hC⟩ := h.untouched hj
        refine ⟨rfl, fun c hmem => ?_, fun c hw => ?_⟩
        · rw [List.mem_singleton.mp hmem]
          exact hview _ _ tick htick hwindow
        · simp only [hX, hC, AggregatorOutput.candles, AggregatorOutput.completed]
          exact put_put [] (congrArg BarWindow.opens hw.symm)
      | @folded inp hsame =>
        refine ⟨(fold_window ..).trans hsame, fun c hmem => (by cases hmem), fun c hw => ?_⟩
        simp only [AggregatorOutput.candles, AggregatorOutput.completed, List.append_nil]
        exact h.collapse inp hj c (hw.trans hsame.symm)
      | @partialBar inp hsame =>
        have hfold : (fold inp price size).window = window := (fold_window ..).trans hsame
        refine ⟨hfold, fun c hmem => ?_, fun c hw => ?_⟩
        · rw [List.mem_singleton.mp hmem]
          exact hview _ _ tick htick (hfold ▸ hwindow)
        · have hkey : Candle.tsOpen ((fold inp price size).view config .partialBar) = c.tsOpen :=
            congrArg BarWindow.opens (hfold.trans hw.symm)
          simp only [AggregatorOutput.candles, AggregatorOutput.completed, List.append_nil]
          rw [putAll_concat, put_put _ hkey]
          exact h.collapse inp hj c (hw.trans hsame.symm)
      | @rollover inp hother hcal =>
        obtain ⟨t, ht, hw⟩ := h.current inp hj
        refine ⟨rfl, fun c hmem => ?_, fun c hw => ?_⟩
        · rcases List.mem_cons.mp hmem with rfl | hmem
          · exact hview _ _ t (hsub ht) hw
          · rw [List.mem_singleton.mp hmem]
            exact hview _ _ tick htick hwindow
        · -- the bar that was opened gives way, the completed one stays
          have hkey : Candle.tsOpen ((newBar window price size tick.ts).view config .partialBar) =
              c.tsOpen := congrArg BarWindow.opens hw.symm
          have hclosed := h.collapse inp hj (inp.view config .completed) rfl
          simp only [AggregatorOutput.candles, AggregatorOutput.completed]
          rw [List.append_cons, putAll_concat, putAll_concat, put_put _ hkey, hclosed, putAll_concat]
    obtain ⟨hsame, hcandles, hcollapse⟩ := htaken
    refine ⟨hc, haccepted.symm, hcompleted, fun inp hinp => ?_, fun c hmem => ?_, fun hnone => ?_,
      fun inp hinp => ?_⟩
    · obtain rfl := Option.some.inj (hcurrent.symm.trans hinp)
      exact ⟨tick, htick, hsame ▸ hwindow⟩
    · rw [hflat] at hmem
      rcases List.mem_append.mp hmem with hmem | hmem
      · exact hown c hmem
      · exact hcandles c hmem
    · exact absurd (hcurrent.symm.trans hnone) (by simp)
    · obtain rfl := Option.some.inj (hcurrent.symm.trans hinp)
      rw [hsame, hflat, hflat]
      exact hcollapse

/-- The calls of the ticks that were taken. -/
def tickCalls (taken : List (Tick × Reading)) : List Call := taken.map fun p => .tick p.1 p.2

theorem Feeds.fed {config : AggregatorConfig} {taken : List (Tick × Reading)}
    {answers : List AggregatorOutput} {agg : SessionedBarAggregator}
    (h : Feeds ⟨config, none, none⟩ taken answers agg) :
    ∃ j, runCalls ⟨config, none, none⟩ (tickCalls taken) = some j ∧ j.agg = agg ∧
      Fed config taken answers j := by
  induction h with
  | nil =>
    refine ⟨⟨⟨config, none, none⟩, [], []⟩, rfl, rfl, rfl, rfl, rfl, ?_, ?_, fun _ => ⟨rfl, rfl⟩, ?_⟩
    · intro inp h
      cases h
    · intro c h
      cases h
    · intro inp h
      cases h
  | concat h hout ih =>
    obtain ⟨j, hj, rfl, hfed⟩ := ih
    refine ⟨_, ?_, rfl, hfed.concat h.length hout⟩
    rw [tickCalls, List.map_append, List.map_singleton, ← tickCalls, runCalls, run_concat,
      ← runCalls, hj,
      Option.bind_some, Journal.call, hout]
    rfl

/-- The snapshot of the bar in progress. -/
def Delivery.snapshot (d : Delivery) : List Candle := d.stream.agg.snapshotCurrentPartial.toList

/-- Of what was handed out and the snapshot, the last candles of all openings are those of the completed
    bars and of the bar in progress. -/
theorem FedBy.collapse {config : AggregatorConfig} {d : Delivery}
    (hnew : SessionedBarAggregator.new config = .ok ⟨config, none, none⟩)
    (h : FedBy ⟨config, none, none⟩ d) (hd : Delivered d) :
    ∃ taken j, d.sent = taken ++ d.stream.rx ∧ taken.length = d.stream.answers.length ∧
      runCalls ⟨config, none, none⟩ (tickCalls taken) = some j ∧ j.agg = d.stream.agg ∧
      Fed config taken d.stream.answers j ∧
      putAll Candle.tsOpen [] (d.delivered ++ d.snapshot) =
        putAll Candle.tsOpen [] (j.completed.map Prod.fst ++ d.snapshot) ∧
      ∀ c ∈ d.delivered ++ d.snapshot, OwnCandle config (taken.map Prod.fst) c := by
  obtain ⟨taken, hfeeds, hsent⟩ := h.feeds
  obtain ⟨j, hj, hagg, hfed⟩ := hfeeds.fed
  have hcompleted : j.completed.map Prod.fst = d.stream.answers.flatMap AggregatorOutput.completed := by
    simp [hfed.completed, Function.comp_def]
  have hown : ∀ c ∈ d.delivered, OwnCandle config (taken.map Prod.fst) c := by
    intro c hc
    refine hfed.own c ?_
    rw [← hd.inOrder]
    exact List.mem_append_left _ hc
  refine ⟨taken, j, hsent, hfeeds.length, hj, hagg, hfed, ?_⟩
  rw [hcompleted]
  cases hcurrent : d.stream.agg.current with
  | none =>
    obtain ⟨hX, hC⟩ := hfed.untouched (hagg ▸ hcurrent)
    have hempty : d.delivered = [] := (List.append_eq_nil_iff.mp (hd.inOrder.trans hX)).1
    rw [hempty, hC]
    refine ⟨rfl, fun c hc => ?_⟩
    simp [Delivery.snapshot, SessionedBarAggregator.snapshotCurrentPartial, hcurrent] at hc
  | some inp =>
    have hconfig : d.stream.agg.config = config := hagg ▸ hfed.sameConfig
    have hsome := (runCalls_split hnew _ j hj).sound
    obtain ⟨seg, hseg⟩ := hsome.2 inp (hagg ▸ hcurrent)
    have hsnap : d.snapshot = [inp.view config .partialBar] := by
      rw [Delivery.snapshot, SessionedBarAggregator.snapshotCurrentPartial, hcurrent, hconfig,
        Option.bind_some, hseg.snapshot .partialBar]
      rfl
    have hcollapse := hfed.collapse inp (hagg ▸ hcurrent) (inp.view config .partialBar) rfl
    rw [hsnap, putAll_concat, putAll_concat, ← hcollapse]
    refine ⟨?_, fun c hc => ?_⟩
    · rcases h.pending with hnil | ⟨c, inp', hone, hinp', hwindow⟩
      · rw [← hd.inOrder, hnil, List.append_nil]
      · obtain rfl := Option.some.inj (hcurrent.symm.trans hinp')
        have hkey : c.tsOpen = Candle.tsOpen (inp.view config .partialBar) :=
          congrArg BarWindow.opens hwindow
        rw [← hd.inOrder, hone, putAll_concat, put_put _ hkey]
    · rcases List.mem_append.mp hc with hc | hc
      · exact hown c hc
      · rw [List.mem_singleton.mp hc]
        exact ⟨rfl, rfl, rfl, hfed.current inp (hagg ▸ hcurrent)⟩

end Midas.BarsAdapter
