import HandOfMidas.BarsAdapter.Runs
import HandOfMidas.Calendar.Queries
import HandOfMidas.Calendar.Hours

/-! The order in which the aggregator completes its bars. And which ticks it folds: it looks at the
    window of a tick, not at the hours of that window. -/

namespace Midas.BarsAdapter

open Calendar Bars

/-- The time of a call: that of the tick, or of the clock. -/
def Call.time : Call → Instant
  | .tick t _ => t.ts
  | .flush clock => clock.now

def Call.tickTime : Call → Option Instant
  | .tick t _ => some t.ts
  | .flush _ => none

/-- No call comes earlier than a tick before it. -/
def InOrder (calls : List Call) : Prop :=
  calls.Pairwise fun a b => ∀ t ∈ a.tickTime, t ≤ b.time

instance (calls : List Call) : Decidable (InOrder calls) :=
  inferInstanceAs (Decidable (calls.Pairwise fun a b => ∀ t ∈ a.tickTime, t ≤ b.time))

/-- No call comes earlier than one before it, and every tick comes before its window is over. -/
def Punctual (config : AggregatorConfig) (calls : List Call) : Prop :=
  (calls.Pairwise fun a b => a.time ≤ b.time) ∧
    ∀ tick clock w, Call.tick tick clock ∈ calls →
      config.calendar.barWindow tick.ts config.period = .ok w → tick.ts < w.closes

/-- A bar that was completed before a bar of window `w`: its window, or its session, was an earlier one,
    or it was the same and a flush had closed it. -/
def Follows (punctual : Prop) (w : BarWindow) (done : Candle × Bool) : Prop :=
  done.1.window.Before w ∨ ¬ punctual ∧ done.2 = true ∧ done.1.window = w

theorem Follows.of_before {punctual : Prop} {w w' : BarWindow} {done : Candle × Bool}
    (h : Follows punctual w done) (hw : w.Before w') : Follows punctual w' done := by
  rcases h with h | ⟨-, -, rfl⟩
  · exact Or.inl (h.trans hw)
  · exact Or.inl hw

/-- The time of a tick that may come after these calls. -/
def MayCome (punctual : Prop) (calls : List Call) (t : Instant) : Prop :=
  ∀ call ∈ calls, (∀ s ∈ call.tickTime, s ≤ t) ∧ (punctual → call.time ≤ t)

/-- Completed bars are in order, and so will be the next one. -/
structure Closing (punctual : Prop) (config : AggregatorConfig) (calls : List Call) (j : Journal) :
    Prop where
  sameConfig : j.agg.config = config
  inOrder : j.completed.Pairwise fun a b => Follows punctual b.1.window a
  opened : ∀ inp, j.agg.current = some inp → ∃ tick clock, Call.tick tick clock ∈ calls ∧
    config.calendar.barWindow tick.ts config.period = .ok inp.window
  current : ∀ inp, j.agg.current = some inp → ∀ done ∈ j.completed, Follows punctual inp.window done
  next : j.agg.current = none → ∀ done ∈ j.completed, ∀ t w, MayCome punctual calls t →
    (punctual → t < w.closes) → config.calendar.barWindow t config.period = .ok w →
      Follows punctual w done

section

variable {tz : Tz} {config : AggregatorConfig} (hmaps : Xnys.MapsSessionTimes tz)
  (hcal : config.calendar ∈ [Xnys.xnys tz, CryptoSpot.cryptoSpot])
  (hvalid : config.calendar.validatePeriod config.period = .ok ())

include hmaps hcal hvalid in
/-- The window of a tick that may come is a later one than that of the bar in progress, or the same. -/
theorem Closing.goes_on {punctual : Prop} {calls : List Call} {j : Journal}
    (h : Closing punctual config calls j) {inp : InProgressBar} (hinp : j.agg.current = some inp)
    {t : Instant} {w : BarWindow} (ht : MayCome punctual calls t)
    (hw : config.calendar.barWindow t config.period = .ok w) :
    inp.window.Before w ∨ inp.window = w := by
  obtain ⟨tick, clock, hmem, hwindow⟩ := h.opened inp hinp
  exact windows_go_on hmaps hcal hvalid ((ht _ hmem).1 _ rfl) hwindow hw

theorem pairwise_concat {α : Type*} {R : α → α → Prop} {l : List α} {a : α} (h : l.Pairwise R)
    (ha : ∀ b ∈ l, R b a) : (l ++ [a]).Pairwise R := by
  rw [List.pairwise_append]
  refine ⟨h, List.pairwise_singleton R a, fun b hb c hc => ?_⟩
  rw [List.mem_singleton.mp hc]
  exact ha b hb

include hmaps hcal hvalid in
theorem tick_closing {punctual : Prop} {calls : List Call} {j : Journal}
    (h : Closing punctual config calls j) {tick : Tick} {clock : Reading}
    (hcome : MayCome punctual calls tick.ts)
    (hin : punctual → ∀ w, config.calendar.barWindow tick.ts config.period = .ok w → tick.ts < w.closes)
    {j' : Journal} (hcall : j.call (.tick tick clock) = some j') :
    Closing punctual config (calls ++ [.tick tick clock]) j' := by
  obtain ⟨⟨out, agg'⟩, hout, hcall⟩ := Option.bind_eq_some_iff.mp hcall
  obtain rfl := Option.some.inj hcall
  have hconfig := h.sameConfig
  rcases acceptTick_cases hout with ⟨-, rfl, rfl⟩ |
    ⟨window, price, size, inp', hof, hc, hcurrent, htook⟩
  · refine ⟨hconfig, ?_, fun inp hinp => ?_, ?_, ?_⟩
    · simpa [AggregatorOutput.completed] using h.inOrder
    · obtain ⟨tick', clock', hmem, hwindow⟩ := h.opened inp hinp
      exact ⟨tick', clock', List.mem_append_left _ hmem, hwindow⟩
    · simpa [AggregatorOutput.completed] using h.current
    · intro hnone done hdone t w ht
      refine h.next hnone done (by simpa [AggregatorOutput.completed] using hdone) t w ?_
      exact fun call hmem => ht call (List.mem_append_left _ hmem)
  · rw [hconfig] at hof htook hc
    have hwindow := (tradeOf_eq_some.mp hof).2
    -- what was completed before the tick comes before its window
    have hbefore : ∀ done ∈ j.completed, Follows punctual window done := by
      intro done hdone
      cases hj : j.agg.current with
      | none => exact h.next hj done hdone _ _ hcome (fun hp => hin hp _ hwindow) hwindow
      | some inp =>
        have hdone := h.current inp hj done hdone
        rcases h.goes_on hmaps hcal hvalid hj hcome hwindow with hlt | heq
        · exact hdone.of_before hlt
        · exact heq ▸ hdone
    have htaken : inp'.window = window ∧
        (j.completed ++ out.completed.map fun c => (c, false)).Pairwise
          (fun a b => Follows punctual b.1.window a) ∧
        ∀ done ∈ j.completed ++ out.completed.map fun c => (c, false),
          Follows punctual window done := by
      generalize hj : j.agg.current = current at htook
      cases htook with
      | opened hcal =>
        simp only [AggregatorOutput.completed, List.map_nil, List.append_nil]
        exact ⟨rfl, h.inOrder, hbefore⟩
      | folded hsame =>
        simp only [AggregatorOutput.completed, List.map_nil, List.append_nil]
        exact ⟨(fold_window ..).trans hsame, h.inOrder, hbefore⟩
      | partialBar hsame =>
        simp only [AggregatorOutput.completed, List.map_nil, List.append_nil]
        exact ⟨(fold_window ..).trans hsame, h.inOrder, hbefore⟩
      | @rollover inp hother hcal' =>
        have hlt := (h.goes_on hmaps hcal hvalid hj hcome hwindow).resolve_right hother
        refine ⟨rfl, pairwise_concat h.inOrder (h.current inp hj), fun done hdone => ?_⟩
        rcases List.mem_append.mp hdone with hdone | hdone
        · exact hbefore done hdone
        · rw [List.mem_singleton.mp hdone]
          exact Or.inl hlt
    obtain ⟨hsame, hinOrder, hall⟩ := htaken
    refine ⟨hc, hinOrder, fun inp hinp => ?_, fun inp hinp => ?_, fun hnone => ?_⟩
    · obtain rfl := Option.some.inj (hcurrent.symm.trans hinp)
      exact ⟨tick, clock, by simp, hsame ▸ hwindow⟩
    · obtain rfl := Option.some.inj (hcurrent.symm.trans hinp)
      exact hsame ▸ hall
    · exact absurd (hcurrent.symm.trans hnone) (by simp)

include hmaps hcal hvalid in
theorem flush_closing {punctual : Prop} {calls : List Call} {j : Journal}
    (h : Closing punctual config calls j) {clock : Reading} {j' : Journal}
    (hcall : j.call (.flush clock) = some j') :
    Closing punctual config (calls ++ [.flush clock]) j' := by
  obtain ⟨⟨out, agg'⟩, hout, hcall⟩ := Option.bind_eq_some_iff.mp hcall
  obtain rfl := Option.some.inj hcall
  have hconfig := h.sameConfig
  have hcome : ∀ {t}, MayCome punctual (calls ++ [Call.flush clock]) t → MayCome punctual calls t :=
    fun ht call hmem => ht call (List.mem_append_left _ hmem)
  rcases flushIfDue_cases hout with ⟨rfl, rfl⟩ | ⟨inp, hinp, hdue, rfl, hc, hcurrent⟩
  · refine ⟨hconfig, by simpa using h.inOrder, fun inp hinp => ?_, by simpa using h.current, ?_⟩
    · obtain ⟨tick, clock', hmem, hwindow⟩ := h.opened inp hinp
      exact ⟨tick, clock', List.mem_append_left _ hmem, hwindow⟩
    · intro hnone done hdone t w ht
      exact h.next hnone done (by simpa using hdone) t w (hcome ht)
  · have hnone : ∀ inp', agg'.current ≠ some inp' := by simp [hcurrent]
    refine ⟨hc.trans hconfig, pairwise_concat h.inOrder (h.current inp hinp),
      fun inp' h' => absurd h' (hnone inp'), fun inp' h' => absurd h' (hnone inp'), ?_⟩
    intro _ done hdone t w ht hin hwindow
    have hgoes := h.goes_on hmaps hcal hvalid hinp (hcome ht) hwindow
    rcases List.mem_append.mp hdone with hdone | hdone
    · have hdone := h.current inp hinp done hdone
      rcases hgoes with hlt | heq
      · exact hdone.of_before hlt
      · exact heq ▸ hdone
    · rw [List.mem_singleton.mp hdone]
      rcases hgoes with hlt | heq
      · exact Or.inl hlt
      · -- a punctual tick does not come back to a window that is over
        refine Or.inr ⟨fun hp => ?_, rfl, heq⟩
        have hlate : clock.now ≤ t := (ht _ (List.mem_append_right _ (List.mem_singleton.mpr rfl))).2 hp
        exact absurd (hin hp) (not_lt.mpr (heq ▸ hdue.trans hlate))

include hmaps hcal hvalid in
theorem runCalls_closing {agg : SessionedBarAggregator} (hnew : agg = ⟨config, none, none⟩)
    (punctual : Prop) (calls : List Call) (hord : InOrder calls)
    (hp : punctual → Punctual config calls) :
    ∀ j, runCalls agg calls = some j → Closing punctual config calls j := by
  subst hnew
  induction calls using List.reverseRecOn with
  | nil =>
    intro j hj
    obtain rfl := Option.some.inj hj
    refine ⟨rfl, .nil, ?_, ?_, ?_⟩
    · intro inp h
      cases h
    · intro inp h
      cases h
    · intro _ done h
      cases h
  | append_singleton calls call ih =>
    intro j' hj'
    rw [runCalls, run_concat] at hj'
    obtain ⟨j, hj, hcall⟩ := Option.bind_eq_some_iff.mp hj'
    obtain ⟨hordPre, -, hordLast⟩ := List.pairwise_append.mp hord
    have hpPre : punctual → Punctual config calls := fun h =>
      ⟨(List.pairwise_append.mp (hp h).1).1,
        fun tick clock w hmem => (hp h).2 tick clock w (List.mem_append_left _ hmem)⟩
    have h := ih hordPre hpPre j hj
    cases call with
    | flush clock => exact flush_closing hmaps hcal hvalid h hcall
    | tick tick clock =>
      refine tick_closing hmaps hcal hvalid h (fun c hmem => ?_) (fun hpunctual w => ?_) hcall
      · refine ⟨hordLast c hmem _ (List.mem_singleton.mpr rfl), fun hpunctual => ?_⟩
        exact (List.pairwise_append.mp (hp hpunctual).1).2.2 c hmem _ (List.mem_singleton.mpr rfl)
      · exact (hp hpunctual).2 tick clock w (List.mem_append_right _ (List.mem_singleton.mpr rfl))

end

/-- Bars of one hour of a share. -/
def hourly : AggregatorConfig :=
  ⟨⟨"AAPL", Xnys.xnysId⟩, Xnys.xnys Xnys.easternStandard, .clock (.hours 1), 4⟩

/-- Trades at 14:15, 14:45 and 15:15 UTC of 2024-01-17: the regular session opens at 14:30. -/
def aroundTheOpen : List Call :=
  [.tick (tradeAt 1705500900 190 1) (readingAt 1705500900),
    .tick (tradeAt 1705502700 191 1) (readingAt 1705502700),
    .tick (tradeAt 1705504500 192 1) (readingAt 1705504500)]

theorem aroundTheOpen_inOrder : InOrder aroundTheOpen := by decide +kernel

/-- Daily bars of regular hours. -/
def daily : AggregatorConfig := { hourly with period := .session .regular }

/-- A trade at 20:59 UTC, a flush at the close, and the same after it. -/
def aroundTheClose : List Call :=
  [.tick (tradeAt 1705525140 190 1) (readingAt 1705525140), .flush (readingAt 1705525200),
    .tick (tradeAt 1705525500 191 1) (readingAt 1705525500), .flush (readingAt 1705525560)]

/-- A tick that is not ignored is in the bar of its window. -/
theorem window_of_acceptTick {agg agg' : SessionedBarAggregator} {tick : Tick} {clock : Reading}
    {out : AggregatorOutput} (h : agg.acceptTick tick clock = some (out, agg')) (hout : out ≠ .ignored) :
    ∃ inp, agg'.current = some inp ∧
      agg.config.calendar.barWindow tick.ts agg.config.period = .ok inp.window := by
  rcases acceptTick_cases h with ⟨-, rfl, -⟩ | ⟨window, price, size, inp', hof, -, hcurrent, htook⟩
  · exact absurd rfl hout
  · refine ⟨inp', hcurrent, ?_⟩
    have hsame : inp'.window = window := by
      generalize agg.current = current at htook
      cases htook with
      | opened hcal => rfl
      | folded hsame => exact (fold_window ..).trans hsame
      | partialBar hsame => exact (fold_window ..).trans hsame
      | rollover hother hcal => rfl
    rw [hsame]
    exact (tradeOf_eq_some.mp hof).2

/-- A tick lies in its bar's window, and in regular hours if the bars are about these, unless the
    calendar is that of the exchange and classifies the tick as out of the period's hours. -/
theorem folded_in_hours_iff {tz : Tz} (hmaps : Xnys.MapsSessionTimes tz)
    {agg agg' : SessionedBarAggregator}
    (hcal : agg.config.calendar ∈ [Xnys.xnys tz, CryptoSpot.cryptoSpot])
    (hvalid : agg.config.calendar.validatePeriod agg.config.period = .ok ()) {tick : Tick}
    {clock : Reading} {out : AggregatorOutput} (hout : agg.acceptTick tick clock = some (out, agg'))
    (hfolded : out ≠ .ignored) :
    (∃ inp, agg'.current = some inp ∧
        InHours agg.config.calendar agg.config.period tick.ts inp.window) ↔
      ¬ (agg.config.calendar.id = Xnys.xnysId ∧
        OutOfHours agg.config.calendar agg.config.period tick.ts) := by
  obtain ⟨inp, hinp, hwindow⟩ := window_of_acceptTick hout hfolded
  have hbar : (∃ inp, agg'.current = some inp ∧
      InHours agg.config.calendar agg.config.period tick.ts inp.window) ↔
        InHours agg.config.calendar agg.config.period tick.ts inp.window := by
    simp [hinp]
  rw [hbar]
  generalize agg.config.period = period at *
  generalize agg.config.calendar = cal at *
  simp only [List.mem_cons, List.not_mem_nil, or_false] at hcal
  rcases hcal with rfl | rfl
  · have hid : (Xnys.xnys tz).id = Xnys.xnysId := rfl
    rw [Xnys.inHours_iff hmaps hvalid hwindow, hid]
    simp
  · have hid : CryptoSpot.cryptoSpot.id ≠ Xnys.xnysId := by decide
    exact iff_of_true (CryptoSpot.inHours hvalid hwindow) fun h => hid h.1

/-- The first trade of an aggregator. -/
def first (config : AggregatorConfig) (secs : ℤ) : Option (AggregatorOutput × SessionedBarAggregator) :=
  SessionedBarAggregator.acceptTick ⟨config, none, none⟩ (tradeAt secs 190 1) (readingAt secs)

/-- A trade at 15:00 UTC, in regular hours. -/
theorem folded_in_hours_at_ten : ∃ out agg, first daily 1705503600 = some (out, agg) ∧ out ≠ .ignored ∧
    ((∃ inp, agg.current = some inp ∧
        InHours daily.calendar daily.period (Instant.ofTimestamp 1705503600) inp.window) ↔
      ¬ (daily.calendar.id = Xnys.xnysId ∧
        OutOfHours daily.calendar daily.period (Instant.ofTimestamp 1705503600))) := by
  have hne : (first daily 1705503600).map (fun r => decide (r.1 = .ignored)) = some false := by
    decide +kernel
  obtain ⟨⟨out, agg⟩, hout, hne⟩ := Option.map_eq_some_iff.mp hne
  have hne : out ≠ .ignored := of_decide_eq_false hne
  exact ⟨out, agg, hout, hne, @folded_in_hours_iff Xnys.easternStandard
    Xnys.mapsSessionTimes_easternStandard ⟨daily, none, none⟩ agg (by simp [daily, hourly]) rfl _ _ out
    hout hne⟩

/-- A trade five minutes after the close is folded into the bar of the regular hours before. -/
theorem trade_after_hours_folded : ∃ out agg inp, first daily 1705525500 = some (out, agg) ∧
    out ≠ .ignored ∧ agg.current = some inp ∧
      ¬ InHours daily.calendar daily.period (Instant.ofTimestamp 1705525500) inp.window := by
  have hcloses : (first daily 1705525500).bind (fun r => r.2.current.map fun inp =>
      (decide (r.1 = .ignored), inp.window.closes)) = some (false, Instant.ofTimestamp 1705525200) := by
    decide +kernel
  obtain ⟨⟨out, agg⟩, hout, hcloses⟩ := Option.bind_eq_some_iff.mp hcloses
  obtain ⟨inp, hinp, hcloses⟩ := Option.map_eq_some_iff.mp hcloses
  obtain ⟨hne, hcloses⟩ := Prod.mk.inj hcloses
  refine ⟨out, agg, inp, hout, of_decide_eq_false hne, hinp, fun hin => ?_⟩
  have hlt := hin.2.1
  rw [hcloses, Instant.ofTimestamp_lt_ofTimestamp] at hlt
  omega

end Midas.BarsAdapter
