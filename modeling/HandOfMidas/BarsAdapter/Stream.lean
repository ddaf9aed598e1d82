import HandOfMidas.BarsAdapter.Runs

/-! The stream over the aggregator (`aggregator/stream.rs`): ticks wait in a channel, and a rollover is
    handed out over two calls of `next`. -/

namespace Midas.BarsAdapter

open Bars

/-- `SessionedBarStream`. A tick in the channel stands with what the clock will say when it is taken.
    `answers` is not in the source: what `accept_tick` has answered so far. -/
structure SessionedBarStream where
  agg : SessionedBarAggregator
  rx : List (Tick × Reading)
  pending : List Candle
  answers : List AggregatorOutput

namespace SessionedBarStream

/-- `SessionedBarStream::new`. -/
def new (agg : SessionedBarAggregator) : SessionedBarStream := ⟨agg, [], [], []⟩

/-- The loop of `next`: ticks are taken until one has a candle. Without one the call waits. -/
def receive (agg : SessionedBarAggregator) (answers : List AggregatorOutput) :
    List (Tick × Reading) → Option (Option Candle × SessionedBarStream)
  | [] => some (none, ⟨agg, [], [], answers⟩)
  | (tick, clock) :: rx => do
    let (out, agg) ← agg.acceptTick tick clock
    let answers := answers ++ [out]
    match out with
    | .ignored => receive agg answers rx
    | .folded => receive agg answers rx
    | .opened c => some (some c, ⟨agg, rx, [], answers⟩)
    | .partialBar c => some (some c, ⟨agg, rx, [], answers⟩)
    | .closed c => some (some c, ⟨agg, rx, [], answers⟩)
    | .rollover prev opened => some (some prev, ⟨agg, rx, [opened], answers⟩)

/-- `next`. -/
def next (s : SessionedBarStream) : Option (Option Candle × SessionedBarStream) :=
  match s.pending with
  | c :: pending => some (some c, { s with pending })
  | [] => receive s.agg s.answers s.rx

end SessionedBarStream

/-- What happens to a stream: a tick is sent, the consumer calls `next`, or it flushes the aggregator. -/
inductive StreamCall where
  | send (tick : Tick) (clock : Reading)
  | next
  | flush (clock : Reading)

/-- A stream, what was sent into it, and the candles that `next` has yielded. -/
structure Delivery where
  stream : SessionedBarStream
  sent : List (Tick × Reading)
  delivered : List Candle

def Delivery.call (d : Delivery) : StreamCall → Option Delivery
  | .send tick clock =>
    some ⟨{ d.stream with rx := d.stream.rx ++ [(tick, clock)] }, d.sent ++ [(tick, clock)], d.delivered⟩
  | .next => do
    let (c, stream) ← d.stream.next
    some ⟨stream, d.sent, d.delivered ++ c.toList⟩
  | .flush clock => do
    let (_, agg) ← d.stream.agg.flushIfDue clock
    some { d with stream := { d.stream with agg } }

/-- The delivery after the calls, unless one panicked. -/
def runStream (agg : SessionedBarAggregator) (calls : List StreamCall) : Option Delivery :=
  run (fun d call => d.bind fun d => d.call call) (some ⟨.new agg, [], []⟩) calls

/-- The candles of an output, as `next` yields them. -/
def AggregatorOutput.candles : AggregatorOutput → List Candle
  | .opened c => [c]
  | .partialBar c => [c]
  | .closed c => [c]
  | .rollover prev new => [prev, new]
  | _ => []

/-- The candles that `accept_tick` answered are those that were yielded and, in order, those that wait:
    a bar that a rollover opened. -/
structure Delivered (d : Delivery) : Prop where
  inOrder : d.delivered ++ d.stream.pending = d.stream.answers.flatMap AggregatorOutput.candles
  pending : ∀ c ∈ d.stream.pending, c.completeness = .partialBar
  completed : ∀ out ∈ d.stream.answers,
    out.candles.filter (fun c => c.completeness = .completed) = out.completed

/-- An answer of `accept_tick` is completed only as far as it closes a bar. -/
theorem completed_of_acceptTick {agg agg' : SessionedBarAggregator} {tick : Tick} {clock : Reading}
    {out : AggregatorOutput} (h : agg.acceptTick tick clock = some (out, agg')) :
    out.candles.filter (fun c => c.completeness = .completed) = out.completed := by
  rcases acceptTick_cases h with ⟨-, rfl, -⟩ | ⟨window, price, size, inp', -, -, -, htook⟩
  · rfl
  · generalize agg.current = current at htook
    cases htook with
    | opened hcal => rfl
    | folded h => rfl
    | partialBar h => rfl
    | rollover h hcal => rfl

theorem opened_of_rollover {agg agg' : SessionedBarAggregator} {tick : Tick} {clock : Reading}
    {prev opened : Candle} (h : agg.acceptTick tick clock = some (.rollover prev opened, agg')) :
    opened.completeness = .partialBar := by
  rcases acceptTick_cases h with ⟨-, hout, -⟩ | ⟨window, price, size, inp', -, -, -, htook⟩
  · cases hout
  · generalize agg.current = current at htook
    cases htook
    rfl

/-- Taking ticks out of the channel keeps the order. -/
theorem receive_delivered : ∀ {rx : List (Tick × Reading)} {agg : SessionedBarAggregator}
    {answers : List AggregatorOutput} {sent : List (Tick × Reading)} {delivered : List Candle}
    {c : Option Candle} {s : SessionedBarStream},
    SessionedBarStream.receive agg answers rx = some (c, s) →
      Delivered ⟨⟨agg, rx, [], answers⟩, sent, delivered⟩ → Delivered ⟨s, sent, delivered ++ c.toList⟩
  | [], agg, answers, sent, delivered, c, s, h, hd => by
    obtain ⟨rfl, rfl⟩ := Prod.mk.inj (Option.some.inj h)
    simpa using hd
  | (tick, clock) :: rx, agg, answers, sent, delivered, c, s, h, hd => by
    rw [SessionedBarStream.receive] at h
    obtain ⟨⟨out, agg'⟩, hout, h⟩ := Option.bind_eq_some_iff.mp h
    have hcompleted := completed_of_acceptTick hout
    have hanswers : ∀ o ∈ answers ++ [out],
        o.candles.filter (fun c => c.completeness = .completed) = o.completed := by
      intro o ho
      rcases List.mem_append.mp ho with ho | ho
      · exact hd.completed o ho
      · rw [List.mem_singleton.mp ho]
        exact hcompleted
    have hflat : (answers ++ [out]).flatMap AggregatorOutput.candles = delivered ++ out.candles := by
      have := hd.inOrder
      simp only [List.append_nil] at this
      rw [List.flatMap_append, ← this]
      simp
    cases out with
    | ignored => exact receive_delivered h ⟨hflat.symm, by simp, hanswers⟩
    | folded => exact receive_delivered h ⟨hflat.symm, by simp, hanswers⟩
    | opened c =>
      obtain ⟨rfl, rfl⟩ := Prod.mk.inj (Option.some.inj h)
      exact ⟨by simpa [AggregatorOutput.candles] using hflat.symm, by simp, hanswers⟩
    | partialBar c =>
      obtain ⟨rfl, rfl⟩ := Prod.mk.inj (Option.some.inj h)
      exact ⟨by simpa [AggregatorOutput.candles] using hflat.symm, by simp, hanswers⟩
    | closed c =>
      obtain ⟨rfl, rfl⟩ := Prod.mk.inj (Option.some.inj h)
      exact ⟨by simpa [AggregatorOutput.candles] using hflat.symm, by simp, hanswers⟩
    | rollover prev opened =>
      obtain ⟨rfl, rfl⟩ := Prod.mk.inj (Option.some.inj h)
      refine ⟨by simpa [AggregatorOutput.candles] using hflat.symm, fun c hc => ?_, hanswers⟩
      rw [List.mem_singleton.mp hc]
      exact opened_of_rollover hout

/-- Every call keeps what was delivered in order. -/
theorem call_delivered {d d' : Delivery} {call : StreamCall} (h : d.call call = some d')
    (hd : Delivered d) : Delivered d' := by
  cases call with
  | send tick clock =>
    rw [← Option.some.inj h]
    exact ⟨hd.inOrder, hd.pending, hd.completed⟩
  | next =>
    obtain ⟨⟨c, s⟩, hnext, h⟩ := Option.bind_eq_some_iff.mp h
    rw [← Option.some.inj h]
    unfold SessionedBarStream.next at hnext
    split at hnext
    · rename_i c' pending hpending
      obtain ⟨rfl, rfl⟩ := Prod.mk.inj (Option.some.inj hnext)
      have horder := hd.inOrder
      rw [hpending] at horder
      refine ⟨by simpa using horder, fun c hc => ?_, hd.completed⟩
      exact hd.pending c (by rw [hpending]; exact List.mem_cons_of_mem _ hc)
    · rename_i hpending
      refine receive_delivered hnext ⟨?_, by simp, hd.completed⟩
      rw [← hpending]
      exact hd.inOrder
  | flush clock =>
    obtain ⟨⟨c, agg⟩, hflush, h⟩ := Option.bind_eq_some_iff.mp h
    rw [← Option.some.inj h]
    exact ⟨hd.inOrder, hd.pending, hd.completed⟩

theorem runStream_delivered {agg : SessionedBarAggregator} (calls : List StreamCall) :
    ∀ d, runStream agg calls = some d → Delivered d := by
  refine inv_run (I := fun od : Option Delivery => ∀ d, od = some d → Delivered d) _ ?_ ?_ calls
  · intro od call h d' hd'
    obtain ⟨d, rfl, hcall⟩ := Option.bind_eq_some_iff.mp hd'
    exact call_delivered hcall (h d rfl)
  · intro d hd
    rw [← Option.some.inj hd]
    exact ⟨rfl, by simp [SessionedBarStream.new], by simp [SessionedBarStream.new]⟩

/-- The completed candles that were delivered are those that `accept_tick` closed. -/
theorem Delivered.filter {d : Delivery} (hd : Delivered d) :
    d.delivered.filter (fun c => c.completeness = .completed) =
      d.stream.answers.flatMap AggregatorOutput.completed := by
  have hpending : d.stream.pending.filter (fun c => c.completeness = .completed) = [] := by
    rw [List.filter_eq_nil_iff]
    intro c hc
    simp [hd.pending c hc]
  have hall : ∀ {answers : List AggregatorOutput},
      (∀ out ∈ answers, out.candles.filter (fun c => c.completeness = .completed) = out.completed) →
        (answers.flatMap AggregatorOutput.candles).filter (fun c => c.completeness = .completed) =
          answers.flatMap AggregatorOutput.completed := by
    intro answers h
    induction answers with
    | nil => rfl
    | cons out answers ih =>
      rw [List.flatMap_cons, List.flatMap_cons, List.filter_append, h out List.mem_cons_self,
        ih fun o ho => h o (List.mem_cons_of_mem out ho)]
  have horder := congrArg (List.filter fun c => c.completeness = .completed) hd.inOrder
  rw [List.filter_append, hpending, List.append_nil, hall hd.completed] at horder
  exact horder

end Midas.BarsAdapter
