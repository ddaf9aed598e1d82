import HandOfMidas.Core.Bar
import Mathlib.Data.List.Chain

/-! The seam of history and live bars (`router/history_seam.rs`, `GuardedStream` of
    `router/handle.rs`): the bars of one history request, then the live bars that open after its end. -/

namespace Midas.MarketData.Seam

/-- `HistoricalBarsResult`. -/
structure HistoricalBarsResult where
  bars : List Bar
  firstTs : Instant
  lastTs : Instant

/-- What a broadcast receiver yields: a bar, or that it fell behind. -/
inductive Item where
  | bar (b : Bar)
  | lagged (n : ℕ)

/-- `GuardedStream`: the bars up to the first lag, which closes the stream. -/
def guardedStream : List Item → List Bar
  | [] => []
  | .bar b :: items => b :: guardedStream items
  | .lagged _ :: _ => []

/-- `history_then_live_impl`: subscribe first, then fetch, then chain. `subscribe` is what the live
    handle will receive. -/
def historyThenLive {ε : Type*} (subscribe : Except ε (List Item)) (resolve : Except ε Int32)
    (historicalBars : Int32 → Except ε HistoricalBarsResult) : Except ε (List Bar) := do
  let live ← subscribe
  let conId ← resolve
  let hist ← historicalBars conId
  let tServer := hist.lastTs
  pure (hist.bars ++ (guardedStream live).filter fun bar => tServer < bar.tsOpen)

/-- Each bar opens where the one before closes. -/
def Contiguous (bars : List Bar) : Prop := bars.IsChain fun a b => a.tsClose = b.tsOpen

/-- Every bar is `secs` seconds long. -/
def OfLength (secs : ℕ) (bars : List Bar) : Prop :=
  ∀ b ∈ bars, b.tsClose = b.tsOpen + Instant.ofTimestamp secs

instance (bars : List Bar) : Decidable (Contiguous bars) :=
  inferInstanceAs (Decidable (bars.IsChain fun a b => a.tsClose = b.tsOpen))

instance (secs : ℕ) (bars : List Bar) : Decidable (OfLength secs bars) :=
  inferInstanceAs (Decidable (∀ b ∈ bars, b.tsClose = b.tsOpen + Instant.ofTimestamp secs))

/-- An answer of the provider: consecutive bars of the timeframe, and the close of the last one. -/
structure Answers (tf : Timeframe) (hist : HistoricalBarsResult) : Prop where
  contiguous : Contiguous hist.bars
  length : OfLength tf.asSecs hist.bars
  first : hist.bars.head?.map Bar.tsOpen = some hist.firstTs
  last : hist.bars.getLast?.map Bar.tsClose = some hist.lastTs

/-- A feed of 5-second bars. -/
structure Feed (live : List Bar) : Prop where
  contiguous : Contiguous live
  length : OfLength 5 live

/-- Does the window of the bar have the instant `t` in it? -/
def covers (t : Instant) (b : Bar) : Bool := b.tsOpen ≤ t && t < b.tsClose

/-- The bars cover every instant from `start` to the end of history and of the last live bar exactly
    once. -/
def Seamless (hist : HistoricalBarsResult) (live stream : List Bar) : Prop :=
  ∀ t, hist.firstTs ≤ t → (t < hist.lastTs ∨ ∃ b ∈ live, t < b.tsClose) →
    stream.countP (covers t) = 1

theorem guardedStream_bars (live : List Bar) : guardedStream (live.map .bar) = live := by
  induction live with
  | nil => rfl
  | cons b live ih => rw [List.map_cons, guardedStream, ih]

/-- A bar that has a length is not empty. -/
theorem OfLength.lt {secs : ℕ} (hsecs : 0 < secs) {bars : List Bar} (h : OfLength secs bars) {b : Bar}
    (hb : b ∈ bars) : b.tsOpen < b.tsClose := by
  rw [h b hb]
  have hpos : 0 < Instant.ofTimestamp secs :=
    Int.mul_pos (Int.natCast_pos.mpr hsecs) (by decide)
  exact lt_add_of_pos_right _ hpos

/-- Consecutive bars stay between their two ends. -/
theorem bounds_of_contiguous {secs : ℕ} (hsecs : 0 < secs) : ∀ {bars : List Bar} {first last : Instant},
    Contiguous bars → OfLength secs bars → bars.head?.map Bar.tsOpen = some first →
      bars.getLast?.map Bar.tsClose = some last → ∀ b ∈ bars, first ≤ b.tsOpen ∧ b.tsClose ≤ last
  | [], _, _, _, _, hfirst, _ => by cases hfirst
  | [a], first, last, _, _, hfirst, hlast => by
    cases hfirst
    cases hlast
    intro b hb
    rw [List.mem_singleton.mp hb]
    exact ⟨le_rfl, le_rfl⟩
  | a :: b :: bars, first, last, hchain, hlen, hfirst, hlast => by
    cases hfirst
    obtain ⟨hab, hchain⟩ := List.isChain_cons_cons.mp hchain
    have hlast' : (b :: bars).getLast?.map Bar.tsClose = some last := by simpa using hlast
    have hrec := bounds_of_contiguous hsecs hchain (fun x hx => hlen x (List.mem_cons_of_mem a hx))
      rfl hlast'
    have ha := OfLength.lt hsecs hlen List.mem_cons_self
    intro x hx
    rcases List.mem_cons.mp hx with rfl | hx
    · have := hrec b List.mem_cons_self
      have hb := OfLength.lt hsecs hlen (List.mem_cons_of_mem x List.mem_cons_self)
      exact ⟨le_rfl, by rw [hab]; exact hb.le.trans this.2⟩
    · exact ⟨by rw [← hab] at hrec; exact ha.le.trans (hrec x hx).1, (hrec x hx).2⟩

/-- Consecutive bars cover what lies between their two ends exactly once. -/
theorem countP_covers_of_contiguous {secs : ℕ} (hsecs : 0 < secs) :
    ∀ {bars : List Bar} {first last : Instant}, Contiguous bars → OfLength secs bars →
      bars.head?.map Bar.tsOpen = some first → bars.getLast?.map Bar.tsClose = some last →
        ∀ t, first ≤ t → t < last → bars.countP (covers t) = 1
  | [], _, _, _, _, hfirst, _ => by cases hfirst
  | [a], first, last, _, _, hfirst, hlast => by
    cases hfirst
    intro t hle hlt
    have hclose : a.tsClose = last := Option.some.inj hlast
    simp [covers, hle, hclose, hlt]
  | a :: b :: bars, first, last, hchain, hlen, hfirst, hlast => by
    cases hfirst
    obtain ⟨hab, hchain⟩ := List.isChain_cons_cons.mp hchain
    have hlen' : OfLength secs (b :: bars) := fun x hx => hlen x (List.mem_cons_of_mem a hx)
    have hlast' : (b :: bars).getLast?.map Bar.tsClose = some last := by simpa using hlast
    intro t hle hlt
    rw [List.countP_cons]
    by_cases hta : t < a.tsClose
    · -- the later bars open no earlier than the first one closes
      have hnone : (b :: bars).countP (covers t) = 0 := by
        rw [List.countP_eq_zero]
        intro x hx hcov
        have hbound := (bounds_of_contiguous hsecs hchain hlen' rfl hlast' x hx).1
        simp only [covers, Bool.and_eq_true, decide_eq_true_eq] at hcov
        exact absurd (hta.trans_le (hab.trans_le hbound)) (not_lt.mpr hcov.1)
      have hcov : covers t a = true := by simp [covers, hle, hta]
      rw [hnone, hcov]
      rfl
    · have hcov : covers t a = false := by simp [covers, hta]
      have hle' : b.tsOpen ≤ t := hab ▸ not_lt.mp hta
      rw [hcov, countP_covers_of_contiguous hsecs hchain hlen' rfl hlast' t hle' hlt]
      rfl

/-- Whatever the feed, the timeframe and the moment at which history is answered, the stream is
    seamless exactly when no live bar ends after history does. -/
theorem seamless_iff {ε : Type*} (tf : Timeframe) (live : List Bar) (conId : Int32)
    (historicalBars : Int32 → Except ε HistoricalBarsResult) (hist : HistoricalBarsResult)
    (hfeed : Feed live) (hhist : historicalBars conId = .ok hist) (hanswer : Answers tf hist) :
    ∃ stream, historyThenLive (.ok (live.map .bar)) (.ok conId) historicalBars = .ok stream ∧
      (Seamless hist live stream ↔ ∀ b ∈ live, b.tsClose ≤ hist.lastTs) := by
  have hbounds := bounds_of_contiguous tf.asSecs_pos hanswer.contiguous hanswer.length hanswer.first
    hanswer.last
  refine ⟨hist.bars ++ live.filter fun bar => hist.lastTs < bar.tsOpen, ?_, ?_, ?_⟩
  · show (historicalBars conId >>= fun hist => pure (hist.bars ++
      (guardedStream (live.map .bar)).filter fun bar => hist.lastTs < bar.tsOpen)) = _
    rw [hhist, guardedStream_bars]
    rfl
  · -- nothing covers the end of history: its bars end there, and the live ones kept open later
    intro h b hb
    by_contra hlate
    have hfirst : hist.firstTs ≤ hist.lastTs := by
      obtain ⟨a, ha, hopen⟩ := Option.map_eq_some_iff.mp hanswer.first
      have hmem := List.mem_of_mem_head? ha
      have hbound := hbounds a hmem
      exact (hbound.1.trans (hanswer.length.lt tf.asSecs_pos hmem).le).trans hbound.2
    have hcount := h hist.lastTs hfirst (Or.inr ⟨b, hb, not_le.mp hlate⟩)
    rw [List.countP_append] at hcount
    have hnone : hist.bars.countP (covers hist.lastTs) = 0 := by
      rw [List.countP_eq_zero]
      intro x hx hcov
      have hbound := (hbounds x hx).2
      simp only [covers, Bool.and_eq_true, decide_eq_true_eq] at hcov
      exact absurd hcov.2 (not_lt.mpr hbound)
    have hnone' : (live.filter fun bar => hist.lastTs < bar.tsOpen).countP
        (covers hist.lastTs) = 0 := by
      rw [List.countP_eq_zero]
      intro x hx hcov
      have hlater := (List.mem_filter.mp hx).2
      simp only [covers, Bool.and_eq_true, decide_eq_true_eq] at hcov hlater
      exact absurd hcov.1 (not_le.mpr hlater)
    rw [hnone, hnone'] at hcount
    exact absurd hcount (by decide)
  · intro h t hle hlt
    have hnil : (live.filter fun bar => hist.lastTs < bar.tsOpen) = [] := by
      rw [List.filter_eq_nil_iff]
      intro x hx hlater
      have hopen := hfeed.length.lt (by decide) hx
      have hclose := h x hx
      simp only [decide_eq_true_eq] at hlater
      exact absurd (hlater.trans (hopen.trans_le hclose)) (lt_irrefl _)
    have hlt' : t < hist.lastTs := by
      rcases hlt with hlt | ⟨b, hb, hlt⟩
      · exact hlt
      · exact hlt.trans_le (h b hb)
    rw [hnil, List.append_nil]
    exact countP_covers_of_contiguous tf.asSecs_pos hanswer.contiguous hanswer.length hanswer.first
      hanswer.last t hle hlt'

/-- A flat bar from `open` seconds to `close` seconds. -/
def flatBar (tf : Timeframe) (tsOpen tsClose : ℤ) : Bar :=
  ⟨⟨265598, "AAPL"⟩, tf, Instant.ofTimestamp tsOpen, Instant.ofTimestamp tsClose, 10, 10, 10, 10, 100, 1,
    none, .completed⟩

/-- Two minutes of history. -/
def twoMinutes : HistoricalBarsResult :=
  ⟨[flatBar .m1 0 60, flatBar .m1 60 120], 0, Instant.ofTimestamp 120⟩

theorem answers_twoMinutes : Answers .m1 twoMinutes :=
  ⟨by decide +kernel, by decide +kernel, by decide +kernel, by decide +kernel⟩

/-- A bar that the feed delivered while history was fetched is in history already. -/
theorem seamless_while_fetching :
    ∃ stream, historyThenLive (ε := String) (.ok ([flatBar .s5 110 115, flatBar .s5 115 120].map .bar))
        (.ok 1) (fun _ => .ok twoMinutes) = .ok stream ∧
      (Seamless twoMinutes [flatBar .s5 110 115, flatBar .s5 115 120] stream ↔
        ∀ b ∈ [flatBar .s5 110 115, flatBar .s5 115 120], b.tsClose ≤ twoMinutes.lastTs) :=
  seamless_iff .m1 _ 1 _ _ ⟨by decide +kernel, by decide +kernel⟩ rfl answers_twoMinutes

/-- The live bar that opens where history ends is dropped. -/
theorem boundary_bar_dropped : ¬ ∀ (tf : Timeframe) (live : List Bar) (hist : HistoricalBarsResult)
    (stream : List Bar), Feed live → Answers tf hist →
      historyThenLive (ε := String) (.ok (live.map .bar)) (.ok 1) (fun _ => .ok hist) = .ok stream →
        Seamless hist live stream := by
  intro h
  have hseam := h .m1 [flatBar .s5 120 125, flatBar .s5 125 130] twoMinutes _
    ⟨by decide +kernel, by decide +kernel⟩ answers_twoMinutes rfl
  have hcount := hseam (Instant.ofTimestamp 120) (by decide +kernel)
    (Or.inr ⟨flatBar .s5 120 125, by simp, by decide +kernel⟩)
  revert hcount
  decide +kernel

end Midas.MarketData.Seam
