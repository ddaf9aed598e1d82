import HandOfMidas.Stream.Core

/-! `HistoryThenLive` (`history_then_live.rs`): the history, then the live candles from its last one
    on. -/

namespace Midas.Stream

open Calendar Bars BarStream

structure HistoryThenLive (H L : Type) where
  streamMeta : BarStreamMeta
  history : Option H
  live : L
  handoffTs : Option Instant

/-- Does the candle open before the seam? -/
def stale (seam : Option Instant) (c : Candle) : Bool := seam.any fun seam => c.window.opens < seam

theorem stale_some {seam : Instant} {c : Candle} : stale (some seam) c = true ↔ c.tsOpen < seam := by
  simp [stale, Candle.tsOpen]

/-- The loop of `next` on the live side. It ends within as many rounds as candles are ahead, and one. -/
def firstFresh {L : Type} [BarStream L] (seam : Option Instant) : ℕ → L → Option Candle × L
  | 0, live => (none, live)
  | fuel + 1, live =>
    match BarStream.next live with
    | (none, live) => (none, live)
    | (some c, live) => if stale seam c then firstFresh seam fuel live else (some c, live)

/-- The live candles that get over the seam, which moves with each of them. -/
def onward : Option Instant → List Candle → List Candle
  | _, [] => []
  | seam, c :: cs => if stale seam c then onward seam cs else c :: onward (some c.tsOpen) cs

namespace HistoryThenLive

variable {H L : Type} [SeekableBarStream H] [BarStream L]

/-- `HistoryThenLive::new`. -/
def new (m : BarStreamMeta) (history : H) (live : L) : HistoryThenLive H L :=
  ⟨m, some history, live, none⟩

/-- `try_seek`. -/
def trySeek (s : HistoryThenLive H L) (ts : Instant) : Except StreamError (HistoryThenLive H L) :=
  match s.history with
  | some h => (SeekableBarStream.seek h ts).map fun h => { s with history := some h }
  | none => .error .notSeekable

/-- `next` once history is drained. -/
def nextLive (s : HistoryThenLive H L) : Option Candle × HistoryThenLive H L :=
  match firstFresh s.handoffTs ((ahead s.live).length + 1) s.live with
  | (none, live) => (none, { s with live })
  | (some c, live) => (some c, { s with live, handoffTs := some c.window.opens })

/-- `next`. -/
def next (s : HistoryThenLive H L) : Option Candle × HistoryThenLive H L :=
  match s.history with
  | none => s.nextLive
  | some h =>
    match BarStream.next h with
    | (some c, h) => (some c, { s with history := some h, handoffTs := some c.window.opens })
    | (none, _) => nextLive { s with history := none }

/-- `snapshot`. -/
def snapshot (s : HistoryThenLive H L) (range : TimeRange) : Except StreamError (List Candle) :=
  match s.history with
  | none => BarStream.snapshot s.live range
  | some h =>
    match s.handoffTs with
    | none => BarStream.snapshot h range
    | some seam =>
      if range.tsTo ≤ seam then BarStream.snapshot h range
      else do
        let bars ← BarStream.snapshot h range
        let fwdRange := (TimeRange.new seam range.tsTo).getD ⟨seam, seam, le_rfl⟩
        match BarStream.snapshot s.live fwdRange with
        | .ok liveBars =>
          let liveBars := liveBars.filter fun c => c.window.opens ≥ seam
          let refreshed := liveBars.head?.any (fun c => c.window.opens = seam) &&
            bars.getLast?.any fun c => c.window.opens = seam
          let bars := if refreshed then bars.dropLast else bars
          .ok (bars ++ liveBars)
        | .error .notSeekable => .ok bars
        | .error e => .error e

end HistoryThenLive

/-! ### What is handed out -/

/-- The seam after these candles. -/
def seamAfter : Option Instant → List Candle → Option Instant
  | seam, [] => seam
  | _, c :: cs => seamAfter (some c.tsOpen) cs

theorem onward_dropWhile (seam : Option Instant) (cs : List Candle) :
    onward seam (cs.dropWhile (stale seam)) = onward seam cs := by
  induction cs with
  | nil => rfl
  | cons c cs ih =>
    by_cases hc : stale seam c = true
    · rw [List.dropWhile_cons_of_pos hc, ih, onward, if_pos hc]
    · rw [List.dropWhile_cons_of_neg hc]

/-- Candles over the seam are in order, and none opens before it. -/
theorem sorted_onward (seam : Option Instant) (cs : List Candle) :
    (onward seam cs).Pairwise (fun a b => a.tsOpen ≤ b.tsOpen) ∧
      ∀ c ∈ onward seam cs, ∀ t, seam = some t → t ≤ c.tsOpen := by
  induction cs generalizing seam with
  | nil => simp [onward]
  | cons c cs ih =>
    rw [onward]
    split
    · exact ih seam
    · rename_i hc
      obtain ⟨hsorted, hle⟩ := ih (some c.tsOpen)
      refine ⟨List.pairwise_cons.mpr ⟨fun b hb => hle b hb _ rfl, hsorted⟩, ?_⟩
      rintro b hb t rfl
      have htc : t ≤ c.tsOpen := not_lt.mp fun hlt => hc (stale_some.mpr hlt)
      rcases List.mem_cons.mp hb with rfl | hb
      · exact htc
      · exact htc.trans (hle b hb _ rfl)

/-- Candles in order leave a seam, and open no later. -/
theorem le_seamAfter (seam : Option Instant) {cs : List Candle}
    (h : cs.Pairwise fun a b => a.tsOpen ≤ b.tsOpen) :
    ∀ c ∈ cs, ∃ t, seamAfter seam cs = some t ∧ c.tsOpen ≤ t := by
  induction cs generalizing seam with
  | nil => simp
  | cons a cs ih =>
    obtain ⟨ha, hcs⟩ := List.pairwise_cons.mp h
    intro c hc
    rcases List.mem_cons.mp hc with rfl | hc
    · cases cs with
      | nil => exact ⟨c.tsOpen, rfl, le_rfl⟩
      | cons b cs =>
        obtain ⟨t, ht, hle⟩ := ih (some c.tsOpen) hcs b List.mem_cons_self
        exact ⟨t, ht, (ha b List.mem_cons_self).trans hle⟩
    · exact ih _ hcs c hc

/-- A seam is the open of a candle, or the one there was before. -/
theorem mem_of_seamAfter {seam : Option Instant} {cs : List Candle} {t : Instant}
    (h : seamAfter seam cs = some t) : seam = some t ∨ ∃ c ∈ cs, c.tsOpen = t := by
  induction cs generalizing seam with
  | nil => exact Or.inl h
  | cons a cs ih =>
    rcases ih h with ha | ⟨c, hc, hct⟩
    · exact Or.inr ⟨a, List.mem_cons_self, Option.some.inj ha⟩
    · exact Or.inr ⟨c, List.mem_cons_of_mem _ hc, hct⟩

theorem seamAfter_le_iff {cs : List Candle} (h : cs.Pairwise fun a b => a.tsOpen ≤ b.tsOpen)
    (x : Instant) :
    (∀ t, seamAfter none cs = some t → t ≤ x) ↔ ∀ c ∈ cs, c.tsOpen ≤ x := by
  constructor
  · intro hx c hc
    obtain ⟨t, ht, hle⟩ := le_seamAfter none h c hc
    exact hle.trans (hx t ht)
  · intro hx t ht
    rcases mem_of_seamAfter ht with hnone | ⟨c, hc, rfl⟩
    · cases hnone
    · exact hx c hc

section Fresh

variable {L : Type} [BarStream L]

theorem firstFresh_spec (seam : Option Instant) {fuel : ℕ} {live : L}
    (hfuel : (ahead live).length < fuel) :
    (firstFresh seam fuel live).1 = ((ahead live).dropWhile (stale seam)).head? ∧
      ahead (firstFresh seam fuel live).2 = ((ahead live).dropWhile (stale seam)).tail := by
  induction fuel generalizing live with
  | zero => omega
  | succ fuel ih =>
    cases h : ahead live with
    | nil =>
      have hfst := next_nil h
      have hsnd := ahead_next live
      rcases hnext : BarStream.next live with ⟨c, live'⟩
      rw [hnext] at hfst hsnd
      subst hfst
      simp [firstFresh, hnext, hsnd, h]
    | cons c cs =>
      obtain ⟨live', hnext, rfl⟩ := next_cons h
      rw [h, List.length_cons] at hfuel
      by_cases hc : stale seam c = true
      · rw [List.dropWhile_cons_of_pos hc]
        simpa [firstFresh, hnext, hc] using @ih live' (by omega)
      · rw [List.dropWhile_cons_of_neg hc]
        simp [firstFresh, hnext, hc]

end Fresh

namespace HistoryThenLive

section Ahead

variable {H L : Type} [SeekableBarStream H] [BarStream L]

/-- What history still has, then the live candles over the seam. -/
def ahead (s : HistoryThenLive H L) : List Candle :=
  let rest := s.history.elim [] BarStream.ahead
  rest ++ onward (seamAfter s.handoffTs rest) (BarStream.ahead s.live)

omit [SeekableBarStream H] in
theorem nextLive_spec (s : HistoryThenLive H L) :
    s.nextLive.1 = (onward s.handoffTs (BarStream.ahead s.live)).head? ∧
      s.nextLive.2.history = s.history ∧
      onward s.nextLive.2.handoffTs (BarStream.ahead s.nextLive.2.live) =
        (onward s.handoffTs (BarStream.ahead s.live)).tail := by
  obtain ⟨hfst, hsnd⟩ := firstFresh_spec s.handoffTs (Nat.lt_succ_self (BarStream.ahead s.live).length)
  rw [← onward_dropWhile]
  unfold nextLive
  rcases hfresh : firstFresh s.handoffTs ((BarStream.ahead s.live).length + 1) s.live with ⟨c, live⟩
  rw [hfresh] at hfst hsnd
  cases hrest : (BarStream.ahead s.live).dropWhile (stale s.handoffTs) with
  | nil =>
    rw [hrest] at hfst hsnd
    simp only at hfst hsnd
    subst hfst
    simp [hsnd, onward]
  | cons c' cs =>
    rw [hrest] at hfst hsnd
    simp only at hfst hsnd
    subst hfst
    have hc : ¬ stale s.handoffTs c' = true := by
      have hnot := List.head?_dropWhile_not (stale s.handoffTs) (BarStream.ahead s.live)
      rw [hrest, List.head?_cons] at hnot
      simpa using hnot
    simp [hsnd, onward, hc, Candle.tsOpen]

theorem next_spec (s : HistoryThenLive H L) :
    s.next.1 = s.ahead.head? ∧ s.next.2.ahead = s.ahead.tail := by
  cases hh : s.history with
  | none =>
    obtain ⟨hfst, hhist, hsnd⟩ := nextLive_spec s
    have hahead : s.ahead = onward s.handoffTs (BarStream.ahead s.live) := by simp [ahead, hh,
      seamAfter]
    have hnext : s.next.2.ahead = onward s.nextLive.2.handoffTs
        (BarStream.ahead s.nextLive.2.live) := by
      simp [next, ahead, hh, hhist, seamAfter]
    rw [hahead, hnext, hsnd]
    exact ⟨by simp [next, hh, hfst], rfl⟩
  | some h =>
    cases hrest : BarStream.ahead h with
    | nil =>
      have hnone := next_nil hrest
      rcases hnext : BarStream.next h with ⟨c, h'⟩
      rw [hnext] at hnone
      subst hnone
      obtain ⟨hfst, hhist, hsnd⟩ := nextLive_spec ({ s with history := none } : HistoryThenLive H L)
      have hahead : s.ahead = onward s.handoffTs (BarStream.ahead s.live) := by
        simp [ahead, hh, hrest, seamAfter]
      have hstep : s.next = nextLive { s with history := none } := by simp [next, hh, hnext]
      rw [hstep, hahead]
      refine ⟨hfst, ?_⟩
      simpa [ahead, hhist, seamAfter] using hsnd
    | cons c cs =>
      obtain ⟨h', hnext, rfl⟩ := next_cons hrest
      have hstep : s.next = (some c, { s with history := some h', handoffTs := some c.tsOpen }) := by
        simp [next, hh, hnext, Candle.tsOpen]
      rw [hstep]
      simp [ahead, hh, hrest, seamAfter]

instance : BarStream (HistoryThenLive H L) where
  streamMeta := HistoryThenLive.streamMeta
  next := next
  snapshot := snapshot
  ahead := ahead
  next_fst s := (next_spec s).1
  ahead_next s := (next_spec s).2

end Ahead

end HistoryThenLive

end Midas.Stream
