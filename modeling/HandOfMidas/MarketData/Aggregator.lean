import HandOfMidas.Lib.Run
import HandOfMidas.Core.Bar
import Mathlib.Algebra.Order.BigOperators.Group.List

/-! The aggregator task (`aggregator/task.rs`): it folds the 5-second bars of one upstream into bars
    of a longer timeframe. A lag says only how many bars were lost; which ones is history that the
    events carry here. -/

namespace Midas.MarketData.Aggregator

/-- `ZERO_STREAK_AUTO_EXIT`. -/
def zeroStreakAutoExit : ℕ := 16

/-- `is_unsupported_tf`. -/
def isUnsupportedTf : Timeframe → Bool
  | .s1 | .h4 | .d1 | .w1 | .mn1 => true
  | _ => false

/-- `tf_to_duration`, in seconds. -/
def tfToDuration (tf : Timeframe) : ℤ := tf.asSecs

/-- `align_to_window`; `none` is the refusal of a timeframe without length. -/
def alignToWindow (ts : Instant) (tf : Timeframe) : Option Instant :=
  if tfToDuration tf ≤ 0 then none else some (alignDown (tfToDuration tf) ts)

theorem tfToDuration_pos (tf : Timeframe) : 0 < tfToDuration tf :=
  Int.natCast_pos.mpr tf.asSecs_pos

theorem alignToWindow_eq (ts : Instant) (tf : Timeframe) :
    alignToWindow ts tf = some (alignDown (tfToDuration tf) ts) :=
  if_neg (tfToDuration_pos tf).not_ge

/-- `u64::saturating_add`. -/
def saturatingAdd64 (a b : ℕ) : ℕ := min (a + b) (2 ^ 64 - 1)

/-- `u32::saturating_add`. -/
def saturatingAdd32 (a b : ℕ) : ℕ := min (a + b) (2 ^ 32 - 1)

/-- What wakes the loop: a bar of the upstream, a lag, the end of the upstream, or a coalesce tick
    with the number of receivers it finds. -/
inductive Event where
  | bar (b : Bar)
  | lagged (first : Bar) (rest : List Bar)
  | closed
  | tick (receivers : ℕ)

/-- The variables of the loop, what it has sent, and whether it has returned. -/
structure Loop where
  current : Option Bar
  dirty : Bool
  zeroStreak : ℕ
  lastBar : Option Bar
  sent : List Bar
  returned : Bool

def Loop.new : Loop := ⟨none, false, 0, none, [], false⟩

/-- Send a bar and keep it for snapshots. -/
def Loop.publish (bar : Bar) (s : Loop) : Loop :=
  { s with sent := s.sent ++ [bar], lastBar := some bar }

/-- Fold one more bar of the upstream into the open one. -/
def foldBar (bar rt : Bar) : Bar :=
  { bar with
    c := rt.c
    h := if bar.h < rt.h then rt.h else bar.h
    l := if rt.l < bar.l then rt.l else bar.l
    volume := saturatingAdd64 bar.volume rt.volume
    tradeCount := saturatingAdd32 bar.tradeCount rt.tradeCount
    wap := rt.wap
    completeness := .partialBar }

/-- A bar that opens with one bar of the upstream. -/
def openBar (tf : Timeframe) (windowOpen : Instant) (rt : Bar) : Bar :=
  { rt with
    timeframe := tf
    tsOpen := windowOpen
    tsClose := windowOpen + Instant.ofTimestamp (tfToDuration tf)
    completeness := .partialBar }

/-- Close the open bar, if there is one, and open the next. -/
def rollover (tf : Timeframe) (windowOpen : Instant) (rt : Bar) (s : Loop) : Loop :=
  let s :=
    match s.current with
    | some prev => s.publish { prev with completeness := .completed }
    | none => s
  { s with current := some (openBar tf windowOpen rt), dirty := true }

/-- A bar of the upstream arrives. -/
def onBar (tf : Timeframe) (rt : Bar) (s : Loop) : Loop :=
  match alignToWindow rt.tsOpen tf with
  | none => { s with returned := true }
  | some windowOpen =>
    match s.current with
    | some bar =>
      if bar.tsOpen = windowOpen then { s with current := some (foldBar bar rt), dirty := true }
      else rollover tf windowOpen rt s
    | none => rollover tf windowOpen rt s

/-- A coalesce tick, which the loop waits for only when there is news. -/
def onTick (receivers : ℕ) (s : Loop) : Loop :=
  if s.dirty then
    let s :=
      match s.current with
      | some bar => s.publish bar
      | none => s
    let s := { s with dirty := false }
    if receivers = 0 then
      let streak := saturatingAdd32 s.zeroStreak 1
      { s with zeroStreak := streak, returned := decide (zeroStreakAutoExit ≤ streak) }
    else { s with zeroStreak := 0 }
  else s

/-- `run_aggregator`, one turn of its loop. -/
def step (tf : Timeframe) (s : Loop) (event : Event) : Loop :=
  if s.returned then s
  else
    match event with
    | .bar rt => onBar tf rt s
    | .lagged _ _ => { s with current := none, dirty := false }
    | .closed => { s with returned := true }
    | .tick receivers => onTick receivers s

/-- `run_aggregator` over the events that reach it. -/
def runAggregator (tf : Timeframe) (events : List Event) : Loop := run (step tf) .new events

/-! ### What the source produced -/

/-- The bars that an event brings or loses. -/
def Event.bars : Event → List Bar
  | .bar b => [b]
  | .lagged first rest => first :: rest
  | _ => []

/-- The bars that an event loses. -/
def Event.lost : Event → List Bar
  | .lagged first rest => first :: rest
  | _ => []

/-- Every bar that the source produced, in order. -/
def produced (events : List Event) : List Bar := events.flatMap Event.bars

/-- Every bar that was lost to a lag. -/
def lost (events : List Event) : List Bar := events.flatMap Event.lost

/-- The window that a bar of the upstream belongs to. -/
def windowOf (tf : Timeframe) (b : Bar) : Instant := alignDown (tfToDuration tf) b.tsOpen

/-- The bars of one window. -/
def inWindow (tf : Timeframe) (window : Instant) (bars : List Bar) : List Bar :=
  bars.filter fun b => windowOf tf b = window

def completed (sent : List Bar) : List Bar := sent.filter fun b => b.completeness = .completed

/-- `bar` has the open, high, low, close, volume and trade count of `bars` taken together. -/
structure FoldOf (bars : List Bar) (bar : Bar) : Prop where
  o : bars.head?.map Bar.o = some bar.o
  c : bars.getLast?.map Bar.c = some bar.c
  h : bar.h ∈ bars.map Bar.h ∧ ∀ b ∈ bars, b.h ≤ bar.h
  l : bar.l ∈ bars.map Bar.l ∧ ∀ b ∈ bars, bar.l ≤ b.l
  volume : bar.volume = (bars.map Bar.volume).sum
  tradeCount : bar.tradeCount = (bars.map Bar.tradeCount).sum

/-- Completed bars come in order, at most one for a window, and each is the fold of all that the
    source produced in its window. -/
structure ExactFolds (tf : Timeframe) (events : List Event) (sent : List Bar) : Prop where
  increasing : ((completed sent).map Bar.tsOpen).Pairwise (· < ·)
  folds : ∀ bar ∈ completed sent, FoldOf (inWindow tf bar.tsOpen (produced events)) bar

/-- The source produces bars in order, and what falls into one window stays below the limits of the
    integer types. -/
structure Upstream (tf : Timeframe) (events : List Event) : Prop where
  increasing : (produced events).Pairwise fun a b => a.tsOpen < b.tsOpen
  volume : ∀ window, ((inWindow tf window (produced events)).map Bar.volume).sum < 2 ^ 64
  tradeCount : ∀ window, ((inWindow tf window (produced events)).map Bar.tradeCount).sum < 2 ^ 32

/-- No bar is delivered from a window that an earlier lag took bars from. -/
def Undamaged (tf : Timeframe) (events : List Event) : Prop :=
  ∀ pre b, pre ++ [.bar b] <+: events → ∀ x ∈ lost pre, windowOf tf x ≠ windowOf tf b

/-! ### One event more -/

variable {tf : Timeframe} {events : List Event} {event : Event}

@[simp] theorem produced_concat (events : List Event) (event : Event) :
    produced (events ++ [event]) = produced events ++ event.bars := by
  simp [produced]

@[simp] theorem lost_concat (events : List Event) (event : Event) :
    lost (events ++ [event]) = lost events ++ event.lost := by
  simp [lost]

theorem inWindow_append (tf : Timeframe) (window : Instant) (bars bars' : List Bar) :
    inWindow tf window (bars ++ bars') = inWindow tf window bars ++ inWindow tf window bars' :=
  List.filter_append ..

theorem inWindow_eq_nil {window : Instant} {bars : List Bar}
    (h : ∀ b ∈ bars, windowOf tf b ≠ window) : inWindow tf window bars = [] :=
  List.filter_eq_nil_iff.mpr fun b hb => by simpa using h b hb

theorem inWindow_self (tf : Timeframe) (b : Bar) : inWindow tf (windowOf tf b) [b] = [b] := by
  simp [inWindow]

theorem completed_append (sent sent' : List Bar) :
    completed (sent ++ sent') = completed sent ++ completed sent' :=
  List.filter_append ..

theorem windowOf_mono {a b : Bar} (h : a.tsOpen ≤ b.tsOpen) : windowOf tf a ≤ windowOf tf b :=
  alignDown_mono (tfToDuration_pos tf) h

/-- What is produced later belongs to no earlier window. -/
theorem Upstream.window_le (h : Upstream tf (events ++ [event])) {x y : Bar}
    (hx : x ∈ produced events) (hy : y ∈ event.bars) : windowOf tf x ≤ windowOf tf y := by
  have hincr := h.increasing
  rw [produced_concat, List.pairwise_append] at hincr
  exact windowOf_mono (hincr.2.2 x hx y hy).le

theorem Upstream.initial (h : Upstream tf (events ++ [event])) : Upstream tf events := by
  have hsub : ∀ window, (inWindow tf window (produced events)).Sublist
      (inWindow tf window (produced (events ++ [event]))) := by
    intro window
    rw [produced_concat, inWindow_append]
    exact List.sublist_append_left _ _
  refine ⟨?_, fun window => ?_, fun window => ?_⟩
  · have hincr := h.increasing
    rw [produced_concat, List.pairwise_append] at hincr
    exact hincr.1
  · exact ((hsub window).map _).sum_le_sum (fun _ _ => Nat.zero_le _) |>.trans_lt (h.volume window)
  · exact ((hsub window).map _).sum_le_sum (fun _ _ => Nat.zero_le _) |>.trans_lt
      (h.tradeCount window)

theorem Undamaged.initial (h : Undamaged tf (events ++ [event])) : Undamaged tf events :=
  fun pre b hpre => h pre b (hpre.trans (List.prefix_append events [event]))

/-! ### Folding -/

theorem foldOf_openBar (windowOpen : Instant) (rt : Bar) :
    FoldOf [rt] (openBar tf windowOpen rt) :=
  ⟨rfl, rfl, by simp [openBar], by simp [openBar], by simp [openBar], by simp [openBar]⟩

theorem foldOf_foldBar {bars : List Bar} {bar rt : Bar} (h : FoldOf bars bar)
    (hvolume : ((bars ++ [rt]).map Bar.volume).sum < 2 ^ 64)
    (htrades : ((bars ++ [rt]).map Bar.tradeCount).sum < 2 ^ 32) :
    FoldOf (bars ++ [rt]) (foldBar bar rt) := by
  have hne : bars ≠ [] := by
    rintro rfl
    exact Option.some_ne_none _ h.o.symm
  rw [List.map_append, List.sum_append, List.map_singleton, List.sum_singleton] at hvolume htrades
  have hhigh : (foldBar bar rt).h = max bar.h rt.h := by
    simp only [foldBar, max_def_lt]
  have hlow : (foldBar bar rt).l = min bar.l rt.l := by
    rw [min_comm]
    simp only [foldBar, min_def_lt]
  refine ⟨?_, ?_, ⟨?_, ?_⟩, ⟨?_, ?_⟩, ?_, ?_⟩
  · rw [List.head?_append_of_ne_nil _ hne]
    exact h.o
  · simp [foldBar]
  · rw [hhigh, List.map_append, List.mem_append]
    rcases max_choice bar.h rt.h with hm | hm
    · rw [hm]; exact Or.inl h.h.1
    · rw [hm]; exact Or.inr (by simp)
  · intro b hb
    rw [hhigh]
    rcases List.mem_append.mp hb with hb | hb
    · exact (h.h.2 b hb).trans (le_max_left _ _)
    · rw [List.mem_singleton.mp hb]; exact le_max_right _ _
  · rw [hlow, List.map_append, List.mem_append]
    rcases min_choice bar.l rt.l with hm | hm
    · rw [hm]; exact Or.inl h.l.1
    · rw [hm]; exact Or.inr (by simp)
  · intro b hb
    rw [hlow]
    rcases List.mem_append.mp hb with hb | hb
    · exact (min_le_left _ _).trans (h.l.2 b hb)
    · rw [List.mem_singleton.mp hb]; exact min_le_right _ _
  · show saturatingAdd64 bar.volume rt.volume = _
    rw [saturatingAdd64, h.volume, List.map_append, List.sum_append, List.map_singleton,
      List.sum_singleton]
    omega
  · show saturatingAdd32 bar.tradeCount rt.tradeCount = _
    rw [saturatingAdd32, h.tradeCount, List.map_append, List.sum_append, List.map_singleton,
      List.sum_singleton]
    omega

/-! ### The open bar and the history -/

/-- Completed bars are exact, and each was closed by a bar of a later window. -/
structure Closed (tf : Timeframe) (events : List Event) (sent : List Bar) : Prop
    extends ExactFolds tf events sent where
  passed : ∀ bar ∈ completed sent, ∃ x ∈ produced events, bar.tsOpen < windowOf tf x

/-- The open bar is the fold of all that was produced in its window, the last one so far. When no bar
    is open, whatever was produced lies no later than something lost. -/
def Open (tf : Timeframe) (events : List Event) : Option Bar → Prop
  | some bar =>
    bar.completeness = .partialBar ∧ FoldOf (inWindow tf bar.tsOpen (produced events)) bar ∧
      ∀ x ∈ produced events, windowOf tf x ≤ bar.tsOpen
  | none => ∀ x ∈ produced events, ∃ y ∈ lost events, windowOf tf x ≤ windowOf tf y

/-- What more is produced does not touch the windows of completed bars. -/
theorem Closed.grow {sent : List Bar} (h : Closed tf events sent)
    (hup : Upstream tf (events ++ [event])) : Closed tf (events ++ [event]) sent := by
  refine ⟨⟨h.increasing, fun bar hbar => ?_⟩, fun bar hbar => ?_⟩
  · obtain ⟨x, hx, hlt⟩ := h.passed bar hbar
    have hnil : inWindow tf bar.tsOpen event.bars = [] :=
      inWindow_eq_nil fun y hy => (hlt.trans_le (hup.window_le hx hy)).ne'
    rw [produced_concat, inWindow_append, hnil, List.append_nil]
    exact h.folds bar hbar
  · obtain ⟨x, hx, hlt⟩ := h.passed bar hbar
    exact ⟨x, by rw [produced_concat]; exact List.mem_append_left _ hx, hlt⟩

/-- A bar that is not completed changes nothing of what was completed. -/
theorem Closed.publish_unfinished {sent : List Bar} (h : Closed tf events sent) {bar : Bar}
    (hbar : bar.completeness = .partialBar) : Closed tf events (sent ++ [bar]) := by
  have hsame : completed (sent ++ [bar]) = completed sent := by
    rw [completed_append]
    simp [completed, hbar]
  exact ⟨⟨by rw [hsame]; exact h.increasing, by rw [hsame]; exact h.folds⟩,
    by rw [hsame]; exact h.passed⟩

/-- The open bar is completed by a bar of a later window. -/
theorem Closed.publish_completed {sent : List Bar} (h : Closed tf events sent) {bar x : Bar}
    (hfold : FoldOf (inWindow tf bar.tsOpen (produced events)) bar) (hx : x ∈ produced events)
    (hlt : bar.tsOpen < windowOf tf x)
    (hlater : ∀ b ∈ completed sent, b.tsOpen < bar.tsOpen) :
    Closed tf events (sent ++ [{ bar with completeness := .completed }]) := by
  have hsplit : completed (sent ++ [{ bar with completeness := .completed }]) =
      completed sent ++ [{ bar with completeness := .completed }] := by
    rw [completed_append]
    simp [completed]
  refine ⟨⟨?_, ?_⟩, ?_⟩
  · rw [hsplit, List.map_append, List.pairwise_append]
    refine ⟨h.increasing, List.pairwise_singleton _ _, ?_⟩
    simpa using hlater
  · rw [hsplit]
    intro b hb
    rcases List.mem_append.mp hb with hb | hb
    · exact h.folds b hb
    · rw [List.mem_singleton.mp hb]
      exact ⟨hfold.o, hfold.c, hfold.h, hfold.l, hfold.volume, hfold.tradeCount⟩
  · rw [hsplit]
    intro b hb
    rcases List.mem_append.mp hb with hb | hb
    · exact h.passed b hb
    · rw [List.mem_singleton.mp hb]
      exact ⟨x, hx, hlt⟩

/-- What is known of the loop after `events`. -/
structure Sound (tf : Timeframe) (events : List Event) (s : Loop) : Prop where
  closed : Closed tf events s.sent
  current : s.returned = false → Open tf events s.current

theorem sound_new (tf : Timeframe) : Sound tf [] .new where
  closed := ⟨⟨List.Pairwise.nil, fun _ h => absurd h List.not_mem_nil⟩,
    fun _ h => absurd h List.not_mem_nil⟩
  current _ := fun _ h => absurd h List.not_mem_nil

/-- A bar of a new window opens a bar that is exact so far. -/
theorem open_openBar {rt : Bar} (hnew : ∀ x ∈ produced events, windowOf tf x < windowOf tf rt) :
    Open tf (events ++ [.bar rt]) (some (openBar tf (windowOf tf rt) rt)) := by
  refine ⟨rfl, ?_, ?_⟩
  · show FoldOf (inWindow tf (windowOf tf rt) (produced (events ++ [.bar rt]))) _
    rw [produced_concat, inWindow_append, inWindow_eq_nil (fun x hx => (hnew x hx).ne)]
    show FoldOf ([] ++ inWindow tf (windowOf tf rt) [rt]) _
    rw [List.nil_append, inWindow_self]
    exact foldOf_openBar _ _
  · intro x hx
    rw [produced_concat] at hx
    rcases List.mem_append.mp hx with hx | hx
    · exact (hnew x hx).le
    · rw [List.mem_singleton.mp hx]
      rfl

theorem Sound.bar {s : Loop} {rt : Bar} (hs : Sound tf events s) (hlive : s.returned = false)
    (hup : Upstream tf (events ++ [.bar rt])) (hok : Undamaged tf (events ++ [.bar rt])) :
    Sound tf (events ++ [.bar rt]) (onBar tf rt s) := by
  have hgrown := hs.closed.grow hup
  have hopen := hs.current hlive
  have hle : ∀ x ∈ produced events, windowOf tf x ≤ windowOf tf rt :=
    fun x hx => hup.window_le hx (List.mem_singleton_self rt)
  have hmem : rt ∈ produced (events ++ [.bar rt]) := by
    rw [produced_concat]
    exact List.mem_append_right _ (List.mem_singleton_self rt)
  simp only [onBar, alignToWindow_eq]
  change Sound tf _ (match s.current with
    | some bar =>
      if bar.tsOpen = windowOf tf rt then { s with current := some (foldBar bar rt), dirty := true }
      else rollover tf (windowOf tf rt) rt s
    | none => rollover tf (windowOf tf rt) rt s)
  cases hcur : s.current with
  | none =>
    rw [hcur] at hopen
    -- whatever came before lies in a window of a lost bar at most, and that one is not this one
    have hnew : ∀ x ∈ produced events, windowOf tf x < windowOf tf rt := by
      intro x hx
      obtain ⟨y, hy, hxy⟩ := hopen x hx
      have hne : windowOf tf y ≠ windowOf tf rt := hok events rt List.prefix_rfl y hy
      have hyrt : windowOf tf y ≤ windowOf tf rt := by
        refine hle y ?_
        obtain ⟨e, he, hye⟩ := List.mem_flatMap.mp hy
        refine List.mem_flatMap.mpr ⟨e, he, ?_⟩
        cases e with
        | lagged first rest => exact hye
        | _ => exact absurd hye List.not_mem_nil
      exact lt_of_le_of_lt hxy (lt_of_le_of_ne hyrt hne)
    simp only [rollover, hcur]
    exact ⟨hgrown, fun _ => open_openBar hnew⟩
  | some bar =>
    rw [hcur] at hopen
    obtain ⟨hunfinished, hfold, hlast⟩ := hopen
    dsimp only
    split
    · rename_i hsame
      have hbars : inWindow tf bar.tsOpen (produced (events ++ [.bar rt])) =
          inWindow tf bar.tsOpen (produced events) ++ [rt] := by
        rw [produced_concat, inWindow_append, hsame]
        show _ ++ inWindow tf (windowOf tf rt) [rt] = _
        rw [inWindow_self]
      have hvolume := hup.volume bar.tsOpen
      have htrades := hup.tradeCount bar.tsOpen
      rw [hbars] at hvolume htrades
      refine ⟨hgrown, fun _ => ⟨rfl, ?_, ?_⟩⟩
      · show FoldOf (inWindow tf bar.tsOpen (produced (events ++ [.bar rt]))) _
        rw [hbars]
        exact foldOf_foldBar hfold hvolume htrades
      · intro x hx
        rw [produced_concat] at hx
        rcases List.mem_append.mp hx with hx | hx
        · exact hlast x hx
        · rw [List.mem_singleton.mp hx]
          exact hsame.ge
    · rename_i hdiff
      have hfirst : ∃ x ∈ produced events, windowOf tf x = bar.tsOpen := by
        have hne : inWindow tf bar.tsOpen (produced events) ≠ [] := by
          intro hnil
          rw [hnil] at hfold
          exact Option.some_ne_none _ hfold.o.symm
        obtain ⟨x, hx⟩ := List.exists_mem_of_ne_nil _ hne
        obtain ⟨hx, hw⟩ := List.mem_filter.mp hx
        exact ⟨x, hx, by simpa using hw⟩
      obtain ⟨x₀, hx₀, hw₀⟩ := hfirst
      have hlt : bar.tsOpen < windowOf tf rt := lt_of_le_of_ne (hw₀ ▸ hle x₀ hx₀) hdiff
      have hnew : ∀ x ∈ produced events, windowOf tf x < windowOf tf rt :=
        fun x hx => (hlast x hx).trans_lt hlt
      have hbars : inWindow tf bar.tsOpen (produced (events ++ [.bar rt])) =
          inWindow tf bar.tsOpen (produced events) := by
        have hnil : inWindow tf bar.tsOpen (Event.bars (.bar rt)) = [] := by
          refine inWindow_eq_nil fun y hy => ?_
          rw [List.mem_singleton.mp hy]
          exact hlt.ne'
        rw [produced_concat, inWindow_append, hnil, List.append_nil]
      have hlater : ∀ b ∈ completed s.sent, b.tsOpen < bar.tsOpen := by
        intro b hb
        obtain ⟨x, hx, hbx⟩ := hs.closed.passed b hb
        exact hbx.trans_le (hlast x hx)
      simp only [rollover, hcur]
      exact ⟨hgrown.publish_completed (by rw [hbars]; exact hfold) hmem hlt hlater,
        fun _ => open_openBar hnew⟩

/-- A coalesce tick sends the open bar as a partial one, or nothing. -/
theorem onTick_spec (receivers : ℕ) (s : Loop) : (onTick receivers s).current = s.current ∧
    ((onTick receivers s).sent = s.sent ∨
      ∃ bar, s.current = some bar ∧ (onTick receivers s).sent = s.sent ++ [bar]) := by
  unfold onTick
  split
  · cases hcur : s.current with
    | none =>
      dsimp only
      split <;> exact ⟨hcur, Or.inl rfl⟩
    | some bar =>
      dsimp only
      split <;> exact ⟨hcur, Or.inr ⟨bar, rfl, rfl⟩⟩
  · exact ⟨rfl, Or.inl rfl⟩

theorem Sound.tick {s : Loop} {receivers : ℕ} (hs : Sound tf events s) (hlive : s.returned = false)
    (hup : Upstream tf (events ++ [.tick receivers])) :
    Sound tf (events ++ [.tick receivers]) (onTick receivers s) := by
  obtain ⟨hcur, hsent⟩ := onTick_spec receivers s
  have hopen := hs.current hlive
  have hsame : ∀ current, Open tf events current → Open tf (events ++ [.tick receivers]) current := by
    intro current h
    cases current with
    | none => simpa [Open, Event.bars, Event.lost] using h
    | some bar => simpa [Open, Event.bars] using h
  refine ⟨?_, fun _ => hcur ▸ hsame _ hopen⟩
  rcases hsent with hsent | ⟨bar, hbar, hsent⟩
  · rw [hsent]
    exact hs.closed.grow hup
  · rw [hsent]
    rw [hbar] at hopen
    exact (hs.closed.grow hup).publish_unfinished hopen.1

theorem Sound.lagged {s : Loop} {first : Bar} {rest : List Bar} (hs : Sound tf events s)
    (hup : Upstream tf (events ++ [.lagged first rest])) :
    Sound tf (events ++ [.lagged first rest]) { s with current := none, dirty := false } := by
  refine ⟨hs.closed.grow hup, fun _ x hx => ?_⟩
  rw [produced_concat] at hx
  rcases List.mem_append.mp hx with hx | hx
  · refine ⟨first, ?_, hup.window_le hx List.mem_cons_self⟩
    rw [lost_concat]
    exact List.mem_append_right _ List.mem_cons_self
  · refine ⟨x, ?_, le_rfl⟩
    rw [lost_concat]
    exact List.mem_append_right _ hx

theorem Sound.step {s : Loop} (hs : Sound tf events s) (hup : Upstream tf (events ++ [event]))
    (hok : Undamaged tf (events ++ [event])) : Sound tf (events ++ [event]) (step tf s event) := by
  unfold Aggregator.step
  split
  · rename_i hreturned
    exact ⟨hs.closed.grow hup, fun h => absurd hreturned (by simp [h])⟩
  · rename_i hlive
    have hlive : s.returned = false := by simpa using hlive
    cases event with
    | bar rt => exact hs.bar hlive hup hok
    | lagged first rest => exact hs.lagged hup
    | closed => exact ⟨hs.closed.grow hup, fun h => absurd h (by simp)⟩
    | tick receivers => exact hs.tick hlive hup

/-- Whatever the timeframe and the events, completed bars are exact folds of whole windows, in order,
    as long as no bar is delivered from a window that an earlier lag took bars from. -/
theorem exact_folds_of_undamaged (tf : Timeframe) (events : List Event) (hup : Upstream tf events)
    (hok : Undamaged tf events) : ExactFolds tf events (runAggregator tf events).sent := by
  have hsound : Sound tf events (runAggregator tf events) := by
    induction events using List.reverseRecOn with
    | nil => exact sound_new tf
    | append_singleton events event ih =>
      rw [runAggregator, run_concat]
      exact (ih hup.initial hok.initial).step hup hok
  exact hsound.closed.toExactFolds

/-- A 5-second bar of one trade. -/
def tradeBar (secs : ℤ) (price : ℚ) : Bar :=
  ⟨⟨265598, "AAPL"⟩, .s5, Instant.ofTimestamp secs, Instant.ofTimestamp (secs + 5), price, price, price,
    price, 100, 1, none, .completed⟩

/-- Bars of one minute and the first of the next, the second one lost. -/
def lagInsideMinute : List Event :=
  [.bar (tradeBar 0 10), .lagged (tradeBar 5 11) [], .bar (tradeBar 10 12), .bar (tradeBar 60 13)]

/-- A lag that swallows the rest of a minute does no harm. -/
theorem exact_folds_lag_to_end_of_minute :
    let events : List Event :=
      [.bar (tradeBar 0 10), .lagged (tradeBar 5 11) [tradeBar 55 12], .bar (tradeBar 60 13),
        .bar (tradeBar 120 14)]
    ExactFolds .m1 events (runAggregator .m1 events).sent := by
  have hproduced : ∀ window : Instant, inWindow .m1 window
      [tradeBar 0 10, tradeBar 5 11, tradeBar 55 12, tradeBar 60 13, tradeBar 120 14] |>.Sublist
      [tradeBar 0 10, tradeBar 5 11, tradeBar 55 12, tradeBar 60 13, tradeBar 120 14] :=
    fun _ => List.filter_sublist
  refine exact_folds_of_undamaged _ _ ⟨by decide +kernel, fun window => ?_, fun window => ?_⟩ ?_
  · exact (((hproduced window).map Bar.volume).sum_le_sum fun _ _ => Nat.zero_le _).trans_lt
      (by decide +kernel)
  · exact (((hproduced window).map Bar.tradeCount).sum_le_sum fun _ _ => Nat.zero_le _).trans_lt
      (by decide +kernel)
  · intro pre b hpre x hx
    rcases pre with _ | ⟨e₁, _ | ⟨e₂, _ | ⟨e₃, _ | ⟨e₄, pre⟩⟩⟩⟩
    · exact absurd hx List.not_mem_nil
    · simp [List.cons_prefix_cons] at hpre
    · obtain ⟨rfl, rfl, rfl⟩ : Event.bar (tradeBar 0 10) = e₁ ∧
          Event.lagged (tradeBar 5 11) [tradeBar 55 12] = e₂ ∧ tradeBar 60 13 = b := by
        simpa [List.cons_prefix_cons, eq_comm] using hpre
      revert x
      decide +kernel
    · obtain ⟨rfl, rfl, rfl, rfl⟩ : Event.bar (tradeBar 0 10) = e₁ ∧
          Event.lagged (tradeBar 5 11) [tradeBar 55 12] = e₂ ∧ Event.bar (tradeBar 60 13) = e₃ ∧
            tradeBar 120 14 = b := by
        simpa [List.cons_prefix_cons, eq_comm] using hpre
      revert x
      decide +kernel
    · simp [List.cons_prefix_cons] at hpre

theorem lag_inside_minute_completes_partial_data : ¬ ∀ (tf : Timeframe) (events : List Event),
    Upstream tf events → ExactFolds tf events (runAggregator tf events).sent := by
  intro h
  have hproduced : ∀ window, (inWindow .m1 window (produced lagInsideMinute)).Sublist
      (produced lagInsideMinute) := fun _ => List.filter_sublist
  have hexact := h .m1 lagInsideMinute ⟨by decide +kernel,
    fun window => (((hproduced window).map Bar.volume).sum_le_sum fun _ _ => Nat.zero_le _).trans_lt
      (by decide +kernel),
    fun window => (((hproduced window).map Bar.tradeCount).sum_le_sum fun _ _ =>
      Nat.zero_le _).trans_lt (by decide +kernel)⟩
  -- the completed bar of the first minute has the third bar of it only
  have hsent : ∃ bar ∈ completed (runAggregator .m1 lagInsideMinute).sent,
      bar.tsOpen = 0 ∧ bar.o = 12 := by decide +kernel
  obtain ⟨bar, hbar, hopen, ho⟩ := hsent
  have hfold := (hexact.folds bar hbar).o
  rw [hopen, ho] at hfold
  revert hfold
  decide +kernel

end Midas.MarketData.Aggregator
