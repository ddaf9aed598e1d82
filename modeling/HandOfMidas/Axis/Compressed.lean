import HandOfMidas.Calendar.Types
import HandOfMidas.Lib.Search
import Mathlib.Data.Rat.Floor

/-! The compressed time axis (`compressed.rs` of `midas-axis`). Pixels and fractions are exact rationals;
    a number of the source that may not be finite is an option here, `none` if it is not. -/

namespace Midas.Axis

open Calendar Search

/-- The errors of `AxisError` that this axis has. -/
inductive AxisError where
  | invalidWidth (w : Option ℚ)
  | unsortedSessions
  deriving DecidableEq

inductive SnapDirection where | nearest | forward | backward
  deriving DecidableEq, Repr

structure CompressedAxis where
  sessions : List Session
  sessionXStarts : List ℚ
  sessionXEnds : List ℚ
  width : ℚ
  gapPx : ℚ

/-- `f32::EPSILON`. -/
def epsilon : ℚ := 1 / 2 ^ 23

/-- `num_seconds()` of a session, none below zero. -/
def durationSecs (s : Session) : ℚ := max (Int.tdiv (s.closes - s.opens) Instant.second : ℚ) 0

/-- Two sessions in a row that overlap or come in the wrong order. -/
def unsorted : List Session → Bool
  | a :: b :: rest => a.closes > b.opens || a.opens > b.opens || unsorted (b :: rest)
  | _ => false

def pxPerSec (durations : List ℚ) (width gapPx : ℚ) : ℚ :=
  let totalGap := gapPx * (durations.length - 1)
  let sessionPixels := max (width - totalGap) 0
  if durations.sum > 0 then sessionPixels / durations.sum else 0

/-- The left and right edges of the sessions, from the cursor on. -/
def layout (pxPerSec gapPx : ℚ) : ℚ → List ℚ → List (ℚ × ℚ)
  | _, [] => []
  | cursor, d :: durations =>
    (cursor, cursor + d * pxPerSec) :: layout pxPerSec gapPx (cursor + d * pxPerSec + gapPx) durations

namespace CompressedAxis

/-- The axis of these sessions: the last right edge is the width. -/
def build (sessions : List Session) (width gapPx : ℚ) : CompressedAxis :=
  let durations := sessions.map durationSecs
  let edges := layout (pxPerSec durations width gapPx) gapPx 0 durations
  ⟨sessions, edges.map Prod.fst, (edges.map Prod.snd).set (sessions.length - 1) width, width, gapPx⟩

/-- `CompressedAxis::new`. -/
def new (sessions : List Session) (widthPx gapPx : Option ℚ) : Except AxisError CompressedAxis :=
  match widthPx with
  | none => .error (.invalidWidth none)
  | some width =>
    if width ≤ 0 then .error (.invalidWidth width)
    else
      match gapPx with
      | none => .error (.invalidWidth none)
      | some gap =>
        if gap < 0 then .error (.invalidWidth gap)
        else if unsorted sessions then .error .unsortedSessions
        else if sessions = [] then .ok ⟨[], [], [], width, gap⟩
        else .ok (build sessions width gap)

/-- What stands for a session at an index that there is none at. -/
def nowhere : Session := .new ⟨""⟩ .closed 0 0

variable (ax : CompressedAxis)

def session (i : ℕ) : Session := ax.sessions.getD i nowhere

def xStart (i : ℕ) : ℚ := ax.sessionXStarts.getD i 0

def xEnd (i : ℕ) : ℚ := ax.sessionXEnds.getD i 0

/-- `find_session_for_ts`: the session at an instant, or else the one after it. -/
def findSessionForTs (ts : Instant) : Except ℕ ℕ :=
  let n := ax.sessions.length
  if n = 0 then .error 0
  else if ts < (ax.session 0).opens then .error 0
  else
    let lo := upperBound (fun mid => (ax.session mid).opens ≤ ts) n 0 n
    let idx := lo - 1
    -- the close of a session is its own, also when the next one opens then
    if idx > 0 ∧ (ax.session idx).opens = ts ∧ (ax.session (idx - 1)).closes = ts then .ok (idx - 1)
    else if ts ≤ (ax.session idx).closes then .ok idx
    else if idx + 1 < n then .error (idx + 1)
    else .error n

/-- `find_session_for_x`. -/
def findSessionForX (x : ℚ) : Except ℕ ℕ :=
  let n := ax.sessions.length
  if n = 0 then .error 0
  else if x < ax.xStart 0 then .error 0
  else
    let idx := partitionPoint (fun sx => sx ≤ x) ax.sessionXStarts - 1
    if x ≤ ax.xEnd idx then .ok idx
    else if idx + 1 < n then .error (idx + 1)
    else .error n

/-- The nanoseconds of a session's open and close, as both projections have them. -/
def boundsNs (i : ℕ) : ℤ × ℤ :=
  let openNs := (ax.session i).opens.timestampNanosOpt.getD 0
  (openNs, (ax.session i).closes.timestampNanosOpt.getD (openNs + 1))

def durNs (i : ℕ) : ℚ := (max ((ax.boundsNs i).2 - (ax.boundsNs i).1) 1 : ℤ)

/-- `project_in_session`. -/
def projectInSession (i : ℕ) (ts : Instant) : ℚ :=
  let openNs := (ax.boundsNs i).1
  let tsNs := ts.timestampNanosOpt.getD openNs
  let frac := max 0 (min (((tsNs - openNs : ℤ) : ℚ) / ax.durNs i) 1)
  ax.xStart i + (ax.xEnd i - ax.xStart i) * frac

/-- `round()`: halves go away from zero. -/
def roundHalfAway (q : ℚ) : ℤ := if 0 ≤ q then ⌊q + 1 / 2⌋ else ⌈q - 1 / 2⌉

/-- `unproject_in_session`. -/
def unprojectInSession (i : ℕ) (x : ℚ) : Instant :=
  let width := max (ax.xEnd i - ax.xStart i) epsilon
  let frac := max 0 (min ((x - ax.xStart i) / width) 1)
  (ax.session i).opens + roundHalfAway (frac * ax.durNs i)

/-- `to_x`. -/
def toX (ts : Instant) : ℚ :=
  if ax.sessions = [] then 0
  else
    match ax.findSessionForTs ts with
    | .ok idx => ax.projectInSession idx ts
    | .error idx =>
      if idx = 0 then 0
      else if idx = ax.sessions.length then ax.width
      else ax.xEnd (idx - 1)

/-- `from_x`. -/
def fromX (x : Option ℚ) : Option Instant :=
  match x with
  | none => none
  | some x =>
    if ¬ (0 ≤ x ∧ x ≤ ax.width) then none
    else if ax.sessions = [] then none
    else
      match ax.findSessionForX x with
      | .ok idx => some (ax.unprojectInSession idx x)
      | .error _ => none

/-- `from_x_snapped`. -/
def fromXSnapped (x : Option ℚ) (dir : SnapDirection) : Instant × Bool :=
  if ax.sessions = [] then (0, true)
  else
    let clamped :=
      match x with
      | some x => max 0 (min x ax.width)
      | none => 0
    match ax.findSessionForX clamped with
    | .ok idx =>
      let wasSnapped :=
        match x with
        | some x => decide (¬ (0 ≤ x ∧ x ≤ ax.width))
        | none => true
      (ax.unprojectInSession idx clamped, wasSnapped)
    | .error nextIdx =>
      let n := ax.sessions.length
      let prevIdx := if nextIdx = 0 then none else some (nextIdx - 1)
      let nextIdxOpt := if nextIdx ≥ n then none else some nextIdx
      match dir, prevIdx, nextIdxOpt with
      | .forward, _, some ni => ((ax.session ni).opens, true)
      | .forward, some pi, none => ((ax.session pi).closes, true)
      | .backward, some pi, _ => ((ax.session pi).closes, true)
      | .backward, none, some ni => ((ax.session ni).opens, true)
      | .nearest, some pi, some ni =>
        let prevX := ax.xEnd pi
        let nextX := ax.xStart ni
        if |clamped - prevX| ≤ |nextX - clamped| then ((ax.session pi).closes, true)
        else ((ax.session ni).opens, true)
      | .nearest, some pi, none => ((ax.session pi).closes, true)
      | .nearest, none, some ni => ((ax.session ni).opens, true)
      | _, none, none => (0, true)

end CompressedAxis

end Midas.Axis
