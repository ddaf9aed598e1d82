import HandOfMidas.Axis.Compressed
import Mathlib.Algebra.BigOperators.Group.List.Basic
import Mathlib.Algebra.Order.BigOperators.Group.List
import Mathlib.Algebra.Order.Field.Basic
import Mathlib.Tactic.Linarith
import Mathlib.Tactic.Ring

/-! The pixel edges of a built axis in closed form, the order of its sessions, and where the two searches
    of the axis end. -/

namespace Midas.Axis

open Calendar

/-- What the sessions of a calendar are: none closes before it opens, their bounds are whole seconds, and
    where there is time between these they are nanoseconds of 64 bits. -/
structure Proper (sessions : List Session) : Prop where
  le : ∀ s ∈ sessions, s.opens ≤ s.closes
  whole : ∀ s ∈ sessions, ∃ secs secs', s.opens = Instant.ofTimestamp secs ∧
    s.closes = Instant.ofTimestamp secs'
  nanos : ∀ s ∈ sessions, s.opens < s.closes →
    -(2 ^ 63) ≤ s.opens ∧ s.closes < 2 ^ 63 ∧ s.closes - s.opens < 2 ^ 63

theorem epsilon_pos : 0 < epsilon := by
  norm_num [epsilon]

theorem getD_mem {sessions : List Session} {i : ℕ} (hi : i < sessions.length) :
    sessions.getD i CompressedAxis.nowhere ∈ sessions := by
  rw [List.getD_eq_getElem?_getD, List.getElem?_eq_getElem hi, Option.getD_some]
  exact List.getElem_mem hi

/-- The edges are sums of widths and gaps. -/
theorem getElem?_layout (p g : ℚ) : ∀ (durations : List ℚ) (cursor : ℚ) (i : ℕ),
    (layout p g cursor durations)[i]? = durations[i]?.map fun _ =>
      (cursor + (durations.take i).sum * p + i * g, cursor + (durations.take (i + 1)).sum * p + i * g)
  | [], cursor, i => rfl
  | _ :: durations, cursor, 0 => by
    simp [layout]
  | d :: durations, cursor, i + 1 => by
    rw [layout, List.getElem?_cons_succ, getElem?_layout p g durations _ i, List.getElem?_cons_succ]
    congr 1
    funext d'
    simp only [List.take_succ_cons, List.sum_cons, Prod.mk.injEq, Nat.cast_add, Nat.cast_one]
    constructor <;> ring

theorem length_layout (p g : ℚ) : ∀ (durations : List ℚ) (cursor : ℚ),
    (layout p g cursor durations).length = durations.length
  | [], _ => rfl
  | d :: durations, cursor => by rw [layout, List.length_cons, length_layout, List.length_cons]

/-- Consecutive sessions of a sorted row. -/
theorem closes_le_opens_of_sorted : ∀ {sessions : List Session}, unsorted sessions = false →
    ∀ i, i + 1 < sessions.length →
      (sessions.getD i CompressedAxis.nowhere).closes ≤
        (sessions.getD (i + 1) CompressedAxis.nowhere).opens
  | [], _, i, h => by simp at h
  | [a], _, i, h => by simp at h
  | a :: b :: rest, hsorted, i, h => by
    simp only [unsorted, Bool.or_eq_false_iff, decide_eq_false_iff_not, not_lt] at hsorted
    cases i with
    | zero => exact hsorted.1.1
    | succ i => exact closes_le_opens_of_sorted hsorted.2 i (by simpa using h)

namespace CompressedAxis

section Build

variable (sessions : List Session) (width gapPx : ℚ)

/-- The seconds of the first `i` sessions. -/
def secsBefore (i : ℕ) : ℚ := ((sessions.map durationSecs).take i).sum

/-- The pixels of a second. -/
def scale : ℚ := pxPerSec (sessions.map durationSecs) width gapPx

theorem xStart_build {i : ℕ} (hi : i < sessions.length) :
    (build sessions width gapPx).xStart i =
      secsBefore sessions i * scale sessions width gapPx + i * gapPx := by
  have hlen : i < (sessions.map durationSecs).length := by simpa using hi
  simp only [xStart, build, List.getD_eq_getElem?_getD, List.getElem?_map, getElem?_layout,
    List.getElem?_eq_getElem hlen, Option.map_some, Option.getD_some, secsBefore, scale, zero_add]

theorem xEnd_build {i : ℕ} (hi : i + 1 < sessions.length) :
    (build sessions width gapPx).xEnd i =
      secsBefore sessions (i + 1) * scale sessions width gapPx + i * gapPx := by
  have hlen : i < (sessions.map durationSecs).length := by
    rw [List.length_map]
    omega
  have hne : sessions.length - 1 ≠ i := by omega
  simp only [xEnd, build, List.getD_eq_getElem?_getD, List.getElem?_set_ne hne, List.getElem?_map,
    getElem?_layout, List.getElem?_eq_getElem hlen, Option.map_some, Option.getD_some, secsBefore, scale,
    zero_add]

theorem xEnd_build_last (hne : sessions ≠ []) :
    (build sessions width gapPx).xEnd (sessions.length - 1) = width := by
  have hlen : sessions.length - 1 < ((layout (pxPerSec (sessions.map durationSecs) width gapPx) gapPx 0
      (sessions.map durationSecs)).map Prod.snd).length := by
    rw [List.length_map, length_layout, List.length_map]
    have := List.length_pos_of_ne_nil hne
    omega
  simp only [xEnd, build, List.getD_eq_getElem?_getD, List.getElem?_set_self hlen, Option.getD_some]

theorem durationSecs_nonneg (s : Session) : 0 ≤ durationSecs s := le_max_right _ _

theorem secsBefore_succ {i : ℕ} (hi : i < sessions.length) :
    secsBefore sessions (i + 1) = secsBefore sessions i + durationSecs (sessions.getD i nowhere) := by
  have hlen : i < (sessions.map durationSecs).length := by simpa using hi
  rw [secsBefore, List.take_add_one, List.getElem?_eq_getElem hlen, Option.toList_some, List.sum_append,
    List.sum_singleton, List.getElem_map, List.getD_eq_getElem?_getD, List.getElem?_eq_getElem hi,
    Option.getD_some, secsBefore]

theorem secsBefore_length : secsBefore sessions sessions.length = (sessions.map durationSecs).sum := by
  rw [secsBefore, List.take_of_length_le (by simp)]

theorem secsBefore_nonneg (i : ℕ) : 0 ≤ secsBefore sessions i := by
  refine List.sum_nonneg fun d hd => ?_
  obtain ⟨s, -, rfl⟩ := List.mem_map.mp (List.mem_of_mem_take hd)
  exact durationSecs_nonneg s

/-- The pixels that the gaps leave. -/
def room : ℚ := width - gapPx * (sessions.length - 1)

/-- The share of a session in the pixels that the gaps leave. -/
def drawn (i : ℕ) : ℚ :=
  durationSecs (sessions.getD i nowhere) * (room sessions width gapPx / (sessions.map durationSecs).sum)

theorem scale_of_room (hroom : 0 ≤ room sessions width gapPx) :
    scale sessions width gapPx = room sessions width gapPx / (sessions.map durationSecs).sum := by
  have hlen : ((sessions.map durationSecs).length : ℚ) = sessions.length := by rw [List.length_map]
  rw [scale, pxPerSec]
  simp only [hlen]
  rw [← room, max_eq_left hroom]
  split
  · rfl
  · rename_i hpos
    have hsum := secsBefore_nonneg sessions sessions.length
    rw [secsBefore_length] at hsum
    rw [le_antisymm (not_lt.mp hpos) hsum, div_zero]

theorem scale_of_no_room (hroom : room sessions width gapPx ≤ 0) : scale sessions width gapPx = 0 := by
  have hlen : ((sessions.map durationSecs).length : ℚ) = sessions.length := by rw [List.length_map]
  rw [scale, pxPerSec]
  simp only [hlen]
  rw [← room, max_eq_right hroom]
  split
  · exact zero_div _
  · rfl

theorem scale_nonneg : 0 ≤ scale sessions width gapPx := by
  rcases le_total 0 (room sessions width gapPx) with hroom | hroom
  · have hsum := secsBefore_nonneg sessions sessions.length
    rw [secsBefore_length] at hsum
    rw [scale_of_room sessions width gapPx hroom]
    exact div_nonneg hroom hsum
  · exact (scale_of_no_room sessions width gapPx hroom).ge

/-- The sessions take no more than the gaps leave. -/
theorem secs_mul_scale_le (hroom : 0 ≤ room sessions width gapPx) :
    secsBefore sessions sessions.length * scale sessions width gapPx ≤ room sessions width gapPx := by
  rw [scale_of_room sessions width gapPx hroom, secsBefore_length]
  rcases eq_or_ne (sessions.map durationSecs).sum 0 with hsum | hsum
  · rw [hsum, zero_mul]
    exact hroom
  · exact (mul_div_cancel₀ _ hsum).le

end Build

end CompressedAxis

end Midas.Axis

/-! ### Where the searches end -/

namespace Midas.Axis

open Calendar Search

namespace CompressedAxis

variable {ax : CompressedAxis}

/-- The sessions of the axis in the order of time. -/
structure Timed (ax : CompressedAxis) : Prop where
  le : ∀ i < ax.sessions.length, (ax.session i).opens ≤ (ax.session i).closes
  next : ∀ i, i + 1 < ax.sessions.length → (ax.session i).closes ≤ (ax.session (i + 1)).opens

section Time

variable (h : ax.Timed)

include h

theorem Timed.closes_le_opens {i j : ℕ} (hij : i < j) (hj : j < ax.sessions.length) :
    (ax.session i).closes ≤ (ax.session j).opens := by
  induction hij with
  | refl => exact h.next i hj
  | step hij ih => exact (ih (by omega)).trans ((h.le _ (by omega)).trans (h.next _ hj))

theorem Timed.opens_mono {i j : ℕ} (hij : i ≤ j) (hj : j < ax.sessions.length) :
    (ax.session i).opens ≤ (ax.session j).opens := by
  rcases hij.eq_or_lt with rfl | hlt
  · exact le_rfl
  · exact (h.le i (by omega)).trans (h.closes_le_opens hlt hj)

theorem Timed.closes_mono {i j : ℕ} (hij : i ≤ j) (hj : j < ax.sessions.length) :
    (ax.session i).closes ≤ (ax.session j).closes := by
  rcases hij.eq_or_lt with rfl | hlt
  · exact le_rfl
  · exact (h.closes_le_opens hlt hj).trans (h.le j hj)

/-- The sessions that are open by an instant come first. -/
theorem Timed.splits_opens (t : Instant) : Splits (fun i => (ax.session i).opens ≤ t) ax.sessions.length
    (upperBound (fun i => (ax.session i).opens ≤ t) ax.sessions.length 0 ax.sessions.length) := by
  refine splits_upperBound (fun i j hij hj hopen => ?_) (by omega) (Nat.zero_le _) le_rfl
    (fun i hi => absurd hi (Nat.not_lt_zero i)) (fun i hle hlt => absurd hlt (by omega))
  exact decide_eq_true ((h.opens_mono hij hj).trans (of_decide_eq_true hopen))

/-- The search by time, from the number of sessions that are open by then. -/
theorem findSessionForTs_eq {t : Instant} {r : ℕ}
    (hr : Splits (fun i => (ax.session i).opens ≤ t) ax.sessions.length r) (hpos : 0 < r) :
    ax.findSessionForTs t =
      if 1 < r ∧ (ax.session (r - 1)).opens = t ∧ (ax.session (r - 2)).closes = t then .ok (r - 2)
      else if t ≤ (ax.session (r - 1)).closes then .ok (r - 1)
      else .error r := by
  have hn : ax.sessions.length ≠ 0 := by
    have := hr.le
    omega
  have hfirst : ¬ t < (ax.session 0).opens := not_lt.mpr (of_decide_eq_true (hr.below 0 hpos))
  have hbound := (h.splits_opens t).unique hr
  have hidx : (r - 1 > 0) = (1 < r) := propext ⟨fun _ => by omega, fun _ => by omega⟩
  have hprev : r - 1 - 1 = r - 2 := by omega
  have hnext : r - 1 + 1 = r := by omega
  have hlast : (if r < ax.sessions.length then Except.error (α := ℕ) r else .error ax.sessions.length) =
      .error r := by
    split
    · rfl
    · rw [le_antisymm hr.le (by omega)]
  unfold findSessionForTs
  simp only [if_neg hn, if_neg hfirst, hbound, hidx, hprev, hnext, hlast]

omit h in
theorem findSessionForTs_zero {t : Instant}
    (hr : Splits (fun i => (ax.session i).opens ≤ t) ax.sessions.length 0) :
    ax.findSessionForTs t = .error 0 := by
  unfold findSessionForTs
  rcases Nat.eq_zero_or_pos ax.sessions.length with hn | hn
  · simp only [hn, if_true]
  · have ht : t < (ax.session 0).opens := not_le.mp (of_decide_eq_false (hr.above 0 le_rfl hn))
    simp only [if_pos ht, ite_self]

/-- A session that an instant is placed in has it between its bounds, and no later one opens before. -/
theorem findSessionForTs_ok {t : Instant} {i : ℕ} (hi : ax.findSessionForTs t = .ok i) :
    i < ax.sessions.length ∧ (ax.session i).opens ≤ t ∧ t ≤ (ax.session i).closes ∧
      ∀ k, i < k → k < ax.sessions.length → t ≤ (ax.session k).opens := by
  obtain ⟨r, hr⟩ : ∃ r, Splits (fun i => (ax.session i).opens ≤ t) ax.sessions.length r :=
    ⟨_, h.splits_opens t⟩
  have hle := hr.le
  have hlater : ∀ k, r ≤ k → k < ax.sessions.length → t ≤ (ax.session k).opens := fun k hk hn =>
    (not_le.mp (of_decide_eq_false (hr.above k hk hn))).le
  have hopen : ∀ k < r, (ax.session k).opens ≤ t := fun k hk => of_decide_eq_true (hr.below k hk)
  rcases Nat.eq_zero_or_pos r with rfl | hpos
  · rw [findSessionForTs_zero hr] at hi
    cases hi
  rw [findSessionForTs_eq h hr hpos] at hi
  split at hi
  · rename_i hedge
    obtain ⟨htwo, hopens, hcloses⟩ := hedge
    obtain rfl := Except.ok.inj hi
    refine ⟨by omega, hopen _ (by omega), hcloses.ge, fun k hk hn => ?_⟩
    rcases Nat.lt_or_ge k r with hlt | hge
    · obtain rfl : k = r - 1 := by omega
      exact hopens.ge
    · exact hlater k hge hn
  · split at hi
    · rename_i hcloses
      obtain rfl := Except.ok.inj hi
      exact ⟨by omega, hopen _ (by omega), hcloses, fun k hk hn => hlater k (by omega) hn⟩
    · cases hi

/-- An instant outside every session is after the session before that place and before the one at it. -/
theorem findSessionForTs_error {t : Instant} {k : ℕ} (hk : ax.findSessionForTs t = .error k) :
    k ≤ ax.sessions.length ∧ (∀ i < k, (ax.session i).closes < t) ∧
      ∀ i, k ≤ i → i < ax.sessions.length → t < (ax.session i).opens := by
  obtain ⟨r, hr⟩ : ∃ r, Splits (fun i => (ax.session i).opens ≤ t) ax.sessions.length r :=
    ⟨_, h.splits_opens t⟩
  have hle := hr.le
  have hlater : ∀ i, r ≤ i → i < ax.sessions.length → t < (ax.session i).opens := fun i hi hn =>
    not_le.mp (of_decide_eq_false (hr.above i hi hn))
  rcases Nat.eq_zero_or_pos r with rfl | hpos
  · rw [findSessionForTs_zero hr] at hk
    obtain rfl := Except.error.inj hk
    exact ⟨hle, fun i hi => absurd hi (Nat.not_lt_zero i), hlater⟩
  rw [findSessionForTs_eq h hr hpos] at hk
  split at hk
  · cases hk
  · split at hk
    · cases hk
    · rename_i hcloses
      obtain rfl := Except.error.inj hk
      exact ⟨hle, fun i hi => (h.closes_mono (by omega) (by omega)).trans_lt (not_le.mp hcloses),
        hlater⟩

/-- Before its close an instant is in the session it is inside of, if the one before does not end
    there. -/
theorem findSessionForTs_inside {t : Instant} {i : ℕ} (hi : i < ax.sessions.length)
    (hopens : (ax.session i).opens ≤ t) (hcloses : t < (ax.session i).closes) :
    ax.findSessionForTs t =
      if 0 < i ∧ (ax.session i).opens = t ∧ (ax.session (i - 1)).closes = t then .ok (i - 1)
        else .ok i := by
  have hr : Splits (fun i => (ax.session i).opens ≤ t) ax.sessions.length (i + 1) :=
    ⟨hi, fun k hk => decide_eq_true ((h.opens_mono (by omega) hi).trans hopens), fun k hk hn =>
      decide_eq_false (not_le.mpr (hcloses.trans_le (h.closes_le_opens (by omega) hn)))⟩
  have hidx : i + 1 - 1 = i := by omega
  have hprev : i + 1 - 2 = i - 1 := by omega
  have hone : (1 < i + 1) = (0 < i) := propext ⟨fun _ => by omega, fun _ => by omega⟩
  rw [findSessionForTs_eq h hr (Nat.succ_pos i), hidx, hprev, if_pos hcloses.le]
  simp only [hone]

/-- From the open of the last session on. -/
theorem findSessionForTs_last {t : Instant} (hpos : 0 < ax.sessions.length)
    (hopens : (ax.session (ax.sessions.length - 1)).opens ≤ t) :
    ax.findSessionForTs t =
      if 1 < ax.sessions.length ∧ (ax.session (ax.sessions.length - 1)).opens = t ∧
          (ax.session (ax.sessions.length - 2)).closes = t then .ok (ax.sessions.length - 2)
      else if t ≤ (ax.session (ax.sessions.length - 1)).closes then .ok (ax.sessions.length - 1)
      else .error ax.sessions.length := by
  refine findSessionForTs_eq h ⟨le_rfl, fun k hk => ?_, fun k hk hn => absurd hn (not_lt.mpr hk)⟩ hpos
  exact decide_eq_true ((h.opens_mono (by omega) (by omega)).trans hopens)

end Time

/-- The first `m` sessions of the axis in the order of pixels, inside the axis. -/
structure Edged (ax : CompressedAxis) (m : ℕ) : Prop where
  nonneg : ∀ i < m, 0 ≤ ax.xStart i
  le : ∀ i < m, ax.xStart i ≤ ax.xEnd i
  next : ∀ i, i + 1 < m → ax.xEnd i ≤ ax.xStart (i + 1)
  width : ∀ i < m, ax.xEnd i ≤ ax.width

section Pixels

variable {m : ℕ} (h : ax.Edged m)

include h

theorem Edged.xEnd_le_xStart {i j : ℕ} (hij : i < j) (hj : j < m) : ax.xEnd i ≤ ax.xStart j := by
  induction hij with
  | refl => exact h.next i hj
  | step hij ih => exact (ih (by omega)).trans ((h.le _ (by omega)).trans (h.next _ hj))

theorem Edged.xStart_mono {i j : ℕ} (hij : i ≤ j) (hj : j < m) : ax.xStart i ≤ ax.xStart j := by
  rcases hij.eq_or_lt with rfl | hlt
  · exact le_rfl
  · exact (h.le i (by omega)).trans (h.xEnd_le_xStart hlt hj)

theorem Edged.xEnd_mono {i j : ℕ} (hij : i ≤ j) (hj : j < m) : ax.xEnd i ≤ ax.xEnd j := by
  rcases hij.eq_or_lt with rfl | hlt
  · exact le_rfl
  · exact (h.xEnd_le_xStart hlt hj).trans (h.le j hj)

end Pixels

/-- A pixel between the edges of a session is that session's if all later ones start after it. -/
theorem findSessionForX_inside (h : ax.Edged ax.sessions.length)
    (hlen : ax.sessionXStarts.length = ax.sessions.length) {x : ℚ} {i : ℕ} (hi : i < ax.sessions.length)
    (hstart : ax.xStart i ≤ x) (hend : x ≤ ax.xEnd i)
    (hlater : ∀ k, i < k → k < ax.sessions.length → x < ax.xStart k) :
    ax.findSessionForX x = .ok i := by
  have hn : ax.sessions.length ≠ 0 := by omega
  have hfirst : ¬ x < ax.xStart 0 := not_lt.mpr ((h.xStart_mono (Nat.zero_le i) hi).trans hstart)
  have hmono : ∀ i j, i ≤ j → j < ax.sessionXStarts.length →
      decide (ax.sessionXStarts.getD j 0 ≤ x) = true → decide (ax.sessionXStarts.getD i 0 ≤ x) = true :=
    fun i j hij hj hle =>
      decide_eq_true ((h.xStart_mono hij (hlen ▸ hj)).trans (of_decide_eq_true hle))
  have hsplits := splits_partitionPoint (p := fun sx => decide (sx ≤ x)) 0 hmono
  have hpoint : partitionPoint (fun sx => decide (sx ≤ x)) ax.sessionXStarts = i + 1 := by
    refine hsplits.unique ⟨by omega, fun k hk => ?_, fun k hk hn => ?_⟩
    · exact decide_eq_true ((h.xStart_mono (by omega) hi).trans hstart)
    · exact decide_eq_false (not_le.mpr (hlater k (by omega) (by omega)))
  unfold findSessionForX
  simp only [if_neg hn, if_neg hfirst, hpoint, Nat.add_sub_cancel, if_pos hend]

end CompressedAxis

end Midas.Axis
