import HandOfMidas.Axis.Projection
import HandOfMidas.Calendar.Sessions

/-! Which sessions, width and gap give an axis that projects in order and back. -/

namespace Midas.Axis

open Calendar Search

/-- What the projection of an axis is to be: in order, inside the axis, exact inside a session that is
    wider than epsilon, and with a flag for what a snap moves. -/
structure CompressedAxis.Projects (ax : CompressedAxis) : Prop where
  mono : ∀ t t', t ≤ t' → ax.toX t ≤ ax.toX t'
  range : ∀ t, 0 ≤ ax.toX t ∧ ax.toX t ≤ ax.width
  inverse : ∀ i < ax.sessions.length, epsilon < ax.xEnd i - ax.xStart i →
    ∀ t, (ax.session i).opens ≤ t → t < (ax.session i).closes → ax.fromX (ax.toX t) = some t
  snapped : ∀ x dir, ((ax.fromXSnapped x dir).2 = true ↔ ax.fromX x = none) ∧
    ((ax.fromXSnapped x dir).2 = false → ax.fromX x = some (ax.fromXSnapped x dir).1)

namespace CompressedAxis

/-- The sessions of a row, by index. -/
def nth (sessions : List Session) (i : ℕ) : Session := sessions.getD i nowhere

/-- Where the gaps fit into the width, but for one next to an empty session at the end, and no gap parts
    a session from one it touches that is so narrow that epsilon moves its close. -/
structure Fits (sessions : List Session) (width gapPx : ℚ) : Prop where
  gaps : gapPx * (sessions.length - 1) ≤ width ∨
    (nth sessions (sessions.length - 1)).opens = (nth sessions (sessions.length - 1)).closes ∧
      (nth sessions (sessions.length - 2)).closes = (nth sessions (sessions.length - 1)).opens ∧
        gapPx * (sessions.length - 2) ≤ width
  touching : 0 < gapPx → ∀ i, i + 1 < sessions.length →
    (nth sessions i).closes = (nth sessions (i + 1)).opens →
      epsilon < drawn sessions width gapPx (i + 1) →
        (nth sessions i).opens = (nth sessions i).closes ∨
          (((nth sessions i).closes - (nth sessions i).opens : ℤ) : ℚ) *
            (1 - drawn sessions width gapPx i / epsilon) ≤ 1 / 2

section Build

variable {sessions : List Session} {width gapPx : ℚ} (hp : Proper sessions)
  (hsorted : unsorted sessions = false) (hgap : 0 ≤ gapPx)

theorem length_xStarts_build :
    (build sessions width gapPx).sessionXStarts.length = sessions.length := by
  simp only [build, List.length_map, length_layout]

theorem nth_mem {i : ℕ} (hi : i < sessions.length) : nth sessions i ∈ sessions := getD_mem hi

include hp in
/-- The seconds of a session are its length. -/
theorem durationSecs_mul_second {s : Session} (hs : s ∈ sessions) :
    durationSecs s * (Instant.second : ℤ) = ((s.closes - s.opens : ℤ) : ℚ) := by
  obtain ⟨secs, secs', hopens, hcloses⟩ := hp.whole s hs
  have hle := hp.le s hs
  have hsub : s.closes - s.opens = (secs' - secs) * Instant.second := by
    rw [hopens, hcloses, Instant.ofTimestamp, Instant.ofTimestamp, sub_mul]
  have hdiv : Int.tdiv (s.closes - s.opens) Instant.second = secs' - secs := by
    rw [hsub, Int.mul_tdiv_cancel _ (by decide)]
  have hnonneg : 0 ≤ secs' - secs := by
    have hprod : 0 ≤ (secs' - secs) * Instant.second := hsub ▸ sub_nonneg.mpr hle
    exact nonneg_of_mul_nonneg_left hprod (by decide)
  rw [durationSecs, hdiv, hsub, max_eq_left (by exact_mod_cast hnonneg)]
  push_cast
  ring

include hp in
theorem durationSecs_pos_iff {s : Session} (hs : s ∈ sessions) :
    0 < durationSecs s ↔ s.opens < s.closes := by
  have hsecond : (0 : ℚ) < (Instant.second : ℤ) := by norm_num [Instant.second]
  rw [← mul_pos_iff_of_pos_right hsecond, durationSecs_mul_second hp hs]
  exact_mod_cast sub_pos

include hp hsorted in
theorem timed_build : (build sessions width gapPx).Timed where
  le _ hi := hp.le _ (nth_mem hi)
  next i hi := closes_le_opens_of_sorted hsorted i hi

variable (hne : sessions ≠ [])

theorem room_nonneg_iff : 0 ≤ room sessions width gapPx ↔ gapPx * (sessions.length - 1) ≤ width :=
  sub_nonneg

theorem cast_pred (hne : sessions ≠ []) : ((sessions.length - 1 : ℕ) : ℚ) = sessions.length - 1 := by
  have := List.length_pos_of_ne_nil hne
  rw [Nat.cast_sub this, Nat.cast_one]

theorem xStart_succ_build {i : ℕ} (hi : i + 1 < sessions.length) :
    (build sessions width gapPx).xStart (i + 1) = (build sessions width gapPx).xEnd i + gapPx := by
  rw [xEnd_build sessions width gapPx hi, xStart_build sessions width gapPx hi]
  push_cast
  ring

/-- A width in pixels, from the edges. -/
theorem xEnd_sub_xStart_build {i : ℕ} (hi : i + 1 < sessions.length) :
    (build sessions width gapPx).xEnd i - (build sessions width gapPx).xStart i =
      durationSecs (nth sessions i) * scale sessions width gapPx := by
  rw [xEnd_build sessions width gapPx hi, xStart_build sessions width gapPx (by omega),
    secsBefore_succ sessions (by omega), nth]
  ring

include hne in
theorem xEnd_sub_xStart_build_last :
    (build sessions width gapPx).xEnd (sessions.length - 1) -
        (build sessions width gapPx).xStart (sessions.length - 1) =
      room sessions width gapPx - secsBefore sessions (sessions.length - 1) *
        scale sessions width gapPx := by
  have hlen := List.length_pos_of_ne_nil hne
  rw [xEnd_build_last sessions width gapPx hne, xStart_build sessions width gapPx (by omega),
    cast_pred hne, room]
  ring

include hne in
/-- What the sessions before the last one leave is at least the last one's. -/
theorem durationSecs_last_le (hroom : 0 ≤ room sessions width gapPx) :
    durationSecs (nth sessions (sessions.length - 1)) * scale sessions width gapPx ≤
      room sessions width gapPx - secsBefore sessions (sessions.length - 1) *
        scale sessions width gapPx := by
  have hlen := List.length_pos_of_ne_nil hne
  have hsucc := secsBefore_succ sessions (i := sessions.length - 1) (by omega)
  rw [Nat.sub_add_cancel hlen] at hsucc
  have hle := secs_mul_scale_le sessions width gapPx hroom
  rw [hsucc, add_mul] at hle
  rw [nth]
  linarith

include hgap hne in
/-- With room for the gaps the edges are in order. -/
theorem edged_build (hroom : 0 ≤ room sessions width gapPx) :
    (build sessions width gapPx).Edged sessions.length := by
  have hscale := scale_nonneg sessions width gapPx
  have hlen := List.length_pos_of_ne_nil hne
  have hle : ∀ i < sessions.length,
      (build sessions width gapPx).xStart i ≤ (build sessions width gapPx).xEnd i := by
    intro i hi
    rw [← sub_nonneg]
    rcases Nat.lt_or_ge (i + 1) sessions.length with hnext | hlast
    · rw [xEnd_sub_xStart_build hnext]
      exact mul_nonneg (durationSecs_nonneg _) hscale
    · obtain rfl : i = sessions.length - 1 := by omega
      rw [xEnd_sub_xStart_build_last hne]
      exact (mul_nonneg (durationSecs_nonneg _) hscale).trans (durationSecs_last_le hne hroom)
  have hnext : ∀ i, i + 1 < sessions.length →
      (build sessions width gapPx).xStart (i + 1) = (build sessions width gapPx).xEnd i + gapPx :=
    fun i hi => xStart_succ_build hi
  refine ⟨fun i hi => ?_, hle, fun i hi => ?_, ?_⟩
  · rw [xStart_build sessions width gapPx hi]
    exact add_nonneg (mul_nonneg (secsBefore_nonneg sessions i) hscale)
      (mul_nonneg (Nat.cast_nonneg i) hgap)
  · rw [hnext i hi]
    exact le_add_of_nonneg_right hgap
  · -- from the last session down
    intro i hi
    obtain ⟨k, hk⟩ : ∃ k, sessions.length = i + 1 + k := ⟨sessions.length - (i + 1), by omega⟩
    induction k generalizing i with
    | zero =>
      obtain rfl : i = sessions.length - 1 := by omega
      exact (xEnd_build_last sessions width gapPx hne).le
    | succ k ih =>
      have hright := ih (i + 1) (by omega) (by omega)
      have := hnext i (by omega)
      linarith [hle (i + 1) (by omega)]

include hne in
/-- Without room for the gaps the sessions but the last are nothing but their gaps. -/
theorem edges_of_no_room (hroom : room sessions width gapPx ≤ 0) {i : ℕ} (hi : i < sessions.length) :
    (build sessions width gapPx).xStart i = i * gapPx ∧
      (i + 1 < sessions.length → (build sessions width gapPx).xEnd i = i * gapPx) ∧
        (build sessions width gapPx).xEnd i ≤ (build sessions width gapPx).xStart i := by
  have hscale := scale_of_no_room sessions width gapPx hroom
  have hstart : (build sessions width gapPx).xStart i = i * gapPx := by
    rw [xStart_build sessions width gapPx hi, hscale, mul_zero, zero_add]
  rcases Nat.lt_or_ge (i + 1) sessions.length with hnext | hlast
  · have hend : (build sessions width gapPx).xEnd i = i * gapPx := by
      rw [xEnd_build sessions width gapPx hnext, hscale, mul_zero, zero_add]
    exact ⟨hstart, fun _ => hend, (hend.trans hstart.symm).le⟩
  · obtain rfl : i = sessions.length - 1 := by omega
    refine ⟨hstart, fun hnext => absurd hnext (by omega), ?_⟩
    rw [← sub_nonpos, xEnd_sub_xStart_build_last hne, hscale, mul_zero, sub_zero]
    exact hroom

include hgap hne in
theorem edged_build_init (hroom : room sessions width gapPx ≤ 0)
    (hfits : gapPx * (sessions.length - 2) ≤ width) :
    (build sessions width gapPx).Edged (sessions.length - 1) := by
  have hstart : ∀ i < sessions.length - 1, (build sessions width gapPx).xStart i = i * gapPx :=
    fun i hi =>
    (edges_of_no_room hne hroom (by omega)).1
  have hend : ∀ i < sessions.length - 1, (build sessions width gapPx).xEnd i = i * gapPx := fun i hi =>
    (edges_of_no_room hne hroom (by omega)).2.1 (by omega)
  refine ⟨fun i hi => ?_, fun i hi => ?_, fun i hi => ?_, fun i hi => ?_⟩
  · rw [hstart i hi]
    exact mul_nonneg (Nat.cast_nonneg i) hgap
  · rw [hstart i hi, hend i hi]
  · rw [hend i (by omega), hstart (i + 1) hi]
    push_cast
    linarith
  · have hle : (i : ℚ) ≤ sessions.length - 2 := by
      have : ((i + 2 : ℕ) : ℚ) ≤ sessions.length := by
        exact_mod_cast (by omega : i + 2 ≤ sessions.length)
      push_cast at this
      linarith
    rw [hend i hi, mul_comm]
    exact (mul_le_mul_of_nonneg_left hle hgap).trans hfits

include hp hne in
/-- The pixels that a session is drawn over, where there is something to draw. -/
theorem xEnd_sub_xStart_eq_drawn (hroom : 0 ≤ room sessions width gapPx) {i : ℕ}
    (hi : i < sessions.length)
    (h : i + 1 < sessions.length ∨ (nth sessions i).opens < (nth sessions i).closes) :
    (build sessions width gapPx).xEnd i - (build sessions width gapPx).xStart i =
      drawn sessions width gapPx i := by
  have hscale := scale_of_room sessions width gapPx hroom
  rcases Nat.lt_or_ge (i + 1) sessions.length with hnext | hlast
  · rw [xEnd_sub_xStart_build hnext, hscale, drawn, nth]
  · obtain rfl : i = sessions.length - 1 := by omega
    have hpos := (durationSecs_pos_iff hp (nth_mem hi)).mpr (h.resolve_left (by omega))
    have hsucc := secsBefore_succ sessions hi
    rw [Nat.sub_add_cancel (List.length_pos_of_ne_nil hne), secsBefore_length] at hsucc
    have hsum : (sessions.map durationSecs).sum ≠ 0 := by
      have := secsBefore_nonneg sessions (sessions.length - 1)
      rw [hsucc]
      exact (add_pos_of_nonneg_of_pos this hpos).ne'
    have hall : (sessions.map durationSecs).sum * (room sessions width gapPx /
        (sessions.map durationSecs).sum) = room sessions width gapPx := mul_div_cancel₀ _ hsum
    have hparts := congrArg (· * (room sessions width gapPx / (sessions.map durationSecs).sum)) hsucc
    simp only [hall, add_mul] at hparts
    rw [xEnd_sub_xStart_build_last hne, hscale, drawn]
    linarith

include hp in
theorem edges_of_empty {i : ℕ} (hi : i + 1 < sessions.length)
    (hempty : (nth sessions i).opens = (nth sessions i).closes) :
    (build sessions width gapPx).xStart i = (build sessions width gapPx).xEnd i := by
  have hmem : nth sessions i ∈ sessions := nth_mem (by omega)
  have hzero : durationSecs (nth sessions i) = 0 := by
    refine le_antisymm (not_lt.mp fun hpos => ?_) (durationSecs_nonneg _)
    exact absurd ((durationSecs_pos_iff hp hmem).mp hpos) hempty.not_lt
  have hwidth := @xEnd_sub_xStart_build sessions width gapPx i hi
  rw [hzero, zero_mul] at hwidth
  exact (sub_eq_zero.mp hwidth).symm

include hp in
/-- The close of a session that is not the last is at its right edge. -/
theorem project_closes_build {i : ℕ} (hi : i + 1 < sessions.length) :
    (build sessions width gapPx).projectInSession i (nth sessions i).closes =
      (build sessions width gapPx).xEnd i := by
  refine projectInSession_closes (a := build sessions width gapPx) hp (Nat.lt_of_succ_lt hi) ?_
  rcases (hp.le _ (nth_mem (Nat.lt_of_succ_lt hi))).eq_or_lt with heq | hlt
  · exact Or.inr (edges_of_empty hp hi heq)
  · exact Or.inl hlt

include hp hsorted in
/-- Where a session opens at the close of the one before it, that one has the instant. -/
theorem toX_touching {i : ℕ} (hi : i + 1 < sessions.length)
    (htouch : (nth sessions i).closes = (nth sessions (i + 1)).opens)
    (hlt : (nth sessions (i + 1)).opens < (nth sessions (i + 1)).closes) :
    (build sessions width gapPx).toX (nth sessions (i + 1)).opens =
      (build sessions width gapPx).xEnd i := by
  have hfound := findSessionForTs_inside (@timed_build sessions width gapPx hp hsorted) hi
    le_rfl hlt
  rw [if_pos ⟨Nat.succ_pos i, rfl, htouch⟩] at hfound
  have hx := toX_ok (a := build sessions width gapPx) hfound
  rw [Nat.add_sub_cancel] at hx
  exact hx.trans (htouch ▸ project_closes_build hp hi)

include hgap hne in
/-- With a gap after it the right edge of a session is its own. -/
theorem fromX_xEnd_build (hroom : 0 ≤ room sessions width gapPx) (hpos : 0 < gapPx) {i : ℕ}
    (hi : i + 1 < sessions.length) :
    (build sessions width gapPx).fromX ((build sessions width gapPx).xEnd i) =
      some ((build sessions width gapPx).unprojectInSession i
        ((build sessions width gapPx).xEnd i)) := by
  have he := @edged_build sessions width gapPx hgap hne hroom
  refine fromX_of_find ⟨(he.nonneg i (by omega)).trans (he.le i (by omega)), he.width i (by omega)⟩ ?_
  refine findSessionForX_inside he length_xStarts_build (Nat.lt_of_succ_lt hi) (he.le i (by omega))
    le_rfl
    fun k hk hn => ?_
  have hnext := @xStart_succ_build sessions width gapPx i hi
  exact (by linarith : (build sessions width gapPx).xEnd i < _).trans_le (he.xStart_mono hk hn)

include hp hsorted hgap hne in
/-- An instant inside a session that is wider than epsilon comes back. -/
theorem inverse_build (hroom : 0 ≤ room sessions width gapPx) (hfits : Fits sessions width gapPx)
    {i : ℕ}
    (hi : i < sessions.length)
    (hwide : epsilon < (build sessions width gapPx).xEnd i - (build sessions width gapPx).xStart i)
    {t : Instant} (hopens : (nth sessions i).opens ≤ t) (hcloses : t < (nth sessions i).closes) :
    (build sessions width gapPx).fromX ((build sessions width gapPx).toX t) = some t := by
  have ht : (build sessions width gapPx).Timed := timed_build hp hsorted
  have he := @edged_build sessions width gapPx hgap hne hroom
  have hstrict : (build sessions width gapPx).xStart i < (build sessions width gapPx).xEnd i :=
    sub_pos.mp (epsilon_pos.trans hwide)
  have hfound := findSessionForTs_inside ht hi hopens hcloses
  split at hfound
  · rename_i hedge
    obtain ⟨hpos, hopen, hclose⟩ := hedge
    obtain ⟨j, rfl⟩ : ∃ j, i = j + 1 := ⟨i - 1, by omega⟩
    have hopen : (nth sessions (j + 1)).opens = t := hopen
    have hclose : (nth sessions j).closes = t := hclose
    have hx := @toX_touching sessions width gapPx hp hsorted j hi (hclose.trans hopen.symm)
      (hopen.trans_lt hcloses)
    rw [hopen] at hx
    rw [hx]
    rcases hgap.eq_or_lt with hzero | hgappos
    · -- without a gap the two edges are one, and it is the later session's
      have hedges : (build sessions width gapPx).xStart (j + 1) =
          (build sessions width gapPx).xEnd j := by
        rw [xStart_succ_build hi, ← hzero, add_zero]
      have hown := findSessionForX_inside he length_xStarts_build hi le_rfl hstrict.le fun k hk hn =>
        hstrict.trans_le (he.xEnd_le_xStart hk hn)
      rw [← hedges, fromX_of_find ⟨he.nonneg _ hi, hstrict.le.trans (he.width _ hi)⟩ hown,
        unprojectInSession_xStart]
      exact congrArg some hopen
    · rw [fromX_xEnd_build hgap hne hroom hgappos hi]
      congr 1
      have hmem : nth sessions j ∈ sessions := nth_mem (by omega)
      rcases (hp.le _ hmem).eq_or_lt with heq | hlt
      · rw [← edges_of_empty hp hi heq, unprojectInSession_xStart]
        exact heq.trans hclose
      · rw [xEnd_sub_xStart_eq_drawn hp hne hroom hi (Or.inr (hopen.trans_lt hcloses))] at hwide
        have hpart := (hfits.touching hgappos j hi (hclose.trans hopen.symm) hwide).resolve_left hlt.ne
        rw [← xEnd_sub_xStart_eq_drawn hp hne hroom (Nat.lt_of_succ_lt hi) (Or.inl hi)] at hpart
        have hback := (unprojectInSession_xEnd_iff (a := build sessions width gapPx) hp
          (Nat.lt_of_succ_lt hi) hlt (he.le j (Nat.lt_of_succ_lt hi))).mpr hpart
        exact hback.trans hclose
  · -- the instant is this session's own
    have hleft := xStart_le_projectInSession (a := build sessions width gapPx) hp hi hstrict.le hopens
      hcloses.le
    have hright :=
      projectInSession_lt_xEnd (a := build sessions width gapPx) hp hi hstrict hopens hcloses
    have hown := findSessionForX_inside he length_xStarts_build hi hleft hright.le fun k hk hn =>
      hright.trans_le (he.xEnd_le_xStart hk hn)
    rw [toX_ok hfound, fromX_of_find ⟨(he.nonneg i hi).trans hleft,
      hright.le.trans (he.width i hi)⟩ hown,
      unprojectInSession_project (a := build sessions width gapPx) hp hi hwide hopens hcloses.le]

include hp in
theorem second_le_of_opens_lt {s : Session} (hs : s ∈ sessions) (hlt : s.opens < s.closes) :
    s.opens + Instant.second ≤ s.closes := by
  obtain ⟨secs, secs', hopens, hcloses⟩ := hp.whole s hs
  rw [hopens, hcloses, Instant.ofTimestamp_lt_ofTimestamp] at hlt
  rw [hopens, hcloses]
  have := mul_le_mul_of_nonneg_right (Int.add_one_le_of_lt hlt) (by decide : (0 : ℤ) ≤ Instant.second)
  rw [add_mul, one_mul] at this
  exact this

include hp hsorted hne in
/-- Gaps that do not fit push the last session past the right edge, unless it is not seen at all. -/
theorem gaps_of_range (hwidth : 0 < width)
    (hrange : ∀ t, (build sessions width gapPx).toX t ≤ width) :
    gapPx * (sessions.length - 1) ≤ width ∨
      (nth sessions (sessions.length - 1)).opens = (nth sessions (sessions.length - 1)).closes ∧
        (nth sessions (sessions.length - 2)).closes = (nth sessions (sessions.length - 1)).opens ∧
          gapPx * (sessions.length - 2) ≤ width := by
  rw [or_iff_not_imp_left, not_le]
  intro hwide
  have ht : (build sessions width gapPx).Timed := timed_build hp hsorted
  have hpos : 0 < sessions.length := List.length_pos_of_ne_nil hne
  have hlen : 1 < sessions.length := by
    by_contra hone
    obtain hone : sessions.length = 1 := by omega
    rw [hone, Nat.cast_one, sub_self, mul_zero] at hwide
    exact absurd hwide hwidth.not_gt
  have hroom : room sessions width gapPx ≤ 0 := sub_nonpos.mpr hwide.le
  have hlast : sessions.length - 1 < sessions.length := by omega
  have hmem := nth_mem hlast
  have hstart : width < (build sessions width gapPx).xStart (sessions.length - 1) := by
    rw [(edges_of_no_room hne hroom hlast).1, cast_pred hne, mul_comm]
    exact hwide
  have hfound : ∀ t, (nth sessions (sessions.length - 1)).opens ≤ t →
      (build sessions width gapPx).findSessionForTs t =
        if 1 < sessions.length ∧ (nth sessions (sessions.length - 1)).opens = t ∧
            (nth sessions (sessions.length - 2)).closes = t then .ok (sessions.length - 2)
        else if t ≤ (nth sessions (sessions.length - 1)).closes then .ok (sessions.length - 1)
        else .error sessions.length := fun t => findSessionForTs_last ht hpos
  rcases (hp.le _ hmem).eq_or_lt with heq | hlt
  · by_cases htouch :
        (nth sessions (sessions.length - 2)).closes = (nth sessions (sessions.length - 1)).opens
    · refine ⟨heq, htouch, ?_⟩
      have hown := hfound _ le_rfl
      rw [if_pos ⟨hlen, rfl, htouch⟩] at hown
      have hnext : sessions.length - 2 + 1 < sessions.length := by omega
      have hx := (toX_ok hown).trans (htouch ▸ project_closes_build hp hnext)
      have hle := hrange (nth sessions (sessions.length - 1)).opens
      rw [hx, (edges_of_no_room hne hroom (by omega)).2.1 hnext, Nat.cast_sub hlen] at hle
      rw [mul_comm]
      exact_mod_cast hle
    · have hown := hfound _ le_rfl
      rw [if_neg fun h => htouch h.2.2, if_pos heq.le] at hown
      have hx := (toX_ok hown).trans (projectInSession_opens (a := build sessions width gapPx) hp hlast)
      have hle := hrange (nth sessions (sessions.length - 1)).opens
      rw [hx] at hle
      exact absurd hle (not_le.mpr hstart)
  · -- a nanosecond after its open
    have hsecond := second_le_of_opens_lt hp hmem hlt
    have hle : (nth sessions (sessions.length - 1)).opens ≤
        (nth sessions (sessions.length - 1)).opens + 1 := le_add_of_nonneg_right zero_le_one
    have hbefore : (nth sessions (sessions.length - 1)).opens + 1 <
        (nth sessions (sessions.length - 1)).closes :=
      (Int.add_lt_add_left (by decide : (1 : ℤ) < Instant.second) _).trans_le hsecond
    have hne' : (nth sessions (sessions.length - 1)).opens ≠
        (nth sessions (sessions.length - 1)).opens + 1 := (lt_add_of_pos_right _ zero_lt_one).ne
    have hown := hfound _ hle
    rw [if_neg fun h => hne' h.2.1, if_pos hbefore.le] at hown
    have hedges := (xEnd_build_last sessions width gapPx hne).trans_lt hstart
    have hover := xEnd_lt_projectInSession (a := build sessions width gapPx) hp hlast hedges hle hbefore
    have hin := hrange ((nth sessions (sessions.length - 1)).opens + 1)
    rw [toX_ok hown] at hin
    rw [xEnd_build_last sessions width gapPx hne] at hover
    exact absurd hin (not_le.mpr hover)

include hp hsorted hgap hne in
theorem touching_of_inverse (hroom : 0 ≤ room sessions width gapPx)
    (hinverse : ∀ i < sessions.length,
      epsilon < (build sessions width gapPx).xEnd i - (build sessions width gapPx).xStart i →
        ∀ t, (nth sessions i).opens ≤ t → t < (nth sessions i).closes →
          (build sessions width gapPx).fromX ((build sessions width gapPx).toX t) = some t)
    (hgappos : 0 < gapPx) {i : ℕ} (hi : i + 1 < sessions.length)
    (htouch : (nth sessions i).closes = (nth sessions (i + 1)).opens)
    (hdrawn : epsilon < drawn sessions width gapPx (i + 1)) :
    (nth sessions i).opens = (nth sessions i).closes ∨
      (((nth sessions i).closes - (nth sessions i).opens : ℤ) : ℚ) *
        (1 - drawn sessions width gapPx i / epsilon) ≤ 1 / 2 := by
  have he := @edged_build sessions width gapPx hgap hne hroom
  have hlt : (nth sessions (i + 1)).opens < (nth sessions (i + 1)).closes := by
    refine (durationSecs_pos_iff hp (nth_mem hi)).mp ((durationSecs_nonneg _).lt_of_ne fun hzero => ?_)
    rw [drawn, ← nth, ← hzero, zero_mul] at hdrawn
    exact absurd hdrawn epsilon_pos.not_gt
  have hwide := (xEnd_sub_xStart_eq_drawn hp hne hroom hi (Or.inr hlt)).symm ▸ hdrawn
  have hback := hinverse (i + 1) hi hwide (nth sessions (i + 1)).opens le_rfl hlt
  rw [toX_touching hp hsorted hi htouch hlt, fromX_xEnd_build hgap hne hroom hgappos hi] at hback
  rcases (hp.le _ (nth_mem (Nat.lt_of_succ_lt hi))).eq_or_lt with heq | hopen
  · exact Or.inl heq
  · right
    rw [← xEnd_sub_xStart_eq_drawn hp hne hroom (Nat.lt_of_succ_lt hi) (Or.inl hi)]
    exact (unprojectInSession_xEnd_iff (a := build sessions width gapPx) hp (Nat.lt_of_succ_lt hi) hopen
      (he.le i (Nat.lt_of_succ_lt hi))).mp ((Option.some.inj hback).trans htouch.symm)

include hp hsorted hgap hne in
/-- The last session is empty and is not seen, and the others have their place. -/
theorem projects_of_hidden (hwidth : 0 < width) (hroom : room sessions width gapPx ≤ 0)
    (hempty : (nth sessions (sessions.length - 1)).opens = (nth sessions (sessions.length - 1)).closes)
    (htouch : (nth sessions (sessions.length - 2)).closes = (nth sessions (sessions.length - 1)).opens)
    (hlen : 1 < sessions.length) (hfits : gapPx * (sessions.length - 2) ≤ width) :
    (build sessions width gapPx).Projects := by
  have ht : (build sessions width gapPx).Timed := timed_build hp hsorted
  have he := edged_build_init hgap hne hroom hfits
  have hle : (build sessions width gapPx).sessions.length ≤ sessions.length - 1 + 1 := by
    simp only [build]
    omega
  have howner : ∀ t i, (build sessions width gapPx).findSessionForTs t = .ok i →
      i < sessions.length - 1 := by
    intro t i hi
    obtain ⟨hlt, hopens, hcloses, -⟩ := findSessionForTs_ok ht hi
    have hlt : i < sessions.length := hlt
    by_contra hge
    obtain rfl : i = sessions.length - 1 := by omega
    have hown := findSessionForTs_last ht (by omega) hopens
    have ht : (nth sessions (sessions.length - 1)).opens = t :=
      le_antisymm hopens (hempty.symm ▸ hcloses)
    rw [if_pos ⟨hlen, ht, htouch.trans ht⟩, hi] at hown
    have heq : sessions.length - 1 = sessions.length - 2 := Except.ok.inj hown
    omega
  have hwidth : 0 ≤ (build sessions width gapPx).width := hwidth.le
  refine ⟨fun t t' h => toX_mono hp ht he hle howner hwidth h, toX_range hp ht he hle howner hwidth,
    fun i hi hwide => ?_, fromXSnapped_spec _⟩
  have hnone := (edges_of_no_room hne hroom hi).2.2
  exact absurd (epsilon_pos.trans hwide) (not_lt.mpr (sub_nonpos.mpr hnone))

include hp hsorted hgap hne in
theorem projects_of_room (hwidth : 0 < width) (hroom : 0 ≤ room sessions width gapPx)
    (hfits : Fits sessions width gapPx) : (build sessions width gapPx).Projects := by
  have ht : (build sessions width gapPx).Timed := timed_build hp hsorted
  have he := @edged_build sessions width gapPx hgap hne hroom
  have howner : ∀ t i, (build sessions width gapPx).findSessionForTs t = .ok i → i < sessions.length :=
    fun t i hi => (findSessionForTs_ok ht hi).1
  have hwidth : 0 ≤ (build sessions width gapPx).width := hwidth.le
  exact ⟨fun t t' h => toX_mono hp ht he (Nat.le_succ _) howner hwidth h,
    toX_range hp ht he (Nat.le_succ _) howner hwidth,
    fun i hi hwide t hopens hcloses =>
      inverse_build hp hsorted hgap hne hroom hfits hi hwide hopens hcloses,
    fromXSnapped_spec _⟩

include hp hsorted hgap hne in
theorem projects_build_iff (hwidth : 0 < width) :
    (build sessions width gapPx).Projects ↔ Fits sessions width gapPx := by
  constructor
  · intro h
    refine ⟨gaps_of_range hp hsorted hne hwidth fun t => (h.range t).2, ?_⟩
    intro hgappos i hi htouch hdrawn
    rcases le_total 0 (room sessions width gapPx) with hroom | hroom
    · exact touching_of_inverse hp hsorted hgap hne hroom h.inverse hgappos hi htouch hdrawn
    · have epsilon_pos : (0 : ℚ) < epsilon := by norm_num [epsilon]
      have hsum := secsBefore_nonneg sessions sessions.length
      rw [secsBefore_length] at hsum
      have hnone : drawn sessions width gapPx (i + 1) ≤ 0 :=
        mul_nonpos_of_nonneg_of_nonpos (durationSecs_nonneg _)
          (div_nonpos_of_nonpos_of_nonneg hroom hsum)
      exact absurd (epsilon_pos.trans hdrawn) (not_lt.mpr hnone)
  · intro h
    rcases le_total 0 (room sessions width gapPx) with hroom | hroom
    · exact projects_of_room hp hsorted hgap hne hwidth hroom h
    rcases h.gaps with hfit | ⟨hempty, htouch, hfit⟩
    · exact projects_of_room hp hsorted hgap hne hwidth (room_nonneg_iff.mpr hfit) h
    · by_cases hlen : 1 < sessions.length
      · exact projects_of_hidden hp hsorted hgap hne hwidth hroom hempty htouch hlen hfit
      · have hone : sessions.length = 1 := by
          have := List.length_pos_of_ne_nil hne
          omega
        have hall : 0 ≤ room sessions width gapPx := by
          rw [room_nonneg_iff, hone, Nat.cast_one, sub_self, mul_zero]
          exact hwidth.le
        exact projects_of_room hp hsorted hgap hne hwidth hall h

end Build

/-- What the constructor lets through. -/
theorem new_ok {sessions : List Session} {widthPx gapPx : Option ℚ} {ax : CompressedAxis}
    (h : new sessions widthPx gapPx = .ok ax) :
    0 < ax.width ∧ 0 ≤ ax.gapPx ∧ unsorted sessions = false ∧
      ax = if sessions = [] then ⟨[], [], [], ax.width, ax.gapPx⟩
        else build sessions ax.width ax.gapPx := by
  unfold new at h
  cases widthPx with
  | none => cases h
  | some width =>
    simp only at h
    split at h
    · cases h
    rename_i hwidth
    cases gapPx with
    | none => cases h
    | some gap =>
      simp only at h
      split at h
      · cases h
      rename_i hgap
      split at h
      · cases h
      rename_i hsorted
      split at h
      · rename_i hnil
        obtain rfl := Except.ok.inj h
        exact ⟨not_le.mp hwidth, not_lt.mp hgap, by simpa using hsorted, by rw [if_pos hnil]⟩
      · rename_i hne
        obtain rfl := Except.ok.inj h
        exact ⟨not_le.mp hwidth, not_lt.mp hgap, by simpa using hsorted, by rw [if_neg hne]; rfl⟩

theorem projects_empty {width gapPx : ℚ} (hwidth : 0 < width) :
    (⟨[], [], [], width, gapPx⟩ : CompressedAxis).Projects where
  mono _ _ _ := le_rfl
  range _ := ⟨le_rfl, hwidth.le⟩
  inverse i hi := absurd hi (Nat.not_lt_zero i)
  snapped := fromXSnapped_spec _

/-- An axis over the sessions of a calendar projects in order and back if and only if its gaps fit and
    part no session from one that is too narrow. -/
theorem projects_iff_fits {sessions : List Session} {widthPx gapPx : Option ℚ} {ax : CompressedAxis}
    (hp : Proper sessions) (h : new sessions widthPx gapPx = .ok ax) :
    ax.Projects ↔ Fits sessions ax.width ax.gapPx := by
  obtain ⟨hwidth, hgap, hsorted, hax⟩ := new_ok h
  split at hax
  · rename_i hnil
    subst hnil
    rw [hax]
    refine iff_of_true (projects_empty hwidth) ⟨Or.inl ?_, fun _ i hi => absurd hi (Nat.not_lt_zero _)⟩
    simp only [List.length_nil, Nat.cast_zero, zero_sub, mul_neg, mul_one]
    linarith
  · rename_i hne
    rw [hax]
    exact projects_build_iff hp hsorted hgap hne hwidth

/-- The days of the crypto calendar are sessions of an axis. -/
theorem proper_cryptoSpot (tsFrom tsTo : Instant) :
    Proper (CryptoSpot.sessionsBetween tsFrom tsTo) := by
  have hdays : ∀ s ∈ CryptoSpot.sessionsBetween tsFrom tsTo,
      ∃ d, 0 ≤ d ∧ d < 47482 ∧ s = CryptoSpot.daySession d := by
    intro s hs
    unfold CryptoSpot.sessionsBetween at hs
    split at hs
    · cases hs
    obtain ⟨d, hle, hlt, hs⟩ := Walk.mem_collect.mp hs
    have hstart : CryptoSpot.coverageStart = 0 := by decide +kernel
    have hend : CryptoSpot.coverageEnd = 47482 := by decide +kernel
    refine ⟨d, by omega, by omega, List.mem_singleton.mp (List.mem_of_mem_filter hs)⟩
  have hopens : ∀ d, (CryptoSpot.daySession d).opens = Instant.ofTimestamp (d * 86400) := by
    intro d
    simp only [CryptoSpot.daySession, Session.new, Instant.ofDate, Instant.day, Instant.ofTimestamp]
    ring
  have hcloses : ∀ d, (CryptoSpot.daySession d).closes = Instant.ofTimestamp ((d + 1) * 86400) := by
    intro d
    rw [CryptoSpot.closes_daySession]
    simp only [Instant.ofDate, Instant.day, Instant.ofTimestamp]
    ring
  refine ⟨fun s hs => ?_, fun s hs => ?_, fun s hs _ => ?_⟩ <;> obtain ⟨d, hle, hlt, rfl⟩ := hdays s hs
  · rw [hopens, hcloses, Instant.ofTimestamp_le, Instant.timestamp_ofTimestamp]
    linarith
  · exact ⟨_, _, hopens d, hcloses d⟩
  · rw [hopens, hcloses]
    simp only [Instant.ofTimestamp, Instant.second]
    refine ⟨?_, ?_, ?_⟩ <;> norm_num <;> linarith

/-- The first two days of the crypto calendar. -/
def twoDays : List Session := CryptoSpot.sessionsBetween 0 (Instant.ofDate 2)

def threeDays : List Session := CryptoSpot.sessionsBetween 0 (Instant.ofDate 3)

theorem twoDays_project : (build twoDays 100 10).Projects := by
  have hnew : new twoDays (some 100) (some 10) = .ok (build twoDays 100 10) := rfl
  have hproper : Proper twoDays := proper_cryptoSpot _ _
  refine (projects_iff_fits hproper hnew).mpr ⟨Or.inl ?_, fun _ i hi _ _ => Or.inr ?_⟩
  · decide +kernel
  · have hlen : twoDays.length = 2 := by decide +kernel
    obtain rfl : i = 0 := by omega
    decide +kernel

/-- Two gaps of 8 pixels in 10: the third day is right of the axis. -/
theorem threeDays_off_the_axis : new threeDays (some 10) (some 8) = .ok (build threeDays 10 8) ∧
    Proper threeDays ∧ 10 < (build threeDays 10 8).toX (Instant.ofDate 2 + 1) ∧
      ¬ (build threeDays 10 8).Projects := by
  have hover : 10 < (build threeDays 10 8).toX (Instant.ofDate 2 + 1) := by decide +kernel
  exact ⟨rfl, proper_cryptoSpot _ _, hover, fun h => absurd (h.range _).2 (not_le.mpr hover)⟩

/-- A second and the years after it: the close of the second is read back as an earlier instant. -/
example :
    let a := build [.new CryptoSpot.cryptoSpotId .regular 0 (Instant.ofTimestamp 1),
      .new CryptoSpot.cryptoSpotId .regular (Instant.ofTimestamp 1) (Instant.ofTimestamp 1000000000)]
        101 1
    epsilon < a.xEnd 1 - a.xStart 1 ∧ a.fromX (a.toX (Instant.ofTimestamp 1)) = some 838860800 := by
  decide +kernel

end CompressedAxis

end Midas.Axis
