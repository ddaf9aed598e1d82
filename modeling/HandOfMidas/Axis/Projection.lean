import HandOfMidas.Axis.Places

/-! The compressed axis as a projection and back: when it keeps the order, its range and its inverse. -/

namespace Midas.Axis

open Calendar Search

namespace CompressedAxis

theorem roundHalfAway_intCast (k : ℤ) : roundHalfAway (k : ℚ) = k := by
  unfold roundHalfAway
  split
  · rw [Int.floor_eq_iff]
    constructor <;> linarith
  · rw [Int.ceil_eq_iff]
    constructor <;> linarith

/-- A part of a whole rounds to it from half a unit below on. -/
theorem roundHalfAway_eq_iff {q : ℚ} {k : ℤ} (hq : 0 ≤ q) (hqk : q ≤ k) :
    roundHalfAway q = k ↔ (k : ℚ) - q ≤ 1 / 2 := by
  rw [roundHalfAway, if_pos hq, Int.floor_eq_iff]
  constructor
  · rintro ⟨hle, -⟩
    linarith
  · intro hle
    constructor <;> linarith

section Session

variable {a : CompressedAxis} (hp : Proper a.sessions) {i : ℕ} (hi : i < a.sessions.length)

include hp hi

omit hp in
theorem session_mem : a.session i ∈ a.sessions := getD_mem hi

/-- An empty session has a nanosecond of its own, so that there is something to divide by. -/
theorem durNs_eq : a.durNs i = (max ((a.session i).closes - (a.session i).opens) 1 : ℤ) := by
  rcases (hp.le _ (session_mem hi)).eq_or_lt with heq | hlt
  · unfold durNs boundsNs
    rw [← heq]
    rcases ho : (a.session i).opens.timestampNanosOpt with _ | ns
    · simp
    · simp
  · obtain ⟨hopens, hcloses, -⟩ := hp.nanos _ (session_mem hi) hlt
    have ho : (a.session i).opens.timestampNanosOpt = some (a.session i).opens :=
      if_pos ⟨hopens, hlt.trans hcloses⟩
    have hc : (a.session i).closes.timestampNanosOpt = some (a.session i).closes :=
      if_pos ⟨hopens.trans hlt.le, hcloses⟩
    simp only [durNs, boundsNs, ho, hc, Option.getD_some]

theorem durNs_pos : 0 < a.durNs i := by
  rw [durNs_eq hp hi]
  exact_mod_cast lt_max_of_lt_right one_pos

theorem sub_le_durNs {t : Instant} (ht : t ≤ (a.session i).closes) :
    ((t - (a.session i).opens : ℤ) : ℚ) ≤ a.durNs i := by
  rw [durNs_eq hp hi]
  exact_mod_cast le_max_of_le_left (sub_le_sub_right ht _)

/-- Inside a session pixels are in proportion to time. -/
theorem projectInSession_eq {t : Instant} (hopens : (a.session i).opens ≤ t)
    (hcloses : t ≤ (a.session i).closes) :
    a.projectInSession i t = a.xStart i +
      (a.xEnd i - a.xStart i) * (((t - (a.session i).opens : ℤ) : ℚ) / a.durNs i) := by
  have hsub : t.timestampNanosOpt.getD (a.boundsNs i).1 - (a.boundsNs i).1 =
      t - (a.session i).opens := by
    rcases hopens.eq_or_lt with heq | hlt
    · rw [boundsNs, ← heq]
      rcases ho : (a.session i).opens.timestampNanosOpt with _ | ns
      · simp
      · simp
    · obtain ⟨ho, hc, -⟩ := hp.nanos _ (session_mem hi) (hlt.trans_le hcloses)
      have ht : t.timestampNanosOpt = some t := if_pos ⟨ho.trans hopens, hcloses.trans_lt hc⟩
      have hopen : (a.session i).opens.timestampNanosOpt = some (a.session i).opens :=
        if_pos ⟨ho, hlt.trans (hcloses.trans_lt hc)⟩
      simp only [boundsNs, ht, hopen, Option.getD_some]
  have hnonneg : (0 : ℚ) ≤ ((t - (a.session i).opens : ℤ) : ℚ) / a.durNs i :=
    div_nonneg (by exact_mod_cast sub_nonneg.mpr hopens) (durNs_pos hp hi).le
  have hone : ((t - (a.session i).opens : ℤ) : ℚ) / a.durNs i ≤ 1 :=
    (div_le_one (durNs_pos hp hi)).mpr (sub_le_durNs hp hi hcloses)
  simp only [projectInSession, hsub, min_eq_left hone, max_eq_right hnonneg]

theorem projectInSession_mono (hedge : a.xStart i ≤ a.xEnd i) {t t' : Instant} (htt' : t ≤ t')
    (hopens : (a.session i).opens ≤ t) (hcloses : t' ≤ (a.session i).closes) :
    a.projectInSession i t ≤ a.projectInSession i t' := by
  rw [projectInSession_eq hp hi hopens (htt'.trans hcloses),
    projectInSession_eq hp hi (hopens.trans htt') hcloses]
  have hpos := durNs_pos hp hi
  have hsub : ((t - (a.session i).opens : ℤ) : ℚ) ≤ ((t' - (a.session i).opens : ℤ) : ℚ) := by
    exact_mod_cast sub_le_sub_right htt' _
  have hpart := mul_le_mul_of_nonneg_left ((div_le_div_iff_of_pos_right hpos).mpr hsub)
    (sub_nonneg.mpr hedge)
  linarith

theorem projectInSession_opens : a.projectInSession i (a.session i).opens = a.xStart i := by
  rw [projectInSession_eq hp hi le_rfl (hp.le _ (session_mem hi)), sub_self, Int.cast_zero, zero_div,
    mul_zero, add_zero]

/-- The close is at the right edge, but for an empty session that has two edges. -/
theorem projectInSession_closes
    (h : (a.session i).opens < (a.session i).closes ∨ a.xStart i = a.xEnd i) :
    a.projectInSession i (a.session i).closes = a.xEnd i := by
  have hle := hp.le _ (session_mem hi)
  have hpos := durNs_pos hp hi
  rw [projectInSession_eq hp hi hle le_rfl]
  rcases h with hlt | heq
  · have hdur : ((((a.session i).closes - (a.session i).opens : ℤ) : ℚ)) = a.durNs i := by
      have hone : (1 : ℤ) ≤ (a.session i).closes - (a.session i).opens := Int.sub_pos_of_lt hlt
      rw [durNs_eq hp hi, max_eq_left hone]
    rw [hdur, div_self hpos.ne']
    ring
  · rw [heq]
    ring

theorem xStart_le_projectInSession (hedge : a.xStart i ≤ a.xEnd i) {t : Instant}
    (hopens : (a.session i).opens ≤ t) (hcloses : t ≤ (a.session i).closes) :
    a.xStart i ≤ a.projectInSession i t := by
  rw [← projectInSession_opens hp hi]
  exact projectInSession_mono hp hi hedge hopens le_rfl hcloses

theorem projectInSession_le_xEnd (hedge : a.xStart i ≤ a.xEnd i) {t : Instant}
    (hopens : (a.session i).opens ≤ t) (hcloses : t ≤ (a.session i).closes) :
    a.projectInSession i t ≤ a.xEnd i := by
  rw [projectInSession_eq hp hi hopens hcloses]
  have hone : ((t - (a.session i).opens : ℤ) : ℚ) / a.durNs i ≤ 1 :=
    (div_le_one (durNs_pos hp hi)).mpr (sub_le_durNs hp hi hcloses)
  have hpart := mul_le_mul_of_nonneg_left hone (sub_nonneg.mpr hedge)
  linarith

theorem sub_lt_durNs {t : Instant} (ht : t < (a.session i).closes) :
    ((t - (a.session i).opens : ℤ) : ℚ) / a.durNs i < 1 := by
  rw [div_lt_one (durNs_pos hp hi), durNs_eq hp hi]
  exact_mod_cast lt_max_of_lt_left (sub_lt_sub_right ht _)

/-- Before the close pixels are left of the right edge. -/
theorem projectInSession_lt_xEnd (hedge : a.xStart i < a.xEnd i) {t : Instant}
    (hopens : (a.session i).opens ≤ t) (hcloses : t < (a.session i).closes) :
    a.projectInSession i t < a.xEnd i := by
  have hpart := mul_lt_mul_of_pos_left (sub_lt_durNs hp hi hcloses) (sub_pos.mpr hedge)
  rw [projectInSession_eq hp hi hopens hcloses.le]
  linarith

/-- Where the edges are the wrong way round they are right of it. -/
theorem xEnd_lt_projectInSession (hedge : a.xEnd i < a.xStart i) {t : Instant}
    (hopens : (a.session i).opens ≤ t) (hcloses : t < (a.session i).closes) :
    a.xEnd i < a.projectInSession i t := by
  have hpart := mul_lt_mul_of_neg_left (sub_lt_durNs hp hi hcloses) (sub_neg.mpr hedge)
  rw [projectInSession_eq hp hi hopens hcloses.le]
  linarith

/-- A session wider than epsilon gives its instants back. -/
theorem unprojectInSession_project (hwide : epsilon < a.xEnd i - a.xStart i) {t : Instant}
    (hopens : (a.session i).opens ≤ t) (hcloses : t ≤ (a.session i).closes) :
    a.unprojectInSession i (a.projectInSession i t) = t := by
  have hpos := durNs_pos hp hi
  have hwidth : a.xEnd i - a.xStart i ≠ 0 := (epsilon_pos.trans hwide).ne'
  have hnonneg : (0 : ℚ) ≤ ((t - (a.session i).opens : ℤ) : ℚ) / a.durNs i :=
    div_nonneg (by exact_mod_cast sub_nonneg.mpr hopens) hpos.le
  have hone : ((t - (a.session i).opens : ℤ) : ℚ) / a.durNs i ≤ 1 :=
    (div_le_one hpos).mpr (sub_le_durNs hp hi hcloses)
  rw [projectInSession_eq hp hi hopens hcloses]
  simp only [unprojectInSession, max_eq_left hwide.le, add_sub_cancel_left,
    mul_div_cancel_left₀ _ hwidth,
    min_eq_left hone, max_eq_right hnonneg, div_mul_cancel₀ _ hpos.ne', roundHalfAway_intCast]
  exact add_sub_cancel _ _

/-- The right edge of a session gives its close back if what epsilon cuts off is half a nanosecond. -/
theorem unprojectInSession_xEnd_iff (hlt : (a.session i).opens < (a.session i).closes)
    (hedge : a.xStart i ≤ a.xEnd i) :
    a.unprojectInSession i (a.xEnd i) = (a.session i).closes ↔
      (((a.session i).closes - (a.session i).opens : ℤ) : ℚ) *
        (1 - (a.xEnd i - a.xStart i) / epsilon) ≤ 1 / 2 := by
  have hone : (1 : ℤ) ≤ (a.session i).closes - (a.session i).opens := Int.sub_pos_of_lt hlt
  have hdur : a.durNs i = (((a.session i).closes - (a.session i).opens : ℤ) : ℚ) := by
    rw [durNs_eq hp hi, max_eq_left hone]
  have hdurpos : (0 : ℚ) < (((a.session i).closes - (a.session i).opens : ℤ) : ℚ) := by
    exact_mod_cast hone
  have hwidth : 0 ≤ a.xEnd i - a.xStart i := sub_nonneg.mpr hedge
  have hopens : ∀ k : ℤ, (a.session i).opens + k = (a.session i).closes ↔
      k = (a.session i).closes - (a.session i).opens := fun k => eq_sub_iff_add_eq'.symm
  rw [unprojectInSession, hdur, hopens]
  rcases le_total epsilon (a.xEnd i - a.xStart i) with hwide | hnarrow
  · have hfrac : (1 : ℚ) ≤ (a.xEnd i - a.xStart i) / epsilon := (one_le_div epsilon_pos).mpr hwide
    have hneg := mul_nonneg hdurpos.le (sub_nonneg.mpr hfrac)
    rw [max_eq_left hwide, div_self (epsilon_pos.trans_le hwide).ne', min_self,
      max_eq_right zero_le_one,
      one_mul, roundHalfAway_intCast]
    exact iff_of_true rfl (by linarith)
  · have hfrac : (a.xEnd i - a.xStart i) / epsilon ≤ 1 := (div_le_one epsilon_pos).mpr hnarrow
    have hnonneg : 0 ≤ (a.xEnd i - a.xStart i) / epsilon := div_nonneg hwidth epsilon_pos.le
    rw [max_eq_right hnarrow, min_eq_left hfrac, max_eq_right hnonneg,
      roundHalfAway_eq_iff (mul_nonneg hnonneg hdurpos.le) (mul_le_of_le_one_left hdurpos.le hfrac)]
    constructor <;> intro hle <;> linarith

omit hp hi in
theorem unprojectInSession_xStart : a.unprojectInSession i (a.xStart i) = (a.session i).opens := by
  have hround : roundHalfAway (0 * a.durNs i) = 0 := by
    rw [zero_mul]
    exact roundHalfAway_intCast 0
  simp only [unprojectInSession, sub_self, zero_div, min_eq_left zero_le_one, max_self, hround,
    add_zero]

end Session

theorem toX_ok {a : CompressedAxis} {t : Instant} {i : ℕ} (hi : a.findSessionForTs t = .ok i) :
    a.toX t = a.projectInSession i t := by
  have hne : a.sessions ≠ [] := by
    intro hnil
    simp [findSessionForTs, hnil] at hi
  rw [toX, if_neg hne, hi]

theorem toX_error {a : CompressedAxis} {t : Instant} {k : ℕ} (hk : a.findSessionForTs t = .error k) :
    a.toX t = if k = 0 then 0 else if k = a.sessions.length then a.width else a.xEnd (k - 1) := by
  unfold toX
  rw [hk]
  split
  · rename_i hnil
    simp only [findSessionForTs, hnil, List.length_nil, if_true] at hk
    rw [← Except.error.inj hk, if_pos rfl]
  · rfl

section Row

variable {a : CompressedAxis} (hp : Proper a.sessions) (ht : a.Timed) {m : ℕ} (he : a.Edged m)
  (hm : a.sessions.length ≤ m + 1) (howner : ∀ t i, a.findSessionForTs t = .ok i → i < m)

include hp ht he hm howner

theorem toX_range (hwidth : 0 ≤ a.width) (t : Instant) : 0 ≤ a.toX t ∧ a.toX t ≤ a.width := by
  cases hf : a.findSessionForTs t with
  | ok i =>
    obtain ⟨hi, hopens, hcloses, -⟩ := findSessionForTs_ok ht hf
    have him := howner t i hf
    rw [toX_ok hf]
    exact ⟨(he.nonneg i him).trans (xStart_le_projectInSession hp hi (he.le i him) hopens hcloses),
      (projectInSession_le_xEnd hp hi (he.le i him) hopens hcloses).trans (he.width i him)⟩
  | error k =>
    obtain ⟨hk, -, -⟩ := findSessionForTs_error ht hf
    rw [toX_error hf]
    split
    · exact ⟨le_rfl, hwidth⟩
    · split
      · exact ⟨hwidth, le_rfl⟩
      · exact ⟨(he.nonneg _ (by omega)).trans (he.le _ (by omega)), he.width _ (by omega)⟩

/-- Time goes from left to right: an instant is in its session or at the right edge of the one
    before. -/
theorem toX_mono (hwidth : 0 ≤ a.width) {t t' : Instant} (htt' : t ≤ t') : a.toX t ≤ a.toX t' := by
  have hrange := toX_range hp ht he hm howner hwidth
  cases hf : a.findSessionForTs t with
  | ok i =>
    obtain ⟨hi, hopens, hcloses, hlater⟩ := findSessionForTs_ok ht hf
    have him := howner t i hf
    have hleft := projectInSession_le_xEnd hp hi (he.le i him) hopens hcloses
    rw [toX_ok hf]
    cases hf' : a.findSessionForTs t' with
    | ok j =>
      obtain ⟨hj, hopens', hcloses', hlater'⟩ := findSessionForTs_ok ht hf'
      have hjm := howner t' j hf'
      rw [toX_ok hf']
      rcases lt_trichotomy i j with hij | rfl | hji
      · exact (hleft.trans (he.xEnd_le_xStart hij hjm)).trans
          (xStart_le_projectInSession hp hj (he.le j hjm) hopens' hcloses')
      · exact projectInSession_mono hp hi (he.le i him) htt' hopens hcloses'
      · obtain rfl : t = t' := le_antisymm htt' ((hlater' i hji hi).trans hopens)
        rw [hf] at hf'
        exact absurd (Except.ok.inj hf') hji.ne'
    | error k =>
      obtain ⟨hk, hearlier, hlater'⟩ := findSessionForTs_error ht hf'
      have hik : i < k := by
        by_contra hki
        exact absurd ((hlater' i (not_lt.mp hki) hi).trans_le hopens) (not_lt.mpr htt')
      rw [toX_error hf', if_neg (by omega)]
      split
      · exact hleft.trans (he.width i him)
      · exact hleft.trans (he.xEnd_mono (by omega) (by omega))
  | error k =>
    obtain ⟨hk, hearlier, hlater⟩ := findSessionForTs_error ht hf
    rw [toX_error hf]
    split
    · exact (hrange t').1
    rename_i hkpos
    cases hf' : a.findSessionForTs t' with
    | ok j =>
      obtain ⟨hj, hopens', hcloses', -⟩ := findSessionForTs_ok ht hf'
      have hjm := howner t' j hf'
      have hkj : k ≤ j := by
        by_contra hjk
        exact absurd ((hearlier j (not_le.mp hjk)).trans_le htt') (not_lt.mpr hcloses')
      rw [if_neg (by omega), toX_ok hf']
      exact (he.xEnd_le_xStart (by omega) hjm).trans
        (xStart_le_projectInSession hp hj (he.le j hjm) hopens' hcloses')
    | error k' =>
      obtain ⟨hk', hearlier', hlater'⟩ := findSessionForTs_error ht hf'
      have hkk' : k ≤ k' := by
        by_contra hlt
        have hclosed := hearlier k' (not_le.mp hlt)
        have hopen := hlater' k' le_rfl (by omega)
        exact absurd ((ht.le k' (by omega)).trans hclosed.le) (not_le.mpr (htt'.trans_lt hopen))
      rw [toX_error hf', if_neg (by omega : k' ≠ 0)]
      split
      · rw [if_pos (by omega)]
      · split
        · exact he.width _ (by omega)
        · exact he.xEnd_mono (by omega) (by omega)

end Row

theorem fromX_of_find {a : CompressedAxis} {x : ℚ} {i : ℕ} (hx : 0 ≤ x ∧ x ≤ a.width)
    (hi : a.findSessionForX x = .ok i) : a.fromX x = some (a.unprojectInSession i x) := by
  have hne : a.sessions ≠ [] := by
    intro hnil
    simp [findSessionForX, hnil] at hi
  simp only [fromX, not_true, hx, and_self, if_false, if_neg hne, hi]

/-- The pixel that a snap looks at. -/
def clamped (a : CompressedAxis) : Option ℚ → ℚ
  | some x => max 0 (min x a.width)
  | none => 0

/-- What snapping does outside the sessions is a snap. -/
theorem fromXSnapped_of_find_error {a : CompressedAxis} {x : Option ℚ} {k : ℕ} (dir : SnapDirection)
    (hk : a.findSessionForX (a.clamped x) = .error k) : (a.fromXSnapped x dir).2 = true := by
  cases x <;> simp only [clamped] at hk <;> simp only [fromXSnapped, hk] <;> split
  · rfl
  · split <;> first | rfl | (split <;> rfl)
  · rfl
  · split <;> first | rfl | (split <;> rfl)

/-- The flag of a snap is raised where there is no instant, and elsewhere the snap is that instant. -/
theorem fromXSnapped_spec (a : CompressedAxis) (x : Option ℚ) (dir : SnapDirection) :
    ((a.fromXSnapped x dir).2 = true ↔ a.fromX x = none) ∧
      ((a.fromXSnapped x dir).2 = false → a.fromX x = some (a.fromXSnapped x dir).1) := by
  by_cases hnil : a.sessions = []
  · have hsnap : a.fromXSnapped x dir = (0, true) := if_pos hnil
    have hfrom : a.fromX x = none := by
      cases x with
      | none => rfl
      | some x => simp only [fromX, if_pos hnil, ite_self]
    rw [hsnap, hfrom]
    exact ⟨iff_of_true rfl rfl, fun h => by cases h⟩
  cases hf : a.findSessionForX (a.clamped x) with
  | error k =>
    have hsnap := fromXSnapped_of_find_error dir hf
    have hfrom : a.fromX x = none := by
      cases x with
      | none => rfl
      | some x =>
        by_cases hx : 0 ≤ x ∧ x ≤ a.width
        · simp only [clamped, min_eq_left hx.2, max_eq_right hx.1] at hf
          simp only [fromX, hx, and_self, not_true, if_false, if_neg hnil, hf]
        · simp only [fromX, if_pos hx]
    rw [hsnap, hfrom]
    exact ⟨iff_of_true rfl rfl, fun h => by cases h⟩
  | ok i =>
    cases x with
    | none =>
      have hsnap : (a.fromXSnapped none dir).2 = true := by
        simp only [clamped] at hf
        simp only [fromXSnapped, if_neg hnil, hf]
      rw [hsnap]
      exact ⟨iff_of_true rfl rfl, fun h => by cases h⟩
    | some x =>
      simp only [clamped] at hf
      by_cases hx : 0 ≤ x ∧ x ≤ a.width
      · have hclamp : max 0 (min x a.width) = x := by rw [min_eq_left hx.2, max_eq_right hx.1]
        rw [hclamp] at hf
        have hsnap : a.fromXSnapped x dir = (a.unprojectInSession i x, false) := by
          simp only [fromXSnapped, if_neg hnil, hclamp, hf, hx, and_self, not_true, decide_false]
        rw [hsnap, fromX_of_find hx hf]
        exact ⟨iff_of_false (by simp) (by simp), fun _ => rfl⟩
      · have hsnap : (a.fromXSnapped x dir).2 = true := by
          simp only [fromXSnapped, if_neg hnil, hf, hx, not_false_iff, decide_true]
        have hfrom : a.fromX x = none := by simp only [fromX, if_pos hx]
        rw [hsnap, hfrom]
        exact ⟨iff_of_true rfl rfl, fun h => by cases h⟩

end CompressedAxis

end Midas.Axis
