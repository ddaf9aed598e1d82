import HandOfMidas.Calendar.Sessions
import HandOfMidas.Calendar.Tiles

/-! The queries of both calendars against the set of all sessions of covered dates.
    Windows and the sessions they carry go on with time. -/

namespace Midas.Calendar

/-- The opens after `t` of the sessions of a kind. -/
def opensAfter (cal : ExchangeCalendar) (t : Instant) (k : SessionKind) : Set Instant :=
  {u | t < u ∧ ∃ s ∈ sessionsOf cal, s.kind = k ∧ s.opens = u}

/-- The closes by `t` of the sessions of a kind. -/
def closesBy (cal : ExchangeCalendar) (t : Instant) (k : SessionKind) : Set Instant :=
  {u | u ≤ t ∧ ∃ s ∈ sessionsOf cal, s.kind = k ∧ s.closes = u}

/-- `classify`, `sessions_between`, `next_open` and `prev_close` tell of the same sessions. -/
structure OneStory (cal : ExchangeCalendar) (t tsFrom tsTo : Instant) (k : SessionKind) : Prop where
  classify : ∀ s ∈ sessionsOf cal, s.contains t = true → cal.classify t = s
  closed : (∀ s ∈ sessionsOf cal, ¬ s.contains t = true) → (cal.classify t).kind = .closed
  between : ∀ s, s ∈ cal.sessionsBetween tsFrom tsTo ↔
    s ∈ sessionsOf cal ∧ ∃ u, tsFrom ≤ u ∧ u < tsTo ∧ s.contains u = true
  inOrder : (cal.sessionsBetween tsFrom tsTo).Pairwise fun s s' => s.opens < s'.opens
  nextOpen : ∀ u, cal.nextOpen t k = some u → IsLeast (opensAfter cal t k) u
  noOpen : cal.nextOpen t k = none → opensAfter cal t k = ∅
  prevClose : ∀ u, cal.prevClose t k = some u → IsGreatest (closesBy cal t k) u
  noClose : cal.prevClose t k = none → closesBy cal t k = ∅

namespace Xnys

open Civil

variable {tz : Tz} (hmaps : MapsSessionTimes tz)

theorem classify_of_find {t : Instant} {s : Session}
    (h : (sessionsOn tz (etDate tz t)).find? (fun s => s.contains t) = some s) :
    classify tz t = s := by
  by_cases hcov : inCoverage (etDate tz t) = true
  · rw [sessionsOn, if_pos hcov] at h
    simp [classify, hcov, h]
  · rw [sessionsOn, if_neg hcov] at h
    cases h

theorem classify_of_find_none {t : Instant}
    (h : (sessionsOn tz (etDate tz t)).find? (fun s => s.contains t) = none) :
    classify tz t = closedSession t := by
  by_cases hcov : inCoverage (etDate tz t) = true
  · rw [sessionsOn, if_pos hcov] at h
    simp only [classify, hcov, h]
    rfl
  · simp [classify, hcov]

theorem between_eq {tsFrom tsTo : Instant} (h : tsFrom < tsTo) : sessionsBetween tz tsFrom tsTo =
    Walk.collect (fun d => (sessionsOn tz d).filter fun s => tsFrom < s.closes && s.opens < tsTo)
      (min (etDate tz tsTo + 1) coverageEnd - max (etDate tz tsFrom) coverageStart).toNat
      (max (etDate tz tsFrom) coverageStart) := by
  rw [sessionsBetween, if_neg (not_le.mpr h)]
  refine Walk.collect_congr fun d hle hlt => ?_
  have hcov : inCoverage d = true := inCoverage_iff.mpr ⟨by omega, by omega⟩
  rw [sessionsOn, if_pos hcov]

theorem between_spec (tsFrom tsTo : Instant) :
    (∀ s, s ∈ sessionsBetween tz tsFrom tsTo ↔
      s ∈ (schedule hmaps).all ∧ ∃ u, tsFrom ≤ u ∧ u < tsTo ∧ s.contains u = true) ∧
    (sessionsBetween tz tsFrom tsTo).Pairwise fun s s' => s.opens < s'.opens := by
  rcases lt_or_ge tsFrom tsTo with hlt | hle
  · rw [between_eq hlt]
    refine (schedule hmaps).collect_spec hlt fun d hfrom hto hne => ?_
    have hcov : inCoverage d = true := by
      by_contra h
      exact hne (if_neg h)
    have hcov := inCoverage_iff.mp hcov
    have hfrom : etDate tz tsFrom ≤ d := hfrom
    have hto : d ≤ etDate tz tsTo := hto
    exact ⟨by omega, by omega⟩
  · rw [sessionsBetween, if_pos hle]
    refine ⟨fun s => ?_, List.Pairwise.nil⟩
    constructor
    · intro h
      cases h
    · rintro ⟨-, u, hfrom, hto, -⟩
      exact absurd (hfrom.trans_lt hto) (not_lt.mpr hle)

/-- What both walks look at on a covered date. -/
theorem sessionsOn_walked (tz : Tz) {β : Type*} (f : List Session → Option β) (hf : f [] = none) {d : ℤ}
    (hcov : inCoverage d = true) :
    (if isTradingDay d then f (buildTradingDay tz d).sessions else none) = f (sessionsOn tz d) := by
  cases hday : isTradingDay d with
  | true => simp [sessionsOn, hcov]
  | false => simp [sessionsOn, hcov, sessions_of_not_tradingDay tz hcov hday, hf]

theorem nextOpen_spec (t : Instant) (k : SessionKind) :
    (∀ u, nextOpen tz t k = some u → IsLeast ((schedule hmaps).opensAfter t k) u) ∧
      (nextOpen tz t k = none → (schedule hmaps).opensAfter t k = ∅) := by
  have heq : ∀ d, coverageStart ≤ d → Walk.up (opensOn tz t k) (coverageEnd - d).toNat d =
      Walk.up ((schedule hmaps).openOn t k) (coverageEnd - d).toNat d := by
    intro d hd
    refine Walk.up_congr fun e hle hlt => ?_
    have hcov : inCoverage e = true := inCoverage_iff.mpr ⟨by omega, by omega⟩
    exact sessionsOn_walked tz
      (fun sessions => (sessions.find? fun s => s.kind = k && t < s.opens).map Session.opens) rfl hcov
  have hlate : ∀ d, coverageEnd ≤ d → sessionsOn tz d = [] := by
    intro d hd
    have hcov : ¬ inCoverage d = true := fun h => absurd (inCoverage_iff.mp h).2 (not_lt.mpr hd)
    rw [sessionsOn, if_neg hcov]
  by_cases hcov : inCoverage (etDate tz t) = true
  · simp only [nextOpen, if_pos hcov]
    have hstart := (inCoverage_iff.mp hcov).1
    rw [heq _ hstart]
    refine (schedule hmaps).walk_up_spec (fun d hd s hs => ?_) fun d hd => hlate d (by omega)
    have hclose : s.closes ≤ t := (schedule hmaps).before hs hd
    exact ((schedule hmaps).lt hs).le.trans hclose
  · simp only [nextOpen, if_neg hcov]
    rw [heq _ le_rfl]
    refine (schedule hmaps).walk_up_spec (fun d hd s hs => ?_) fun d hd => hlate d (by omega)
    have hcov : ¬ inCoverage d = true := fun h => absurd (inCoverage_iff.mp h).1 (not_le.mpr hd)
    have hs : s ∈ sessionsOn tz d := hs
    rw [sessionsOn, if_neg hcov] at hs
    cases hs

theorem prevClose_spec (t : Instant) (k : SessionKind) :
    (∀ u, prevClose tz t k = some u → IsGreatest ((schedule hmaps).closesBy t k) u) ∧
      (prevClose tz t k = none → (schedule hmaps).closesBy t k = ∅) := by
  have hout : ∀ d, ¬ inCoverage d = true → sessionsOn tz d = [] := fun d h => by
    rw [sessionsOn, if_neg h]
  have heq : ∀ d, Walk.down (closesOn tz t k) (d - coverageStart + 1).toNat d =
      Walk.down ((schedule hmaps).closeOn t k) (d - coverageStart + 1).toNat d := by
    intro d
    refine Walk.down_congr fun e hle hlt => ?_
    by_cases hcov : inCoverage e = true
    · exact sessionsOn_walked tz (fun sessions =>
        (sessions.reverse.find? fun s => s.kind = k && s.closes ≤ t).map Session.closes) rfl hcov
    · -- the trading days are covered ones
      have hday : ¬ isTradingDay e = true := fun h => hcov (inCoverage_of_isTradingDay h)
      have hnone : (schedule hmaps).closeOn t k e = none := by
        simp [Schedule.closeOn, schedule, hout e hcov]
      rw [closesOn, if_neg hday, hnone]
  have hearly : ∀ d n, d - ((n - coverageStart + 1).toNat : ℤ) < coverageStart →
      ∀ e ≤ d - ((n - coverageStart + 1).toNat : ℤ), sessionsOn tz e = [] := by
    intro d n hd e he
    exact hout e fun h => absurd (inCoverage_iff.mp h).1 (by omega)
  by_cases hcov : inCoverage (etDate tz t) = true
  · simp only [prevClose, if_pos hcov]
    rw [heq]
    refine (schedule hmaps).walk_down_spec (fun d hd s hs => ?_) (hearly _ _ (by omega))
    exact ((schedule hmaps).after hs hd).trans ((schedule hmaps).lt hs)
  · simp only [prevClose, if_neg hcov]
    rw [heq]
    refine (schedule hmaps).walk_down_spec (fun d hd s hs => ?_) (hearly _ _ (by omega))
    have hs : s ∈ sessionsOn tz d := hs
    rw [hout d] at hs
    · cases hs
    · intro h
      have hend : coverageEnd ≤ yearStart 2033 - 1 := by decide
      have := (inCoverage_iff.mp h).2
      omega

include hmaps in
theorem oneStory (t tsFrom tsTo : Instant) (k : SessionKind) :
    OneStory (xnys tz) t tsFrom tsTo k := by
  have hall := all_schedule hmaps
  have hopens : (schedule hmaps).opensAfter t k = opensAfter (xnys tz) t k := by
    rw [Schedule.opensAfter, hall, opensAfter]
  have hcloses : (schedule hmaps).closesBy t k = closesBy (xnys tz) t k := by
    rw [Schedule.closesBy, hall, closesBy]
  refine ⟨fun s hs hc => ?_, fun hnone => ?_, ?_, ?_, ?_, ?_, ?_, ?_⟩
  · exact classify_of_find (Schedule.find_contains (hall ▸ hs) hc)
  · cases hfind : (sessionsOn tz (etDate tz t)).find? fun s => s.contains t with
    | some s =>
      have hs : s ∈ (schedule hmaps).all := ⟨_, List.mem_of_find?_eq_some hfind⟩
      exact absurd (by simpa using List.find?_some hfind) (hnone s (hall ▸ hs))
    | none =>
      show (classify tz t).kind = .closed
      rw [classify_of_find_none hfind]
      rfl
  · exact hall ▸ (between_spec hmaps tsFrom tsTo).1
  · exact (between_spec hmaps tsFrom tsTo).2
  · exact fun u hu => hopens ▸ (nextOpen_spec hmaps t k).1 u hu
  · exact fun h => hopens ▸ (nextOpen_spec hmaps t k).2 h
  · exact fun u hu => hcloses ▸ (prevClose_spec hmaps t k).1 u hu
  · exact fun h => hcloses ▸ (prevClose_spec hmaps t k).2 h

end Xnys

namespace CryptoSpot

open Civil

theorem sessionsOn_of_inCoverage {d : ℤ} (h : inCoverage d = true) : sessionsOn d = [daySession d] :=
  if_pos h

theorem sessionsOn_of_not_inCoverage {d : ℤ} (h : ¬ inCoverage d = true) : sessionsOn d = [] := if_neg h

theorem classify_spec (t : Instant) :
    (∀ s ∈ schedule.all, s.contains t = true → classify t = s) ∧
      ((∀ s ∈ schedule.all, ¬ s.contains t = true) → (classify t).kind = .closed) := by
  constructor
  · rintro s ⟨d, hs⟩ ht
    obtain ⟨hcov, rfl⟩ := mem_sessionsOn.mp hs
    obtain rfl := daySession_contains.mp ht
    simp [classify, hcov]
  · intro h
    by_cases hcov : inCoverage (utcDate t) = true
    · exact absurd (daySession_contains.mpr rfl) (h _ ⟨utcDate t, mem_sessionsOn.mpr ⟨hcov, rfl⟩⟩)
    · simp only [classify, hcov]
      rfl

theorem between_spec (tsFrom tsTo : Instant) :
    (∀ s, s ∈ sessionsBetween tsFrom tsTo ↔
      s ∈ schedule.all ∧ ∃ u, tsFrom ≤ u ∧ u < tsTo ∧ s.contains u = true) ∧
    (sessionsBetween tsFrom tsTo).Pairwise fun s s' => s.opens < s'.opens := by
  rcases lt_or_ge tsFrom tsTo with hlt | hle
  · have heq : sessionsBetween tsFrom tsTo =
        Walk.collect (fun d => (sessionsOn d).filter fun s => tsFrom < s.closes && s.opens < tsTo)
          (min (utcDate tsTo + 1) coverageEnd - max (utcDate tsFrom) coverageStart).toNat
          (max (utcDate tsFrom) coverageStart) := by
      rw [sessionsBetween, if_neg (not_le.mpr hlt)]
      refine Walk.collect_congr fun d hle hlt => ?_
      rw [sessionsOn_of_inCoverage (inCoverage_iff.mpr ⟨by omega, by omega⟩)]
      rfl
    rw [heq]
    refine schedule.collect_spec hlt fun d hfrom hto hne => ?_
    have hcov : inCoverage d = true := by
      by_contra h
      exact hne (sessionsOn_of_not_inCoverage h)
    have hcov := inCoverage_iff.mp hcov
    have hfrom : utcDate tsFrom ≤ d := hfrom
    have hto : d ≤ utcDate tsTo := hto
    exact ⟨by omega, by omega⟩
  · rw [sessionsBetween, if_pos hle]
    refine ⟨fun s => ?_, List.Pairwise.nil⟩
    constructor
    · intro h
      cases h
    · rintro ⟨-, u, hfrom, hto, -⟩
      exact absurd (hfrom.trans_lt hto) (not_lt.mpr hle)

theorem kind_of_mem_all {s : Session} (hs : s ∈ schedule.all) : s.kind = .regular := by
  obtain ⟨d, hs⟩ := hs
  obtain ⟨-, rfl⟩ := mem_sessionsOn.mp hs
  rfl

/-- The open that the walk looks at on a covered date. -/
theorem openOn_eq {t : Instant} {d : ℤ} (h : inCoverage d = true) :
    schedule.openOn t .regular d =
      if t < (daySession d).opens then some (daySession d).opens else none := by
  have hkind : (daySession d).kind = .regular := rfl
  simp only [Schedule.openOn, schedule, sessionsOn_of_inCoverage h, List.find?_cons, List.find?_nil,
    hkind]
  by_cases ht : t < (daySession d).opens <;> simp [ht]

theorem closeOn_eq {t : Instant} {d : ℤ} (h : inCoverage d = true) :
    schedule.closeOn t .regular d =
      if (daySession d).closes ≤ t then some (daySession d).closes else none := by
  have hkind : (daySession d).kind = .regular := rfl
  simp only [Schedule.closeOn, schedule, sessionsOn_of_inCoverage h, List.reverse_singleton,
    List.find?_cons, List.find?_nil, hkind]
  by_cases ht : (daySession d).closes ≤ t <;> simp [ht]

theorem nextOpen_spec (t : Instant) (k : SessionKind) :
    (∀ u, nextOpen t k = some u → IsLeast (schedule.opensAfter t k) u) ∧
      (nextOpen t k = none → schedule.opensAfter t k = ∅) := by
  by_cases hk : k = .regular
  · subst hk
    have heq : ∀ d, coverageStart ≤ d → Walk.up (opensOn t) (coverageEnd - d).toNat d =
        Walk.up (schedule.openOn t .regular) (coverageEnd - d).toNat d := by
      intro d hd
      refine Walk.up_congr fun e hle hlt => ?_
      rw [openOn_eq (inCoverage_iff.mpr ⟨by omega, by omega⟩)]
      rfl
    have hlate : ∀ d, coverageEnd ≤ d → sessionsOn d = [] := fun d hd =>
      sessionsOn_of_not_inCoverage fun h => absurd (inCoverage_iff.mp h).2 (not_lt.mpr hd)
    simp only [nextOpen, ne_eq, not_true_eq_false, if_false]
    by_cases hcov : inCoverage (utcDate t) = true
    · simp only [if_pos hcov]
      rw [heq _ (inCoverage_iff.mp hcov).1]
      refine schedule.walk_up_spec (fun d hd s hs => ?_) fun d hd => hlate d (by omega)
      have hclose : s.closes ≤ t := schedule.before hs hd
      exact (schedule.lt hs).le.trans hclose
    · simp only [if_neg hcov]
      rw [heq _ le_rfl]
      refine schedule.walk_up_spec (fun d hd s hs => ?_) fun d hd => hlate d (by omega)
      obtain ⟨hcov, -⟩ := mem_sessionsOn.mp hs
      exact absurd (inCoverage_iff.mp hcov).1 (not_le.mpr hd)
  · have hempty : schedule.opensAfter t k = ∅ := by
      rw [Set.eq_empty_iff_forall_notMem]
      rintro u ⟨-, s, hs, hkind, -⟩
      exact hk (hkind.symm.trans (kind_of_mem_all hs))
    have hnone : nextOpen t k = none := if_pos hk
    rw [hnone]
    exact ⟨fun _ h => (Option.some_ne_none _ h.symm).elim, fun _ => hempty⟩

/-- The walk down finds closes of covered dates only while no close of a later date has come. -/
theorem prevClose_spec {t : Instant} {k : SessionKind}
    (h : ¬ (k = .regular ∧ Instant.ofDate (coverageEnd + 1) ≤ t)) :
    (∀ u, prevClose t k = some u → IsGreatest (schedule.closesBy t k) u) ∧
      (prevClose t k = none → schedule.closesBy t k = ∅) := by
  by_cases hk : k = .regular
  · subst hk
    have hbefore : t < Instant.ofDate (coverageEnd + 1) := not_le.mp fun hle => h ⟨rfl, hle⟩
    have heq : ∀ d, Walk.down (closesOn t) (d - coverageStart + 1).toNat d =
        Walk.down (schedule.closeOn t .regular) (d - coverageStart + 1).toNat d := by
      intro d
      refine Walk.down_congr fun e hle hlt => ?_
      by_cases hcov : inCoverage e = true
      · rw [closeOn_eq hcov]
        rfl
      · -- a date after coverage: its session is not over
        have hlate : coverageEnd ≤ e := by
          by_contra hearly
          exact hcov (inCoverage_iff.mpr ⟨by omega, not_le.mp hearly⟩)
        have hopen : ¬ (daySession e).closes ≤ t := by
          rw [closes_daySession, Instant.ofDate_le, not_le]
          exact (Instant.lt_ofDate.mp hbefore).trans_le (by omega)
        have hnone : schedule.closeOn t .regular e = none := by
          simp [Schedule.closeOn, schedule, sessionsOn_of_not_inCoverage hcov]
        rw [hnone]
        exact if_neg hopen
    have hearly : ∀ d n, d - ((n - coverageStart + 1).toNat : ℤ) < coverageStart →
        ∀ e ≤ d - ((n - coverageStart + 1).toNat : ℤ), sessionsOn e = [] := fun d n hd e he =>
      sessionsOn_of_not_inCoverage fun h => absurd (inCoverage_iff.mp h).1 (by omega)
    simp only [prevClose, ne_eq, not_true_eq_false, if_false]
    by_cases hcov : inCoverage (utcDate t) = true
    · simp only [if_pos hcov]
      rw [heq]
      refine schedule.walk_down_spec (fun d hd s hs => ?_) (hearly _ _ (by omega))
      exact (schedule.after hs hd).trans (schedule.lt hs)
    · simp only [if_neg hcov]
      rw [heq]
      refine schedule.walk_down_spec (fun d hd s hs => ?_) (hearly _ _ (by omega))
      obtain ⟨hcov, -⟩ := mem_sessionsOn.mp hs
      have hend : coverageEnd ≤ yearStart 2101 - 1 := by decide
      have := (inCoverage_iff.mp hcov).2
      omega
  · have hempty : schedule.closesBy t k = ∅ := by
      rw [Set.eq_empty_iff_forall_notMem]
      rintro u ⟨-, s, hs, hkind, -⟩
      exact hk (hkind.symm.trans (kind_of_mem_all hs))
    have hnone : prevClose t k = none := if_pos hk
    rw [hnone]
    exact ⟨fun _ h => (Option.some_ne_none _ h.symm).elim, fun _ => hempty⟩

/-- From the second day after coverage on, the walk down answers the close of an uncovered date. -/
theorem prevClose_late {t : Instant} (ht : Instant.ofDate (coverageEnd + 1) ≤ t) :
    ∃ u, prevClose t .regular = some u ∧ Instant.ofDate coverageEnd < u := by
  have hdate : coverageEnd + 1 ≤ utcDate t := Instant.ofDate_le.mp ht
  have hcov : ¬ inCoverage (utcDate t) = true := fun h => by
    have := (inCoverage_iff.mp h).2
    omega
  simp only [prevClose, ne_eq, not_true_eq_false, if_false, if_neg hcov]
  have hend : coverageEnd ≤ yearStart 2101 - 1 := by decide
  have hstart : coverageStart ≤ coverageEnd := by decide
  have hclosed : (daySession coverageEnd).closes ≤ t := by
    rw [closes_daySession]
    exact ht
  cases hwalk : Walk.down (closesOn t) (yearStart 2101 - 1 - coverageStart + 1).toNat
      (yearStart 2101 - 1) with
  | none =>
    have hnone := Walk.down_eq_none hwalk coverageEnd hend (by omega)
    exact absurd hnone (by simp [closesOn, buildDay, hclosed])
  | some u =>
    obtain ⟨e, hle, hlt, he, hbetween⟩ := Walk.down_eq_some hwalk
    refine ⟨u, rfl, ?_⟩
    have hlate : coverageEnd ≤ e := by
      by_contra h
      have hnone := hbetween coverageEnd hend (not_le.mp h)
      exact absurd hnone (by simp [closesOn, buildDay, hclosed])
    have hu : u = Instant.ofDate (e + 1) := by
      simp only [closesOn, buildDay, List.head?_cons] at he
      split at he
      · rw [← Option.some.inj he, closes_daySession]
      · cases he
    rw [hu, Instant.lt_ofDate, Instant.dateNaive, Instant.ofDate, Int.mul_ediv_cancel _ (by decide)]
    omega

/-- All closes of covered dates come by the end of coverage. -/
theorem closesBy_le {t u : Instant} {k : SessionKind} (hu : u ∈ closesBy cryptoSpot t k) :
    u ≤ Instant.ofDate coverageEnd := by
  obtain ⟨-, s, hs, -, rfl⟩ := hu
  rw [← all_schedule] at hs
  obtain ⟨d, hs⟩ := hs
  obtain ⟨hcov, rfl⟩ := mem_sessionsOn.mp hs
  have := (inCoverage_iff.mp hcov).2
  rw [closes_daySession, Instant.ofDate_le, Instant.dateNaive, Instant.ofDate,
    Int.mul_ediv_cancel _ (by decide)]
  omega

theorem oneStory_iff (t tsFrom tsTo : Instant) (k : SessionKind) :
    OneStory cryptoSpot t tsFrom tsTo k ↔
      ¬ (k = .regular ∧ Instant.ofDate (coverageEnd + 1) ≤ t) := by
  have hopens : schedule.opensAfter t k = opensAfter cryptoSpot t k := by
    rw [Schedule.opensAfter, all_schedule, opensAfter]
  have hcloses : schedule.closesBy t k = closesBy cryptoSpot t k := by
    rw [Schedule.closesBy, all_schedule, closesBy]
  constructor
  · rintro h ⟨rfl, hlate⟩
    obtain ⟨u, hu, hlt⟩ := prevClose_late hlate
    exact absurd (closesBy_le (h.prevClose u hu).1) (not_le.mpr hlt)
  · intro h
    refine ⟨all_schedule ▸ (classify_spec t).1, all_schedule ▸ (classify_spec t).2,
      all_schedule ▸ (between_spec tsFrom tsTo).1, (between_spec tsFrom tsTo).2, ?_, ?_, ?_, ?_⟩
    · exact fun u hu => hopens ▸ (nextOpen_spec t k).1 u hu
    · exact fun hu => hopens ▸ (nextOpen_spec t k).2 hu
    · exact fun u hu => hcloses ▸ (prevClose_spec h).1 u hu
    · exact fun hu => hcloses ▸ (prevClose_spec h).2 hu

end CryptoSpot

open CryptoSpot in
/-- For both calendars, at every instant, over every range and for every kind, inside and outside of
    coverage: the queries agree, but for `prev_close` of the crypto calendar from the second day after
    its coverage on. -/
theorem queries_agree_iff {tz : Tz} (hmaps : Xnys.MapsSessionTimes tz) {cal : ExchangeCalendar}
    (hcal : cal ∈ [Xnys.xnys tz, cryptoSpot]) (t tsFrom tsTo : Instant) (k : SessionKind) :
    OneStory cal t tsFrom tsTo k ↔
      ¬ (cal.id = cryptoSpotId ∧ k = .regular ∧ Instant.ofDate (coverageEnd + 1) ≤ t) := by
  simp only [List.mem_cons, List.not_mem_nil, or_false] at hcal
  rcases hcal with rfl | rfl
  · have hid : Xnys.xnysId ≠ cryptoSpotId := by decide
    exact iff_of_true (Xnys.oneStory hmaps t tsFrom tsTo k) fun h => hid h.1
  · have hid : cryptoSpot.id = cryptoSpotId := rfl
    rw [oneStory_iff]
    simp [hid]

/-- On the first day after coverage the queries of the crypto calendar still agree. -/
theorem queries_agree_at_end_of_coverage :
    OneStory CryptoSpot.cryptoSpot (Instant.ofDate CryptoSpot.coverageEnd) 0 1 .regular ↔
      ¬ (CryptoSpot.cryptoSpot.id = CryptoSpot.cryptoSpotId ∧ SessionKind.regular = .regular ∧
        Instant.ofDate (CryptoSpot.coverageEnd + 1) ≤ Instant.ofDate CryptoSpot.coverageEnd) :=
  queries_agree_iff Xnys.mapsSessionTimes_easternStandard (by simp) _ _ _ _

/-- The close found at the start of 2100-01-02 is that of 2100-01-01, which is not covered. -/
theorem prevClose_of_uncovered_date :
    CryptoSpot.prevClose (Instant.ofTimestamp 4102531200) .regular =
      some (Instant.ofTimestamp 4102531200) ∧
      ¬ OneStory CryptoSpot.cryptoSpot (Instant.ofTimestamp 4102531200) 0 0 .regular := by
  refine ⟨by decide +kernel, fun h => ?_⟩
  exact (CryptoSpot.oneStory_iff _ _ _ _).mp h ⟨rfl, by decide +kernel⟩

end Midas.Calendar

/-! ### The order of windows and sessions -/

namespace Midas.Calendar

/-- The session that is told for an instant is one that the instant is in, and all its instants are told
    of it; or, where there is none, it is the instant alone. -/
def TellsSessions (classify : Instant → Session) : Prop :=
  ∀ t, ((classify t).contains t = true ∧
      ∀ t', (classify t).contains t' = true → classify t' = classify t) ∨
    (classify t).opens = t ∧ (classify t).closes = t

/-- A schedule's sessions, where an instant out of them stands alone. -/
theorem Schedule.tellsSessions {S : Schedule} {classify : Instant → Session}
    (hmem : ∀ s ∈ S.all, ∀ t, s.contains t = true → classify t = s)
    (hnone : ∀ t, (∀ s ∈ S.all, ¬ s.contains t = true) →
      (classify t).opens = t ∧ (classify t).closes = t) : TellsSessions classify := by
  intro t
  by_cases h : ∃ s ∈ S.all, s.contains t = true
  · obtain ⟨s, hs, ht⟩ := h
    rw [hmem s hs t ht]
    exact Or.inl ⟨ht, hmem s hs⟩
  · exact Or.inr (hnone t fun s hs ht => h ⟨s, hs, ht⟩)

/-- Later instants have later sessions, or the same one. -/
theorem TellsSessions.opens_lt_or_eq {classify : Instant → Session} (h : TellsSessions classify)
    {t t' : Instant} (hle : t ≤ t') :
    (classify t).opens < (classify t').opens ∨ classify t = classify t' := by
  rcases hle.eq_or_lt with rfl | hlt
  · exact Or.inr rfl
  -- a session of `t'` that opens by `t` is the session of `t`
  have hback : (classify t').contains t' = true →
      (∀ u, (classify t').contains u = true → classify u = classify t') →
        (classify t').opens ≤ t → classify t = classify t' := by
    intro hmem' hall' hopens
    exact hall' t (Session.contains_iff.mpr ⟨hopens, hlt.trans (Session.contains_iff.mp hmem').2⟩)
  rcases h t with ⟨hmem, -⟩ | ⟨hopens, -⟩
  · have hopens := (Session.contains_iff.mp hmem).1
    rcases h t' with ⟨hmem', hall'⟩ | ⟨hopens', -⟩
    · rcases lt_or_ge (classify t).opens (classify t').opens with hopen | hopen
      · exact Or.inl hopen
      · exact Or.inr (hback hmem' hall' (hopen.trans hopens))
    · rw [hopens']
      exact Or.inl (hopens.trans_lt hlt)
  · rw [hopens]
    rcases h t' with ⟨hmem', hall'⟩ | ⟨hopens', -⟩
    · rcases lt_or_ge t (classify t').opens with hopen | hopen
      · exact Or.inl hopen
      · exact Or.inr (hback hmem' hall' hopen)
    · rw [hopens']
      exact Or.inl hlt

theorem Xnys.tellsSessions {tz : Tz} (hmaps : MapsSessionTimes tz) : TellsSessions (classify tz) := by
  refine Schedule.tellsSessions (S := schedule hmaps) ?_ ?_
  · intro s hs t ht
    exact classify_of_find (Schedule.find_contains hs ht)
  · intro t hnone
    have hfind : (sessionsOn tz (etDate tz t)).find? (fun s => s.contains t) = none :=
      List.find?_eq_none.mpr fun s hs => hnone s ⟨_, hs⟩
    rw [classify_of_find_none hfind]
    exact ⟨rfl, rfl⟩

theorem CryptoSpot.tellsSessions : TellsSessions classify := by
  refine Schedule.tellsSessions (S := schedule) (fun s hs t ht => (classify_spec t).1 s hs ht) ?_
  intro t hnone
  by_cases hcov : inCoverage (utcDate t) = true
  · exact absurd (daySession_contains.mpr rfl) (hnone _ ⟨utcDate t, mem_sessionsOn.mpr ⟨hcov, rfl⟩⟩)
  · have hclosed : classify t = closedSession t := by simp [classify, hcov]
    rw [hclosed]
    exact ⟨rfl, rfl⟩

/-- An earlier window, or an earlier session of one window. -/
def BarWindow.Before (w w' : BarWindow) : Prop :=
  w.opens < w'.opens ∨ w.opens = w'.opens ∧ w.session.opens < w'.session.opens

theorem BarWindow.Before.trans {a b c : BarWindow} (hab : a.Before b) (hbc : b.Before c) :
    a.Before c := by
  rcases hab with hab | ⟨hab, hsab⟩
  · rcases hbc with hbc | ⟨hbc, -⟩
    · exact Or.inl (hab.trans hbc)
    · exact Or.inl (hab.trans_eq hbc)
  · rcases hbc with hbc | ⟨hbc, hsbc⟩
    · exact Or.inl (hab.trans_lt hbc)
    · exact Or.inr ⟨hab.trans hbc, hsab.trans hsbc⟩

theorem session_of_clockWindow {tz : Tz} {cal : ExchangeCalendar}
    (hcal : cal ∈ [Xnys.xnys tz, CryptoSpot.cryptoSpot]) {ci : ClockInterval} {t : Instant}
    {w : BarWindow}
    (h : cal.barWindow t (.clock ci) = .ok w) : w.session = cal.classify t := by
  simp only [List.mem_cons, List.not_mem_nil, or_false] at hcal
  rcases hcal with rfl | rfl
  · obtain ⟨-, rfl⟩ := clockBarWindow_ok h
    rfl
  · obtain ⟨-, rfl⟩ := clockBarWindow_ok h
    rfl

open CryptoSpot in
/-- Later instants have later windows, or the same one. -/
theorem windows_go_on {tz : Tz} (hmaps : Xnys.MapsSessionTimes tz) {cal : ExchangeCalendar}
    (hcal : cal ∈ [Xnys.xnys tz, cryptoSpot]) {period : BarPeriod}
    (hvalid : cal.validatePeriod period = .ok ()) {t t' : Instant} (hle : t ≤ t') {w w' : BarWindow}
    (h : cal.barWindow t period = .ok w) (h' : cal.barWindow t' period = .ok w') :
    w.Before w' ∨ w = w' := by
  have hspec : (Tiling fun t => boundsOf (cal.barWindow t period)) ∧ TellsSessions cal.classify ∧
      ∀ {t t' w}, cal.barWindow t period = .ok w → w.opens ≤ t' → t' < w.closes →
        cal.barWindow t' period = .ok
          { w with session := if period.isClock then cal.classify t' else w.session } := by
    have hcal := hcal
    simp only [List.mem_cons, List.not_mem_nil, or_false] at hcal
    rcases hcal with rfl | rfl
    · exact ⟨Xnys.tiling_barWindow hmaps hvalid, Xnys.tellsSessions hmaps,
        Xnys.barWindow_inside hmaps hvalid⟩
    · exact ⟨tiling_barWindow hvalid, tellsSessions, barWindow_inside hvalid⟩
  obtain ⟨htiling, htells, hinside⟩ := hspec
  have hb := boundsOf_eq_some.mpr ⟨w, h, rfl⟩
  have hb' := boundsOf_eq_some.mpr ⟨w', h', rfl⟩
  rcases (htiling.mono hle hb hb').lt_or_eq with hlt | (heq : w.opens = w'.opens)
  · exact Or.inl (Or.inl hlt)
  -- the windows that open at one instant are those of that instant
  have hat := hinside h le_rfl (htiling.lt hb)
  have hat' := hinside h' le_rfl (htiling.lt hb')
  rw [← heq, hat] at hat'
  have hsame := Except.ok.inj hat'
  simp only [BarWindow.mk.injEq] at hsame
  obtain ⟨-, hcloses, hsession⟩ := hsame
  cases hclock : period.isClock with
  | false =>
    simp only [hclock] at hsession
    exact Or.inr (by rw [BarWindow.mk.injEq]; exact ⟨heq, hcloses, hsession⟩)
  | true =>
    obtain ⟨ci, rfl⟩ : ∃ ci, period = .clock ci := by
      cases period with
      | clock ci => exact ⟨ci, rfl⟩
      | session span => cases hclock
      | calendar span => cases hclock
    have hs := session_of_clockWindow hcal h
    have hs' := session_of_clockWindow hcal h'
    rcases htells.opens_lt_or_eq hle with hlt | hsame
    · rw [← hs, ← hs'] at hlt
      exact Or.inl (Or.inr ⟨heq, hlt⟩)
    · rw [← hs, ← hs'] at hsame
      exact Or.inr (by rw [BarWindow.mk.injEq]; exact ⟨heq, hcloses, hsame⟩)

end Midas.Calendar
