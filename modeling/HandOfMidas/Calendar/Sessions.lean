import HandOfMidas.Calendar.Schedule
import HandOfMidas.Calendar.Xnys
import HandOfMidas.Calendar.CryptoSpot

/-! The sessions of both calendars are schedules. -/

namespace Midas.Calendar

/-- The sessions of all dates in `covers()`. -/
def sessionsOf (cal : ExchangeCalendar) : Set Session :=
  {s | ∃ date, cal.covers.1 ≤ date ∧ date < cal.covers.2 ∧
    ∃ td, cal.tradingDay date = .ok td ∧ s ∈ td.sessions}

namespace Xnys

/-- The local times at which sessions open and close. -/
def sessionTimes : List (ℕ × ℕ) := [(4, 0), (9, 30), (13, 0), (16, 0), (17, 0), (20, 0)]

/-- What the time zone does to session times: they stay in order and on their date, and dates do not
    go back. -/
structure MapsSessionTimes (tz : Tz) : Prop where
  etDate_mono : Monotone (etDate tz)
  increasing : ∀ date, inCoverage date = true →
    sessionTimes.Pairwise fun hm hm' => etToUtc tz date hm < etToUtc tz date hm'
  sameDate : ∀ date, inCoverage date = true → ∀ hm ∈ sessionTimes,
    etDate tz (etToUtc tz date hm) = date

theorem inCoverage_iff {date : ℤ} :
    inCoverage date = true ↔ coverageStart ≤ date ∧ date < coverageEnd := by
  simp [inCoverage]

theorem inCoverage_of_isTradingDay {date : ℤ} (h : isTradingDay date = true) :
    inCoverage date = true := by
  simp only [isTradingDay, Bool.and_eq_true] at h
  exact h.1.1

/-- A covered date has sessions only as a trading day. -/
theorem sessions_of_not_tradingDay (tz : Tz) {date : ℤ} (hcov : inCoverage date = true)
    (h : isTradingDay date = false) : (buildTradingDay tz date).sessions = [] := by
  have hclosed : (isWeekend date || (Holidays.holidayName date).isSome) = true := by
    cases hname : Holidays.holidayName date <;> simp_all [isTradingDay]
  simp only [buildTradingDay]
  rw [if_pos hclosed]

/-- The hours of a trading day: four instants of its date, between them the three sessions. -/
theorem sessions_of_tradingDay {tz : Tz} (hmaps : MapsSessionTimes tz) {date : ℤ}
    (h : isTradingDay date = true) : ∃ preOpen regOpen regClose postClose : Instant,
      preOpen < regOpen ∧ regOpen < regClose ∧ regClose < postClose ∧
      etDate tz preOpen = date ∧ etDate tz postClose = date ∧
      (buildTradingDay tz date).sessions = [.new xnysId .preMarket preOpen regOpen,
        .new xnysId .regular regOpen regClose, .new xnysId .postMarket regClose postClose] := by
  have hcov := inCoverage_of_isTradingDay h
  have hclosed : ¬ (isWeekend date || (Holidays.holidayName date).isSome) = true := by
    simp only [isTradingDay, Bool.and_eq_true, Bool.not_eq_true', Option.isNone_iff_eq_none] at h
    simp [h.1.2, h.2]
  have hinc := hmaps.increasing date hcov
  have hdate := hmaps.sameDate date hcov
  simp only [sessionTimes, List.pairwise_cons, List.mem_cons, List.not_mem_nil, or_false,
    forall_eq_or_imp, forall_eq] at hinc hdate
  simp only [buildTradingDay]
  rw [if_neg hclosed]
  simp only [Holidays.earlyCloseMinute]
  split
  · exact ⟨_, _, _, _, hinc.1.1, hinc.2.1.1, hinc.2.2.1.2.1, hdate.1, hdate.2.2.2.2.1, rfl⟩
  · exact ⟨_, _, _, _, hinc.1.1, hinc.2.1.2.1, hinc.2.2.2.1.2, hdate.1, hdate.2.2.2.2.2, rfl⟩

/-- The sessions of a date, none out of coverage. -/
def sessionsOn (tz : Tz) (date : ℤ) : List Session :=
  if inCoverage date then (buildTradingDay tz date).sessions else []

theorem sessionsOn_cases (tz : Tz) (date : ℤ) :
    sessionsOn tz date = [] ∨ isTradingDay date = true ∧
      sessionsOn tz date = (buildTradingDay tz date).sessions := by
  unfold sessionsOn
  cases hcov : inCoverage date with
  | false => exact Or.inl rfl
  | true =>
    cases h : isTradingDay date with
    | false => exact Or.inl (by rw [if_pos rfl, sessions_of_not_tradingDay tz hcov h])
    | true => exact Or.inr ⟨rfl, rfl⟩

/-- A session lies between two instants of its date. -/
theorem sessionsOn_bounds {tz : Tz} (hmaps : MapsSessionTimes tz) {date : ℤ} {s : Session}
    (hs : s ∈ sessionsOn tz date) : s.opens < s.closes ∧ etDate tz s.opens = date ∧
      etDate tz s.closes = date := by
  rcases sessionsOn_cases tz date with h | ⟨hday, h⟩
  · rw [h] at hs
    cases hs
  · obtain ⟨a, b, c, e, hab, hbc, hce, ha, he, hsessions⟩ := sessions_of_tradingDay hmaps hday
    have hbetween : ∀ t, a ≤ t → t ≤ e → etDate tz t = date := fun t hat hte =>
      le_antisymm ((hmaps.etDate_mono hte).trans_eq he) (ha.symm.trans_le (hmaps.etDate_mono hat))
    rw [h, hsessions] at hs
    simp only [List.mem_cons, List.not_mem_nil, or_false] at hs
    rcases hs with rfl | rfl | rfl
    · exact ⟨hab, ha, hbetween b hab.le (hbc.le.trans hce.le)⟩
    · exact ⟨hbc, hbetween b hab.le (hbc.le.trans hce.le), hbetween c (hab.le.trans hbc.le) hce.le⟩
    · exact ⟨hce, hbetween c (hab.le.trans hbc.le) hce.le, he⟩

/-- The sessions of the exchange, by local date. -/
def schedule {tz : Tz} (hmaps : MapsSessionTimes tz) : Schedule where
  dateOf := etDate tz
  sessions := sessionsOn tz
  lt hs := (sessionsOn_bounds hmaps hs).1
  inOrder date := by
    rcases sessionsOn_cases tz date with h | ⟨hday, h⟩
    · rw [h]
      exact List.Pairwise.nil
    · obtain ⟨a, b, c, e, hab, hbc, hce, -, -, hsessions⟩ := sessions_of_tradingDay hmaps hday
      rw [h, hsessions]
      simp [Session.new, hbc.le]
  after {date s t} hs hlt := by
    by_contra h
    have := hmaps.etDate_mono (not_lt.mp h)
    rw [(sessionsOn_bounds hmaps hs).2.1] at this
    exact absurd this (not_le.mpr hlt)
  before {date s t} hs hlt := by
    by_contra h
    have := hmaps.etDate_mono (not_le.mp h).le
    rw [(sessionsOn_bounds hmaps hs).2.2] at this
    exact absurd this (not_le.mpr hlt)

theorem all_schedule {tz : Tz} (hmaps : MapsSessionTimes tz) :
    (schedule hmaps).all = sessionsOf (xnys tz) := by
  ext s
  constructor
  · rintro ⟨date, hs⟩
    have hs : s ∈ sessionsOn tz date := hs
    cases hcov : inCoverage date with
    | false =>
      rw [sessionsOn, hcov] at hs
      cases hs
    | true =>
      rw [sessionsOn, hcov] at hs
      obtain ⟨hle, hlt⟩ := inCoverage_iff.mp hcov
      exact ⟨date, hle, hlt, _, by simp [xnys, tradingDay, hcov], hs⟩
  · rintro ⟨date, hle, hlt, td, htd, hs⟩
    have hcov : inCoverage date = true := inCoverage_iff.mpr ⟨hle, hlt⟩
    have htd : tradingDay tz date = .ok td := htd
    simp only [tradingDay, hcov, Bool.not_true] at htd
    obtain rfl := Except.ok.inj htd
    exact ⟨date, by simpa [schedule, sessionsOn, hcov] using hs⟩

/-- Five hours behind UTC: New York in winter. -/
def easternStandard : Tz where
  dateNaive t := Instant.dateNaive (t - Instant.ofTimestamp 18000)
  fromLocalDatetime naive := .single (naive + Instant.ofTimestamp 18000)
  gap naive h := by cases h

theorem etToUtc_easternStandard (date : ℤ) (hm : ℕ × ℕ) :
    etToUtc easternStandard date hm = andTime date hm + Instant.ofTimestamp 18000 := rfl

theorem mapsSessionTimes_easternStandard : MapsSessionTimes easternStandard where
  etDate_mono t t' h := Instant.dateNaive_mono (sub_le_sub_right h _)
  increasing date _ := by
    simp only [etToUtc_easternStandard, andTime, add_lt_add_iff_right, add_lt_add_iff_left,
      Instant.ofTimestamp_lt_ofTimestamp]
    decide
  sameDate date _ hm hmem := by
    have hdate : etDate easternStandard (etToUtc easternStandard date hm) =
        Instant.dateNaive (andTime date hm) := congrArg Instant.dateNaive (add_sub_cancel_right _ _)
    have htime : 0 ≤ (hm.1 * 3600 + hm.2 * 60 : ℤ) ∧ (hm.1 * 3600 + hm.2 * 60 : ℤ) < 86400 := by
      simp only [sessionTimes, List.mem_cons, List.not_mem_nil, or_false] at hmem
      rcases hmem with rfl | rfl | rfl | rfl | rfl | rfl <;> decide
    rw [hdate, Instant.dateNaive, Int.ediv_eq_iff_of_pos (by decide)]
    simp only [andTime, Instant.ofDate, Instant.ofTimestamp, Instant.day, Instant.second]
    constructor <;> linarith

end Xnys

namespace CryptoSpot

theorem inCoverage_iff {date : ℤ} :
    inCoverage date = true ↔ coverageStart ≤ date ∧ date < coverageEnd := by
  simp [inCoverage]

/-- The session of a date, none out of coverage. -/
def sessionsOn (date : ℤ) : List Session := if inCoverage date then (buildDay date).sessions else []

theorem mem_sessionsOn {date : ℤ} {s : Session} :
    s ∈ sessionsOn date ↔ inCoverage date = true ∧ s = daySession date := by
  unfold sessionsOn
  split
  · rename_i h
    simp [buildDay, h]
  · rename_i h
    simp [h]

theorem closes_daySession (date : ℤ) : (daySession date).closes = Instant.ofDate (date + 1) :=
  (Instant.ofDate_succ date).symm

theorem daySession_contains {date : ℤ} {t : Instant} :
    (daySession date).contains t = true ↔ utcDate t = date := by
  have hopens : (daySession date).opens = Instant.ofDate date := rfl
  rw [Session.contains_iff, closes_daySession, hopens, Instant.ofDate_le, Instant.lt_ofDate, utcDate]
  omega

/-- The days of UTC. -/
def schedule : Schedule where
  dateOf := utcDate
  sessions := sessionsOn
  lt {date s} hs := by
    obtain ⟨-, rfl⟩ := mem_sessionsOn.mp hs
    exact lt_add_of_pos_right _ (by decide)
  inOrder date := by
    unfold sessionsOn
    split
    · exact List.pairwise_singleton _ _
    · exact List.Pairwise.nil
  after {date s t} hs hlt := by
    obtain ⟨-, rfl⟩ := mem_sessionsOn.mp hs
    exact Instant.lt_ofDate.mpr hlt
  before {date s t} hs hlt := by
    obtain ⟨-, rfl⟩ := mem_sessionsOn.mp hs
    rw [closes_daySession]
    exact Instant.ofDate_le.mpr hlt

theorem all_schedule : schedule.all = sessionsOf cryptoSpot := by
  ext s
  constructor
  · rintro ⟨date, hs⟩
    obtain ⟨hcov, rfl⟩ := mem_sessionsOn.mp hs
    obtain ⟨hle, hlt⟩ := inCoverage_iff.mp hcov
    exact ⟨date, hle, hlt, buildDay date, by simp [cryptoSpot, tradingDay, hcov],
      List.mem_singleton.mpr rfl⟩
  · rintro ⟨date, hle, hlt, td, htd, hs⟩
    have hcov : inCoverage date = true := inCoverage_iff.mpr ⟨hle, hlt⟩
    have htd : tradingDay date = .ok td := htd
    simp only [tradingDay, hcov, Bool.not_true] at htd
    obtain rfl := Except.ok.inj htd
    exact ⟨date, mem_sessionsOn.mpr ⟨hcov, List.mem_singleton.mp hs⟩⟩

end CryptoSpot

end Midas.Calendar
