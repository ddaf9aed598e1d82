import HandOfMidas.Calendar.Queries
import HandOfMidas.Calendar.Tiles

/-! Instants against the hours that their bar window is made of. -/

namespace Midas.Calendar

/-- Some session has opened by `t`, and one is not over. -/
def AmidSessions (cal : ExchangeCalendar) (t : Instant) : Prop :=
  (∃ s ∈ sessionsOf cal, s.opens ≤ t) ∧ ∃ s ∈ sessionsOf cal, t < s.closes

/-- Pre-market, after hours, weekends, holidays and nights. -/
def OffHours (cal : ExchangeCalendar) (t : Instant) : Prop :=
  AmidSessions cal t ∧ (cal.classify t).kind ≠ .regular

/-- The bars of the period are about regular hours. -/
def BarPeriod.regularHours : BarPeriod → Bool
  | .session .regular => true
  | .calendar _ => true
  | _ => false

/-- The instant lies in the window, and not off hours if that is not what the period is about. -/
def InHours (cal : ExchangeCalendar) (period : BarPeriod) (t : Instant) (w : BarWindow) : Prop :=
  w.opens ≤ t ∧ t < w.closes ∧ (period.regularHours = true → ¬ OffHours cal t)

/-- What is classified as out of the hours of the period. -/
def OutOfHours (cal : ExchangeCalendar) (period : BarPeriod) (t : Instant) : Prop :=
  match period with
  | .clock _ => False
  | .session .extended => (cal.classify t).kind = .closed
  | _ => (cal.classify t).kind ≠ .regular

namespace Xnys

variable {tz : Tz} (hmaps : MapsSessionTimes tz)

/-- What is not closed is a session of its date. -/
theorem classify_of_not_closed {t : Instant} (h : (classify tz t).kind ≠ .closed) :
    isTradingDay (etDate tz t) = true ∧
      classify tz t ∈ (buildTradingDay tz (etDate tz t)).sessions ∧
        (classify tz t).contains t = true := by
  cases hfind : (sessionsOn tz (etDate tz t)).find? fun s => s.contains t with
  | none =>
    rw [classify_of_find_none hfind] at h
    exact absurd rfl h
  | some s =>
    rw [classify_of_find hfind]
    have hs := List.mem_of_find?_eq_some hfind
    rcases sessionsOn_cases tz (etDate tz t) with hempty | ⟨hday, heq⟩
    · rw [hempty] at hs
      cases hs
    · exact ⟨hday, heq ▸ hs, by simpa using List.find?_some hfind⟩

include hmaps in
/-- An instant of a session of a trading day is classified as that session. -/
theorem classify_of_mem {d : ℤ} (hday : isTradingDay d = true) {s : Session}
    (hs : s ∈ (buildTradingDay tz d).sessions) {t : Instant} (ht : s.contains t = true) :
    classify tz t = s := by
  have hmem : s ∈ sessionsOn tz d := by
    rw [sessionsOn, if_pos (inCoverage_of_isTradingDay hday)]
    exact hs
  exact classify_of_find (Schedule.find_contains (S := schedule hmaps) ⟨d, hmem⟩ ht)

include hmaps in
theorem kind_of_hours {d : ℤ} {a b c e t : Instant} (hours : Hours tz d a b c e) :
    (b ≤ t → t < c → (classify tz t).kind = .regular) ∧
      (a ≤ t → t < e → (classify tz t).kind ≠ .closed) := by
  have hclassify : ∀ s ∈ (buildTradingDay tz d).sessions, s.opens ≤ t → t < s.closes →
      classify tz t = s := fun s hs hle hlt =>
    classify_of_mem hmaps hours.day hs (Session.contains_iff.mpr ⟨hle, hlt⟩)
  rw [hours.sessions] at hclassify
  simp only [List.mem_cons, List.not_mem_nil, or_false, forall_eq_or_imp, forall_eq,
    Session.new] at hclassify
  obtain ⟨hpre, hreg, hpost⟩ := hclassify
  refine ⟨fun hle hlt => by rw [hreg hle hlt], fun hle hlt => ?_⟩
  rcases lt_or_ge t b with hb | hb
  · rw [hpre hle hb]
    exact SessionKind.noConfusion
  · rcases lt_or_ge t c with hc | hc
    · rw [hreg hb hc]
      exact SessionKind.noConfusion
    · rw [hpost hc hlt]
      exact SessionKind.noConfusion

include hmaps in
/-- What is not closed lies in the hours of its date. -/
theorem hours_of_kind {t : Instant} (h : (classify tz t).kind ≠ .closed) :
    ∃ a b c e, Hours tz (etDate tz t) a b c e ∧ a ≤ t ∧ t < e ∧
      ((classify tz t).kind = .regular → b ≤ t ∧ t < c) := by
  obtain ⟨hday, hmem, hcontains⟩ := classify_of_not_closed h
  obtain ⟨a, b, c, e, hours⟩ := Hours.exists_of_day hmaps hday
  obtain ⟨hle, hlt⟩ := Session.contains_iff.mp hcontains
  rw [hours.sessions] at hmem
  simp only [List.mem_cons, List.not_mem_nil, or_false] at hmem
  refine ⟨a, b, c, e, hours, ?_⟩
  rcases hmem with hs | hs | hs
  · rw [hs] at hle hlt ⊢
    exact ⟨hle, hlt.trans (hours.reg.trans hours.post), fun h => by cases h⟩
  · rw [hs] at hle hlt ⊢
    exact ⟨hours.pre.le.trans hle, hlt.trans hours.post, fun _ => ⟨hle, hlt⟩⟩
  · rw [hs] at hle hlt ⊢
    exact ⟨(hours.pre.trans hours.reg).le.trans hle, hlt, fun h => by cases h⟩

theorem Hours.unique {d : ℤ} {a b c e a' b' c' e' : Instant} (h : Hours tz d a b c e)
    (h' : Hours tz d a' b' c' e') : a = a' ∧ b = b' ∧ c = c' ∧ e = e' := by
  have hsame := h.sessions.symm.trans h'.sessions
  simp only [List.cons.injEq, Session.new, Session.mk.injEq, true_and, and_true] at hsame
  exact ⟨hsame.1.1, hsame.1.2, hsame.2.1.2, hsame.2.2.2⟩

include hmaps in
theorem sessionBarWindow_hours {t : Instant} {span : SessionSpan} {w : BarWindow}
    (h : sessionBarWindow tz t span = .ok w) :
    (span = .regular → (w.opens ≤ t ∧ t < w.closes ↔ (classify tz t).kind = .regular)) ∧
      (span = .extended → (w.opens ≤ t ∧ t < w.closes ↔ (classify tz t).kind ≠ .closed)) := by
  obtain ⟨d, a, b, c, e, hnext, hours, hw⟩ := sessionBarWindow_ok hmaps h
  have hof : (classify tz t).kind ≠ .closed → a ≤ t ∧ t < e ∧
      ((classify tz t).kind = .regular → b ≤ t ∧ t < c) := by
    intro hkind
    obtain ⟨a', b', c', e', hours', hle, hlt, hreg⟩ := hours_of_kind hmaps hkind
    -- the date is a trading day, so it is the one that the window is made of
    rw [nextTradingDay_self hours'.day] at hnext
    obtain rfl := Option.some.inj hnext
    obtain ⟨rfl, rfl, rfl, rfl⟩ := hours.unique hours'
    exact ⟨hle, hlt, hreg⟩
  rcases hw with ⟨rfl, rfl⟩ | ⟨rfl, rfl⟩
  · refine ⟨fun _ => ⟨fun hin => (kind_of_hours hmaps hours).1 hin.1 hin.2, fun hkind => ?_⟩,
      fun h => by cases h⟩
    exact (hof (by rw [hkind]; decide)).2.2 hkind
  · refine ⟨fun h => (by cases h),
      fun _ => ⟨fun hin => (kind_of_hours hmaps hours).2 hin.1 hin.2, fun hkind => ?_⟩⟩
    exact ⟨(hof hkind).1, (hof hkind).2.1⟩

include hmaps in
theorem calendarBarWindow_hours {t : Instant} {span : CalendarSpan} {w : BarWindow}
    (h : calendarBarWindow tz t span = .ok w) :
    (w.opens ≤ t → t < w.closes → AmidSessions (xnys tz) t) ∧
      ((classify tz t).kind = .regular → w.opens ≤ t ∧ t < w.closes) := by
  obtain ⟨days, first, last, a, b, c, e, a', b', c', e', hspan, hours, hours', -, -, -, hbetween,
    rfl⟩ := calendarBarWindow_ok hmaps h
  have hmem : ∀ {d a b c e}, Hours tz d a b c e →
      Session.new xnysId .regular b c ∈ (schedule hmaps).sessions d := by
    intro d a b c e hours
    have hmem : Session.new xnysId .regular b c ∈ (buildTradingDay tz d).sessions := by
      rw [hours.sessions]
      simp
    show _ ∈ sessionsOn tz d
    rwa [sessionsOn, if_pos (inCoverage_of_isTradingDay hours.day)]
  constructor
  · intro hle hlt
    rw [AmidSessions, ← all_schedule hmaps]
    exact ⟨⟨_, ⟨first, hmem hours⟩, hle⟩, _, ⟨last, hmem hours'⟩, hlt⟩
  · intro hkind
    have hopen : (classify tz t).kind ≠ .closed := by
      rw [hkind]
      decide
    obtain ⟨x, b₀, c₀, z, hours₀, -, -, hreg⟩ := hours_of_kind hmaps hopen
    obtain ⟨hle, hlt⟩ := hreg hkind
    obtain ⟨h1, h2⟩ := mem_spanOf hspan
    obtain ⟨hfirst, hlast⟩ := hbetween _ hours₀.day h1 h2
    constructor
    · rcases hfirst.eq_or_lt with rfl | hlt'
      · rw [(hours.unique hours₀).2.1]
        exact hle
      · have hbefore : c ≤ b₀ := Schedule.closes_le_opens (hmem hours) (hmem hours₀) hlt'
        exact (hours.reg.le.trans hbefore).trans hle
    · rcases hlast.eq_or_lt with rfl | hlt'
      · rw [(hours'.unique hours₀).2.2.1]
        exact hlt
      · have hbefore : c₀ ≤ b' := Schedule.closes_le_opens (hmem hours₀) (hmem hours') hlt'
        exact (hlt.trans_le hbefore).trans hours'.reg

include hmaps in
theorem inHours_iff {period : BarPeriod} (hvalid : validatePeriod period = .ok ()) {t : Instant}
    {w : BarWindow} (h : barWindow tz t period = .ok w) :
    InHours (xnys tz) period t w ↔ ¬ OutOfHours (xnys tz) period t := by
  cases period with
  | clock ci =>
    obtain ⟨hpos, rfl⟩ := clockBarWindow_ok h
    exact iff_of_true ⟨alignDown_le hpos, lt_alignDown_add hpos, fun h => by cases h⟩ id
  | session span =>
    cases span with
    | eth => cases hvalid
    | regular =>
      have hw := (@sessionBarWindow_hours tz hmaps t .regular w h).1 rfl
      constructor
      · rintro ⟨hle, hlt, -⟩ hout
        exact hout (hw.mp ⟨hle, hlt⟩)
      · intro hin
        have hkind : (classify tz t).kind = .regular := not_not.mp hin
        obtain ⟨hle, hlt⟩ := hw.mpr hkind
        exact ⟨hle, hlt, fun _ hoff => hoff.2 hkind⟩
    | extended =>
      have hw := (@sessionBarWindow_hours tz hmaps t .extended w h).2 rfl
      constructor
      · rintro ⟨hle, hlt, -⟩ hout
        exact hw.mp ⟨hle, hlt⟩ hout
      · intro hin
        obtain ⟨hle, hlt⟩ := hw.mpr hin
        exact ⟨hle, hlt, fun h => by cases h⟩
  | calendar span =>
    obtain ⟨hamid, hw⟩ := calendarBarWindow_hours hmaps h
    constructor
    · rintro ⟨hle, hlt, hoff⟩ hout
      exact hoff rfl ⟨hamid hle hlt, hout⟩
    · intro hin
      have hkind : (classify tz t).kind = .regular := not_not.mp hin
      obtain ⟨hle, hlt⟩ := hw hkind
      exact ⟨hle, hlt, fun _ hoff => hoff.2 hkind⟩

end Xnys

namespace CryptoSpot

/-- The day sessions leave no time between them. -/
theorem regular_of_amidSessions {t : Instant} (h : AmidSessions cryptoSpot t) :
    (classify t).kind = .regular := by
  obtain ⟨⟨s, hs, hopen⟩, s', hs', hclose⟩ := h
  rw [← all_schedule] at hs hs'
  obtain ⟨d, hs⟩ := hs
  obtain ⟨d', hs'⟩ := hs'
  obtain ⟨hcov, rfl⟩ := mem_sessionsOn.mp hs
  obtain ⟨hcov', rfl⟩ := mem_sessionsOn.mp hs'
  rw [closes_daySession, Instant.lt_ofDate] at hclose
  have hopen : d ≤ utcDate t := Instant.ofDate_le.mp hopen
  have hdate : utcDate t < d' + 1 := hclose
  have h1 := inCoverage_iff.mp hcov
  have h2 := inCoverage_iff.mp hcov'
  have hin : inCoverage (utcDate t) = true := inCoverage_iff.mpr ⟨by omega, by omega⟩
  simp [classify, hin, daySession, Session.new]

theorem inHours {period : BarPeriod} (hvalid : validatePeriod period = .ok ()) {t : Instant}
    {w : BarWindow} (h : barWindow t period = .ok w) : InHours cryptoSpot period t w := by
  obtain ⟨hle, hlt⟩ := barWindow_mem hvalid h
  exact ⟨hle, hlt, fun _ hoff => hoff.2 (regular_of_amidSessions hoff.1)⟩

end CryptoSpot

end Midas.Calendar
