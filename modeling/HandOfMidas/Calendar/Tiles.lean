import HandOfMidas.Calendar.Sessions
import HandOfMidas.Calendar.Spans

/-! The bar windows of both calendars tile time. -/

namespace Midas.Calendar

namespace Xnys

variable {tz : Tz} (hmaps : MapsSessionTimes tz)

theorem nextTradingDay_spec {d d' : ℤ} (h : nextTradingDayOnOrAfter d = some d') :
    d ≤ d' ∧ isTradingDay d' = true ∧ ∀ e, d ≤ e → e < d' → isTradingDay e = false := by
  obtain ⟨e, hle, -, he, hnone⟩ := Walk.up_eq_some h
  split at he
  · rename_i hday
    obtain rfl := Option.some.inj he
    refine ⟨hle, hday, fun e' h1 h2 => ?_⟩
    have := hnone e' h1 h2
    split at this
    · cases this
    · rename_i hclosed
      simpa using hclosed
  · cases he

theorem prevTradingDay_spec {d d' : ℤ} (h : prevTradingDayOnOrBefore d = some d') :
    d' ≤ d ∧ isTradingDay d' = true ∧ ∀ e, e ≤ d → d' < e → isTradingDay e = false := by
  obtain ⟨e, hle, -, he, hnone⟩ := Walk.down_eq_some h
  split at he
  · rename_i hday
    obtain rfl := Option.some.inj he
    refine ⟨hle, hday, fun e' h1 h2 => ?_⟩
    have := hnone e' h1 h2
    split at this
    · cases this
    · rename_i hclosed
      simpa using hclosed
  · cases he

/-- A trading day is its own next one. -/
theorem nextTradingDay_self {d : ℤ} (h : isTradingDay d = true) :
    nextTradingDayOnOrAfter d = some d := by
  cases hnext : nextTradingDayOnOrAfter d with
  | none =>
    have hlt := (inCoverage_iff.mp (inCoverage_of_isTradingDay h)).2
    have := Walk.up_eq_none hnext d le_rfl (by omega)
    simp [h] at this
  | some d' =>
    obtain ⟨hle, -, hnone⟩ := nextTradingDay_spec hnext
    rcases hle.eq_or_lt with rfl | hlt
    · rfl
    · rw [hnone d le_rfl hlt] at h
      cases h

theorem nextTradingDay_mono {d e d' e' : ℤ} (hle : d ≤ e) (hd : nextTradingDayOnOrAfter d = some d')
    (he : nextTradingDayOnOrAfter e = some e') : d' ≤ e' := by
  obtain ⟨-, -, hnone⟩ := nextTradingDay_spec hd
  obtain ⟨hle', hday, -⟩ := nextTradingDay_spec he
  by_contra hlt
  rw [hnone e' (hle.trans hle') (not_le.mp hlt)] at hday
  cases hday

/-- The four instants of a trading day. -/
structure Hours (tz : Tz) (d : ℤ) (preOpen regOpen regClose postClose : Instant) : Prop where
  day : isTradingDay d = true
  pre : preOpen < regOpen
  reg : regOpen < regClose
  post : regClose < postClose
  opens : etDate tz preOpen = d
  closes : etDate tz postClose = d
  sessions : (buildTradingDay tz d).sessions = [.new xnysId .preMarket preOpen regOpen,
    .new xnysId .regular regOpen regClose, .new xnysId .postMarket regClose postClose]

theorem Hours.exists_of_day {d : ℤ} (hmaps : MapsSessionTimes tz) (h : isTradingDay d = true) :
    ∃ a b c e, Hours tz d a b c e := by
  obtain ⟨a, b, c, e, hab, hbc, hce, ha, he, hsessions⟩ := sessions_of_tradingDay hmaps h
  exact ⟨a, b, c, e, h, hab, hbc, hce, ha, he, hsessions⟩

variable {d : ℤ} {a b c e : Instant}

theorem Hours.etDate_eq (h : Hours tz d a b c e) (hmaps : MapsSessionTimes tz) {t : Instant}
    (hat : a ≤ t) (hte : t ≤ e) : etDate tz t = d :=
  le_antisymm ((hmaps.etDate_mono hte).trans_eq h.closes)
    (h.opens.symm.trans_le (hmaps.etDate_mono hat))

theorem Hours.regularOf (h : Hours tz d a b c e) :
    regularOf (buildTradingDay tz d) = .ok (.new xnysId .regular b c) := by
  simp [Xnys.regularOf, h.sessions, Session.new]

/-- The window of a session period is made of the hours of one trading day, the next one. -/
theorem sessionBarWindow_ok (hmaps : MapsSessionTimes tz) {t : Instant} {span : SessionSpan}
    {w : BarWindow} (h : sessionBarWindow tz t span = .ok w) :
    ∃ d a b c e, nextTradingDayOnOrAfter (etDate tz t) = some d ∧ Hours tz d a b c e ∧
      (span = .regular ∧ w = ⟨b, c, .new xnysId .regular b c⟩ ∨
        span = .extended ∧ w = ⟨a, e, .new xnysId .regular b c⟩) := by
  simp only [sessionBarWindow] at h
  cases hnext : nextTradingDayOnOrAfter (etDate tz t) with
  | none =>
    rw [hnext] at h
    cases h
  | some d =>
    obtain ⟨a, b, c, e, hours⟩ := Hours.exists_of_day hmaps (nextTradingDay_spec hnext).2.1
    refine ⟨d, a, b, c, e, rfl, hours, ?_⟩
    rw [hnext] at h
    cases span with
    | regular =>
      simp only [hours.regularOf] at h
      exact Or.inl ⟨rfl, (Except.ok.inj h).symm⟩
    | extended =>
      simp only [hours.regularOf, hours.sessions, List.head?_cons, List.getLast?_cons_cons,
        List.getLast?_singleton] at h
      exact Or.inr ⟨rfl, (Except.ok.inj h).symm⟩
    | eth => cases h

/-- The window of a session period depends on the next trading day only. -/
theorem sessionBarWindow_congr {t t' : Instant} {span : SessionSpan} {d : ℤ}
    (h : nextTradingDayOnOrAfter (etDate tz t) = some d)
    (h' : nextTradingDayOnOrAfter (etDate tz t') = some d) :
    sessionBarWindow tz t' span = sessionBarWindow tz t span := by
  simp only [sessionBarWindow, h, h']

theorem sessionBarWindow_dates (hmaps : MapsSessionTimes tz) {t : Instant} {span : SessionSpan}
    {w : BarWindow} (h : sessionBarWindow tz t span = .ok w) :
    ∃ d, nextTradingDayOnOrAfter (etDate tz t) = some d ∧ isTradingDay d = true ∧ w.opens < w.closes ∧
      etDate tz w.opens = d ∧ etDate tz w.closes = d := by
  obtain ⟨d, a, b, c, e, hnext, hours, ⟨-, rfl⟩ | ⟨-, rfl⟩⟩ := sessionBarWindow_ok hmaps h
  · have hb := hours.etDate_eq hmaps hours.pre.le (hours.reg.trans hours.post).le
    have hc := hours.etDate_eq hmaps (hours.pre.trans hours.reg).le hours.post.le
    exact ⟨d, hnext, hours.day, hours.reg, hb, hc⟩
  · exact ⟨d, hnext, hours.day, (hours.pre.trans hours.reg).trans hours.post, hours.opens, hours.closes⟩

include hmaps in
theorem sessionBarWindow_inside {t t' : Instant} {span : SessionSpan} {w : BarWindow}
    (h : sessionBarWindow tz t span = .ok w) (hle : w.opens ≤ t') (hlt : t' < w.closes) :
    sessionBarWindow tz t' span = .ok w := by
  obtain ⟨d, hnext, hday, -, hopens, hcloses⟩ := sessionBarWindow_dates hmaps h
  have hdate : etDate tz t' = d :=
    le_antisymm ((hmaps.etDate_mono hlt.le).trans_eq hcloses)
      (hopens.symm.trans_le (hmaps.etDate_mono hle))
  rw [← h]
  refine sessionBarWindow_congr hnext ?_
  rw [hdate]
  exact nextTradingDay_self hday

include hmaps in
theorem sessionBarWindow_mono {t t' : Instant} {span : SessionSpan} {w w' : BarWindow} (hle : t ≤ t')
    (h : sessionBarWindow tz t span = .ok w) (h' : sessionBarWindow tz t' span = .ok w') :
    w.opens ≤ w'.opens := by
  obtain ⟨d, hnext, hday, -, hopens, -⟩ := sessionBarWindow_dates hmaps h
  obtain ⟨d', hnext', hday', -, hopens', -⟩ := sessionBarWindow_dates hmaps h'
  rcases (nextTradingDay_mono (hmaps.etDate_mono hle) hnext hnext').eq_or_lt with rfl | hlt
  · have hsame : sessionBarWindow tz t' span = sessionBarWindow tz t span :=
      sessionBarWindow_congr hnext hnext'
    rw [h, h'] at hsame
    rw [Except.ok.inj hsame]
  · -- dates do not go back
    refine (hmaps.etDate_mono.reflect_lt ?_).le
    rw [hopens, hopens']
    exact hlt

/-- The window of a calendar period runs from the first trading day of the span to its last. -/
theorem calendarBarWindow_ok (hmaps : MapsSessionTimes tz) {t : Instant} {span : CalendarSpan}
    {w : BarWindow} (h : calendarBarWindow tz t span = .ok w) :
    ∃ days first last a b c e a' b' c' e', spanOf span (etDate tz t) = some days ∧
      Hours tz first a b c e ∧ Hours tz last a' b' c' e' ∧
      days.1 ≤ first ∧ first ≤ last ∧ last < days.2 ∧
      (∀ d, isTradingDay d = true → days.1 ≤ d → d < days.2 → first ≤ d ∧ d ≤ last) ∧
      w = ⟨b, c', .new xnysId .regular b c⟩ := by
  simp only [calendarBarWindow] at h
  cases hspan : spanOf span (etDate tz t) with
  | none =>
    rw [hspan] at h
    cases h
  | some days =>
    rw [hspan] at h
    simp only at h
    split at h
    · cases h
    · rename_i first hfirst
      split at h
      · cases h
      · rename_i last hlast
        obtain ⟨hfirst, hlt⟩ := Option.filter_eq_some_iff.mp hfirst
        obtain ⟨hlast, hge⟩ := Option.filter_eq_some_iff.mp hlast
        simp only [decide_eq_true_eq] at hlt hge
        obtain ⟨hle, hday, hnone⟩ := nextTradingDay_spec hfirst
        obtain ⟨hle', hday', hnone'⟩ := prevTradingDay_spec hlast
        obtain ⟨a, b, c, e, hours⟩ := Hours.exists_of_day hmaps hday
        obtain ⟨a', b', c', e', hours'⟩ := Hours.exists_of_day hmaps hday'
        have hbetween : ∀ d, isTradingDay d = true → days.1 ≤ d → d < days.2 →
            first ≤ d ∧ d ≤ last := by
          intro d hd h1 h2
          constructor
          · by_contra hlt
            rw [hnone d h1 (not_le.mp hlt)] at hd
            cases hd
          · by_contra hlt
            rw [hnone' d (by omega) (not_le.mp hlt)] at hd
            cases hd
        rw [hours.regularOf, hours'.regularOf] at h
        exact ⟨days, first, last, a, b, c, e, a', b', c', e', rfl, hours, hours', hle,
          (hbetween first hday hle hlt).2, by omega, hbetween, (Except.ok.inj h).symm⟩

theorem calendarBarWindow_congr {t t' : Instant} {span : CalendarSpan} {days : ℤ × ℤ}
    (h : spanOf span (etDate tz t) = some days) (h' : spanOf span (etDate tz t') = some days) :
    calendarBarWindow tz t' span = calendarBarWindow tz t span := by
  simp only [calendarBarWindow, h, h']

theorem calendarBarWindow_dates (hmaps : MapsSessionTimes tz) {t : Instant} {span : CalendarSpan}
    {w : BarWindow} (h : calendarBarWindow tz t span = .ok w) :
    ∃ days, spanOf span (etDate tz t) = some days ∧ w.opens < w.closes ∧
      days.1 ≤ etDate tz w.opens ∧ etDate tz w.opens ≤ etDate tz w.closes ∧
      etDate tz w.closes < days.2 := by
  obtain ⟨days, first, last, a, b, c, e, a', b', c', e', hspan, hours, hours', hle, hfl, hlt, -, rfl⟩ :=
    calendarBarWindow_ok hmaps h
  have hb := hours.etDate_eq hmaps hours.pre.le (hours.reg.trans hours.post).le
  have hc' := hours'.etDate_eq hmaps (hours'.pre.trans hours'.reg).le hours'.post.le
  refine ⟨days, hspan, ?_, by rw [hb]; exact hle, by rw [hb, hc']; exact hfl, by rw [hc']; exact hlt⟩
  rcases hfl.eq_or_lt with rfl | hlt'
  · have hsame := hours.sessions.symm.trans hours'.sessions
    simp only [List.cons.injEq, Session.new, Session.mk.injEq, true_and, and_true] at hsame
    rw [← hsame.2.1.2]
    exact hours.reg
  · refine hmaps.etDate_mono.reflect_lt ?_
    rw [hb, hc']
    exact hlt'

include hmaps in
theorem calendarBarWindow_inside {t t' : Instant} {span : CalendarSpan} {w : BarWindow}
    (h : calendarBarWindow tz t span = .ok w) (hle : w.opens ≤ t') (hlt : t' < w.closes) :
    calendarBarWindow tz t' span = .ok w := by
  obtain ⟨days, hspan, -, hopens, -, hcloses⟩ := calendarBarWindow_dates hmaps h
  have h1 := hopens.trans (hmaps.etDate_mono hle)
  have h2 := (hmaps.etDate_mono hlt.le).trans_lt hcloses
  rw [← h]
  exact calendarBarWindow_congr hspan (spanOf_inside hspan h1 h2)

include hmaps in
theorem calendarBarWindow_mono {t t' : Instant} {span : CalendarSpan} {w w' : BarWindow} (hle : t ≤ t')
    (h : calendarBarWindow tz t span = .ok w) (h' : calendarBarWindow tz t' span = .ok w') :
    w.opens ≤ w'.opens := by
  obtain ⟨days, hspan, -, hopens, hoc, hcloses⟩ := calendarBarWindow_dates hmaps h
  obtain ⟨days', hspan', -, hopens', -, -⟩ := calendarBarWindow_dates hmaps h'
  have hmono := (tiling_spanOf span).mono (hmaps.etDate_mono hle) hspan hspan'
  rcases (tiling_spanOf span).same_or_disjoint hspan hspan' with rfl | hdisjoint | hdisjoint
  · have hsame := calendarBarWindow_congr hspan hspan'
    rw [h, h'] at hsame
    rw [Except.ok.inj hsame]
  · exact (hmaps.etDate_mono.reflect_lt (by omega)).le
  · have := (tiling_spanOf span).lt hspan'
    omega

include hmaps in
theorem tiling_sessionBarWindow (span : SessionSpan) :
    Tiling fun t => boundsOf (sessionBarWindow tz t span) := by
  refine tiling_boundsOf (fun h => ?_) (sessionBarWindow_inside hmaps) (sessionBarWindow_mono hmaps)
  obtain ⟨d, -, -, hlt, -⟩ := sessionBarWindow_dates hmaps h
  exact hlt

include hmaps in
theorem tiling_calendarBarWindow (span : CalendarSpan) :
    Tiling fun t => boundsOf (calendarBarWindow tz t span) := by
  refine tiling_boundsOf (fun h => ?_) (calendarBarWindow_inside hmaps) (calendarBarWindow_mono hmaps)
  obtain ⟨days, -, hlt, -⟩ := calendarBarWindow_dates hmaps h
  exact hlt

include hmaps in
theorem tiling_barWindow {period : BarPeriod} (hvalid : validatePeriod period = .ok ()) :
    Tiling fun t => boundsOf (barWindow tz t period) := by
  cases period with
  | clock ci => exact tiling_clockBarWindow xnysId (etDate tz) (classify tz) ci
  | session span =>
    cases span with
    | regular => exact tiling_sessionBarWindow hmaps .regular
    | extended => exact tiling_sessionBarWindow hmaps .extended
    | eth => cases hvalid
  | calendar span => exact tiling_calendarBarWindow hmaps span

include hmaps in
/-- The instants of a window have it, but for the session of a clock period. -/
theorem barWindow_inside {period : BarPeriod} (hvalid : validatePeriod period = .ok ()) {t t' : Instant}
    {w : BarWindow} (h : barWindow tz t period = .ok w) (hle : w.opens ≤ t') (hlt : t' < w.closes) :
    barWindow tz t' period = .ok
      { w with session := if period.isClock then classify tz t' else w.session } := by
  cases period with
  | clock ci => exact clockBarWindow_inside h hle hlt
  | session span =>
    cases span with
    | regular =>
      have h : sessionBarWindow tz t .regular = .ok w := h
      exact sessionBarWindow_inside hmaps h hle hlt
    | extended =>
      have h : sessionBarWindow tz t .extended = .ok w := h
      exact sessionBarWindow_inside hmaps h hle hlt
    | eth => cases hvalid
  | calendar span => exact calendarBarWindow_inside hmaps h hle hlt

/-! ### Whose sessions they are -/

theorem calendar_of_mem {tz : Tz} {d : ℤ} {s : Session} (hs : s ∈ (buildTradingDay tz d).sessions) :
    s.calendar = xnysId := by
  simp only [buildTradingDay] at hs
  split at hs
  · cases hs
  · simp only [List.mem_cons, List.not_mem_nil, or_false] at hs
    rcases hs with rfl | rfl | rfl <;> rfl

theorem calendar_of_regularOf {tz : Tz} {d : ℤ} {s : Session}
    (h : regularOf (buildTradingDay tz d) = .ok s) : s.calendar = xnysId := by
  unfold regularOf at h
  split at h
  · rename_i reg hfind
    rw [← Except.ok.inj h]
    exact calendar_of_mem (List.mem_of_find?_eq_some hfind)
  · cases h

theorem calendar_of_classify (tz : Tz) (t : Instant) : (classify tz t).calendar = xnysId := by
  unfold classify
  simp only
  split
  · rfl
  · split
    · rename_i s hfind
      exact calendar_of_mem (List.mem_of_find?_eq_some hfind)
    · rfl

theorem calendar_of_barWindow {tz : Tz} {t : Instant} {period : BarPeriod} {w : BarWindow}
    (h : barWindow tz t period = .ok w) : w.session.calendar = xnysId := by
  cases period with
  | clock ci =>
    obtain ⟨-, rfl⟩ := clockBarWindow_ok h
    exact calendar_of_classify tz t
  | session span =>
    cases span with
    | eth => cases h
    | regular =>
      have h : sessionBarWindow tz t .regular = .ok w := h
      unfold sessionBarWindow at h
      simp only at h
      split at h
      · cases h
      · obtain ⟨reg, hreg, h⟩ := bind_ok h
        rw [← Except.ok.inj h]
        exact calendar_of_regularOf hreg
    | extended =>
      have h : sessionBarWindow tz t .extended = .ok w := h
      unfold sessionBarWindow at h
      simp only at h
      split at h
      · cases h
      · split at h
        · obtain ⟨reg, hreg, h⟩ := bind_ok h
          rw [← Except.ok.inj h]
          exact calendar_of_regularOf hreg
        · cases h
  | calendar span =>
    have h : calendarBarWindow tz t span = .ok w := h
    unfold calendarBarWindow at h
    simp only at h
    split at h
    · cases h
    split at h
    · cases h
    split at h
    · cases h
    · obtain ⟨firstReg, hfirst, h⟩ := bind_ok h
      obtain ⟨lastReg, -, h⟩ := bind_ok h
      rw [← Except.ok.inj h]
      exact calendar_of_regularOf hfirst

end Xnys

namespace CryptoSpot

/-- The window of a session period is the day of the instant. -/
theorem barWindow_session {t : Instant} {span : SessionSpan} (hspan : span ≠ .eth) :
    barWindow t (.session span) = if inCoverage (utcDate t) then
      .ok ⟨(daySession (utcDate t)).opens, (daySession (utcDate t)).closes, daySession (utcDate t)⟩
    else .error (.outOfRange (utcDate t)) := by
  have hvalid : validatePeriod (.session span) = .ok () := by
    cases span with
    | eth => exact absurd rfl hspan
    | regular => rfl
    | extended => rfl
  simp only [barWindow, hvalid]
  cases inCoverage (utcDate t) <;> rfl

theorem barWindow_session_ok {t : Instant} {span : SessionSpan} {w : BarWindow}
    (hvalid : validatePeriod (.session span) = .ok ()) (h : barWindow t (.session span) = .ok w) :
    inCoverage (utcDate t) = true ∧
      w = ⟨(daySession (utcDate t)).opens, (daySession (utcDate t)).closes,
        daySession (utcDate t)⟩ := by
  have hspan : span ≠ .eth := by
    rintro rfl
    cases hvalid
  rw [barWindow_session hspan] at h
  split at h
  · rename_i hcov
    exact ⟨hcov, (Except.ok.inj h).symm⟩
  · cases h

theorem barWindow_session_inside {t t' : Instant} {span : SessionSpan} {w : BarWindow}
    (hvalid : validatePeriod (.session span) = .ok ()) (h : barWindow t (.session span) = .ok w)
    (hle : w.opens ≤ t') (hlt : t' < w.closes) : barWindow t' (.session span) = .ok w := by
  have hspan : span ≠ .eth := by
    rintro rfl
    cases hvalid
  obtain ⟨hcov, rfl⟩ := barWindow_session_ok hvalid h
  have hdate := daySession_contains.mp (Session.contains_iff.mpr ⟨hle, hlt⟩)
  rw [barWindow_session hspan, hdate, if_pos hcov]

/-- The window of a calendar period is the span of the instant's date. -/
theorem calendarBarWindow_ok {t : Instant} {span : CalendarSpan} {w : BarWindow}
    (h : calendarBarWindow t span = .ok w) : ∃ days, spanOf span (utcDate t) = some days ∧
      w = ⟨Instant.ofDate days.1, Instant.ofDate days.2, daySession days.1⟩ := by
  simp only [calendarBarWindow] at h
  cases hspan : spanOf span (utcDate t) with
  | none =>
    rw [hspan] at h
    cases h
  | some days =>
    rw [hspan] at h
    refine ⟨days, rfl, ?_⟩
    rw [← Except.ok.inj h, closes_daySession, sub_add_cancel]
    rfl

theorem calendarBarWindow_mem {t : Instant} {span : CalendarSpan} {w : BarWindow}
    (h : calendarBarWindow t span = .ok w) : w.opens ≤ t ∧ t < w.closes := by
  obtain ⟨days, hspan, rfl⟩ := calendarBarWindow_ok h
  exact ⟨Instant.ofDate_le.mpr (mem_spanOf hspan).1, Instant.lt_ofDate.mpr (mem_spanOf hspan).2⟩

theorem calendarBarWindow_inside {t t' : Instant} {span : CalendarSpan} {w : BarWindow}
    (h : calendarBarWindow t span = .ok w) (hle : w.opens ≤ t') (hlt : t' < w.closes) :
    calendarBarWindow t' span = .ok w := by
  obtain ⟨days, hspan, rfl⟩ := calendarBarWindow_ok h
  have hspan' := spanOf_inside hspan (Instant.ofDate_le.mp hle) (Instant.lt_ofDate.mp hlt)
  have hspan' : spanOf span (utcDate t') = some days := hspan'
  rw [← h]
  simp only [calendarBarWindow, hspan, hspan']

theorem calendar_of_classify (t : Instant) : (classify t).calendar = cryptoSpotId := by
  unfold classify
  simp only
  split <;> rfl

theorem calendar_of_barWindow {t : Instant} {period : BarPeriod} {w : BarWindow}
    (h : barWindow t period = .ok w) : w.session.calendar = cryptoSpotId := by
  cases period with
  | clock ci =>
    obtain ⟨-, rfl⟩ := clockBarWindow_ok h
    exact calendar_of_classify t
  | session span =>
    cases span with
    | eth => cases h
    | regular =>
      obtain ⟨-, rfl⟩ := barWindow_session_ok rfl h
      rfl
    | extended =>
      obtain ⟨-, rfl⟩ := barWindow_session_ok rfl h
      rfl
  | calendar span =>
    obtain ⟨days, -, rfl⟩ := calendarBarWindow_ok h
    rfl

/-- Every instant lies in its window. -/
theorem barWindow_mem {period : BarPeriod} (hvalid : validatePeriod period = .ok ()) {t : Instant}
    {w : BarWindow} (h : barWindow t period = .ok w) : w.opens ≤ t ∧ t < w.closes := by
  cases period with
  | clock ci =>
    obtain ⟨hpos, rfl⟩ := clockBarWindow_ok h
    exact ⟨alignDown_le hpos, lt_alignDown_add hpos⟩
  | session span =>
    obtain ⟨-, rfl⟩ := barWindow_session_ok hvalid h
    exact Session.contains_iff.mp (daySession_contains.mpr rfl)
  | calendar span => exact calendarBarWindow_mem h

theorem barWindow_inside {period : BarPeriod} (hvalid : validatePeriod period = .ok ()) {t t' : Instant}
    {w : BarWindow} (h : barWindow t period = .ok w) (hle : w.opens ≤ t') (hlt : t' < w.closes) :
    barWindow t' period =
      .ok { w with session := if period.isClock then classify t' else w.session } := by
  cases period with
  | clock ci => exact clockBarWindow_inside h hle hlt
  | session span => exact barWindow_session_inside hvalid h hle hlt
  | calendar span => exact calendarBarWindow_inside h hle hlt

theorem tiling_barWindow {period : BarPeriod} (hvalid : validatePeriod period = .ok ()) :
    Tiling fun t => boundsOf (barWindow t period) := by
  refine Tiling.of_contains ?_ ?_
  · intro t b h
    obtain ⟨w, hw, rfl⟩ := boundsOf_eq_some.mp h
    exact barWindow_mem hvalid hw
  · intro t b t' h hle hlt
    obtain ⟨w, hw, rfl⟩ := boundsOf_eq_some.mp h
    exact boundsOf_eq_some.mpr ⟨_, barWindow_inside hvalid hw hle hlt, rfl⟩

end CryptoSpot

/-- The session of a window is one of its calendar. -/
theorem calendar_of_barWindow {tz : Tz} {cal : ExchangeCalendar}
    (hcal : cal ∈ [Xnys.xnys tz, CryptoSpot.cryptoSpot]) {t : Instant} {period : BarPeriod}
    {w : BarWindow}
    (h : cal.barWindow t period = .ok w) : w.session.calendar = cal.id := by
  simp only [List.mem_cons, List.not_mem_nil, or_false] at hcal
  rcases hcal with rfl | rfl
  · exact Xnys.calendar_of_barWindow h
  · exact CryptoSpot.calendar_of_barWindow h

open CryptoSpot in
/-- For both calendars and every period they accept, the windows of two instants are not empty, are the
    same or disjoint, come in the order of the instants, and are equal if one instant lies in the
    window of the other; the session of a clock window is that of its instant. -/
theorem windows_tile {tz : Tz} (hmaps : Xnys.MapsSessionTimes tz) {cal : ExchangeCalendar}
    (hcal : cal ∈ [Xnys.xnys tz, cryptoSpot]) {period : BarPeriod}
    (hvalid : cal.validatePeriod period = .ok ()) {t t' : Instant} {w w' : BarWindow}
    (h : cal.barWindow t period = .ok w) (h' : cal.barWindow t' period = .ok w') :
    w.opens < w.closes ∧
      (w.opens = w'.opens ∧ w.closes = w'.closes ∨ w.closes ≤ w'.opens ∨ w'.closes ≤ w.opens) ∧
      (t ≤ t' → w.opens ≤ w'.opens) ∧
      (w.opens ≤ t' → t' < w.closes →
        w' = { w with session := if period.isClock then cal.classify t' else w.session }) := by
  have hspec : (Tiling fun t => boundsOf (cal.barWindow t period)) ∧ (w.opens ≤ t' → t' < w.closes →
      cal.barWindow t' period = .ok
        { w with session := if period.isClock then cal.classify t' else w.session }) := by
    simp only [List.mem_cons, List.not_mem_nil, or_false] at hcal
    rcases hcal with rfl | rfl
    · exact ⟨Xnys.tiling_barWindow hmaps hvalid, Xnys.barWindow_inside hmaps hvalid h⟩
    · exact ⟨tiling_barWindow hvalid, barWindow_inside hvalid h⟩
  obtain ⟨htiling, hinside⟩ := hspec
  have hb := boundsOf_eq_some.mpr ⟨w, h, rfl⟩
  have hb' := boundsOf_eq_some.mpr ⟨w', h', rfl⟩
  refine ⟨htiling.lt hb, ?_, fun hle => htiling.mono hle hb hb', fun hle hlt => ?_⟩
  · simpa only [Prod.mk.injEq] using htiling.same_or_disjoint hb hb'
  · have hsame := hinside hle hlt
    rw [h'] at hsame
    exact Except.ok.inj hsame

/-- The regular session of 2024-01-17, from 14:30 to 21:00 UTC. -/
def wednesday : Session :=
  .new Xnys.xnysId .regular (Instant.ofTimestamp 1705501800) (Instant.ofTimestamp 1705525200)

def wednesdayWindow : BarWindow := ⟨wednesday.opens, wednesday.closes, wednesday⟩

theorem barWindow_wednesday (secs : ℤ) (h : secs = 1705501800 ∨ secs = 1705505400) :
    (Xnys.xnys Xnys.easternStandard).barWindow (Instant.ofTimestamp secs) (.session .regular) =
      .ok wednesdayWindow := by
  rcases h with rfl | rfl <;> rfl

theorem windows_tile_wednesday :
    wednesdayWindow.opens < wednesdayWindow.closes ∧
      (wednesdayWindow.opens = wednesdayWindow.opens ∧ wednesdayWindow.closes = wednesdayWindow.closes ∨
        wednesdayWindow.closes ≤ wednesdayWindow.opens ∨
          wednesdayWindow.closes ≤ wednesdayWindow.opens) ∧
      (Instant.ofTimestamp 1705501800 ≤ Instant.ofTimestamp 1705505400 →
        wednesdayWindow.opens ≤ wednesdayWindow.opens) ∧
      (wednesdayWindow.opens ≤ Instant.ofTimestamp 1705505400 →
        Instant.ofTimestamp 1705505400 < wednesdayWindow.closes →
          wednesdayWindow = { wednesdayWindow with session := wednesdayWindow.session }) :=
  have hvalid : Xnys.validatePeriod (.session .regular) = .ok () := rfl
  windows_tile Xnys.mapsSessionTimes_easternStandard (by simp) hvalid
    (barWindow_wednesday 1705501800 (Or.inl rfl)) (barWindow_wednesday 1705505400 (Or.inr rfl))

/-- The hour from 14:00 UTC has a window before the open at 14:30 and another one after. -/
theorem hour_of_two_sessions : ∃ w w' : BarWindow,
    (Xnys.xnys Xnys.easternStandard).barWindow (Instant.ofTimestamp 1705500000) (.clock (.hours 1)) =
        .ok w ∧
      (Xnys.xnys Xnys.easternStandard).barWindow (Instant.ofTimestamp 1705501800) (.clock (.hours 1)) =
        .ok w' ∧
      w.opens ≤ Instant.ofTimestamp 1705501800 ∧ Instant.ofTimestamp 1705501800 < w.closes ∧ w' ≠ w :=
  ⟨_, _, rfl, rfl, by decide +kernel, by decide +kernel, by decide +kernel⟩

end Midas.Calendar
