import HandOfMidas.Calendar.Types
import HandOfMidas.Lib.Walk

/-! The equity calendar: the holidays and early closes of the exchange by local date
    (`xnys/holidays.rs`), and its sessions (`xnys/mod.rs`). The time zone is a parameter:
    `America/New_York` of the database. -/

namespace Midas.Calendar.Holidays

open Civil

/-- `Weekday`, as the days after Monday. -/
def mon : ℤ := 0

def thu : ℤ := 3

/-- The `n`th day of that kind in the month. -/
def nthWeekdayOfMonth (y : ℤ) (m : ℕ) (wd : ℤ) (n : ℕ) : Option ℤ := do
  let first ← fromYmdOpt y m 1
  let delta := wd - weekday first
  let delta := if delta < 0 then delta + 7 else delta
  fromYmdOpt y m (1 + delta.toNat + (n - 1) * 7)

def lastDayOfMonth (y : ℤ) (m : ℕ) : Option ℕ := do
  let (nextYear, nextMonth) := if m = 12 then (y + 1, 1) else (y, m + 1)
  let nextFirst ← fromYmdOpt nextYear nextMonth 1
  some (day (nextFirst - 1)).toNat

/-- The last day of that kind in the month. -/
def lastWeekdayOfMonth (y : ℤ) (m : ℕ) (wd : ℤ) : Option ℤ := do
  let lastDay ← lastDayOfMonth y m
  let last ← fromYmdOpt y m lastDay
  let diff := (weekday last - wd) % 7
  fromYmdOpt y m (lastDay - diff.toNat)

/-- Easter Sunday (Meeus, Jones and Butcher). -/
def easterSunday (y : ℤ) : Option ℤ :=
  if y < 1583 then none
  else
    let a := y % 19
    let b := y / 100
    let c := y % 100
    let d := b / 4
    let e := b % 4
    let f := (b + 8) / 25
    let g := (b - f + 1) / 3
    let h := (19 * a + b - d - g + 15) % 30
    let i := c / 4
    let k := c % 4
    let l := (32 + 2 * e + 2 * i - h - k) % 7
    let m := (a + 11 * h + 22 * l) / 451
    let month := (h + l - 7 * m + 114) / 31
    let day := (h + l - 7 * m + 114) % 31 + 1
    fromYmdOpt y month.toNat day.toNat

/-- A fixed-date holiday on a Saturday is observed on Friday, one on a Sunday on Monday. -/
def observed (date : ℤ) : ℤ :=
  if weekday date = 5 then date - 1 else if weekday date = 6 then date + 1 else date

/-- A fixed-date holiday of the date's year. -/
def isObserved (m d : ℕ) (date : ℤ) : Bool :=
  (fromYmdOpt (year date) m d).any fun actual => date = observed actual

/-- A holiday on the `n`th day of a kind in its month. -/
def isNthWeekday (m : ℕ) (wd : ℤ) (n : ℕ) (date : ℤ) : Bool :=
  month date = m && nthWeekdayOfMonth (year date) m wd n = some date

def isNewYearsDayObserved (date : ℤ) : Bool := isObserved 1 1 date

def isMlkDay (date : ℤ) : Bool := isNthWeekday 1 mon 3 date

def isPresidentsDay (date : ℤ) : Bool := isNthWeekday 2 mon 3 date

def isGoodFriday (date : ℤ) : Bool := (easterSunday (year date)).any fun e => date = e - 2

def isMemorialDay (date : ℤ) : Bool :=
  month date = 5 && lastWeekdayOfMonth (year date) 5 mon = some date

def isJuneteenthObserved (date : ℤ) : Bool := !(year date < 2022) && isObserved 6 19 date

def isIndependenceDayObserved (date : ℤ) : Bool := isObserved 7 4 date

def isLaborDay (date : ℤ) : Bool := isNthWeekday 9 mon 1 date

def isThanksgiving (date : ℤ) : Bool := isNthWeekday 11 thu 4 date

def isChristmasObserved (date : ℤ) : Bool := isObserved 12 25 date

def regularHolidayName (date : ℤ) : Option String :=
  if isNewYearsDayObserved date then some "New Year's Day"
  else if isMlkDay date then some "Martin Luther King Jr. Day"
  else if isPresidentsDay date then some "Presidents Day"
  else if isGoodFriday date then some "Good Friday"
  else if isMemorialDay date then some "Memorial Day"
  else if isJuneteenthObserved date then some "Juneteenth"
  else if isIndependenceDayObserved date then some "Independence Day"
  else if isLaborDay date then some "Labor Day"
  else if isThanksgiving date then some "Thanksgiving Day"
  else if isChristmasObserved date then some "Christmas Day"
  else none

/-- Closures of single days. -/
def closures : List ((ℤ × ℕ × ℤ) × String) :=
  [((2001, 9, 11), "September 11 attacks"),
    ((2001, 9, 12), "September 11 attacks"),
    ((2001, 9, 13), "September 11 attacks"),
    ((2001, 9, 14), "September 11 attacks"),
    ((2004, 6, 11), "Ronald Reagan state funeral"),
    ((2007, 1, 2), "Gerald Ford state funeral"),
    ((2012, 10, 29), "Hurricane Sandy"),
    ((2012, 10, 30), "Hurricane Sandy"),
    ((2018, 12, 5), "George H.W. Bush state funeral"),
    ((2025, 1, 9), "Jimmy Carter day of mourning")]

def adHocClosureName (date : ℤ) : Option String :=
  (closures.find? fun c => c.1 = (year date, month date, day date)).map Prod.snd

def holidayName (date : ℤ) : Option String :=
  match adHocClosureName date with
  | some name => some name
  | none => regularHolidayName date

/-- The day after Thanksgiving, which need not be the fourth Friday. -/
def isDayAfterThanksgiving (date : ℤ) : Bool :=
  month date = 11 && (nthWeekdayOfMonth (year date) 11 thu 4).any fun t => date = t + 1

def isJuly3WeekdayEarlyClose (date : ℤ) : Bool :=
  month date = 7 && day date = 3 && !isWeekend date && !isIndependenceDayObserved date

def isChristmasEveWeekdayEarlyClose (date : ℤ) : Bool :=
  month date = 12 && day date = 24 && !isWeekend date && (regularHolidayName date).isNone

/-- The hour and minute of an early close. -/
def earlyCloseMinute (date : ℤ) : Option (ℕ × ℕ) :=
  if isDayAfterThanksgiving date || isJuly3WeekdayEarlyClose date ||
      isChristmasEveWeekdayEarlyClose date then some (13, 0)
  else none

end Midas.Calendar.Holidays

/-! ### Sessions -/

namespace Midas.Calendar.Xnys

open Civil

def xnysId : CalendarId := ⟨"XNYS"⟩

def coverageStart : ℤ := yearStart 2000

/-- The first date out of coverage. -/
def coverageEnd : ℤ := yearStart 2032

def preOpenHm : ℕ × ℕ := (4, 0)

def regOpenHm : ℕ × ℕ := (9, 30)

def regCloseHm : ℕ × ℕ := (16, 0)

def postCloseHm : ℕ × ℕ := (20, 0)

variable (tz : Tz)

/-- `et_to_utc`: the later instant of a local time that comes twice, an hour on for one that is
    skipped. -/
def etToUtc (date : ℤ) (hm : ℕ × ℕ) : Instant :=
  let naive := andTime date hm
  match h : tz.fromLocalDatetime naive with
  | .single dt => dt
  | .ambiguous _ later => later
  | .none => (tz.fromLocalDatetime (naive + Instant.ofTimestamp 3600)).single?.get (tz.gap naive h)

/-- `et_date`. -/
def etDate (ts : Instant) : ℤ := tz.dateNaive ts

/-- `build_trading_day`, for a date in coverage. -/
def buildTradingDay (date : ℤ) : TradingDay :=
  let holidayName := Holidays.holidayName date
  let isHoliday := holidayName.isSome
  if isWeekend date || isHoliday then ⟨date, [], false, isHoliday, holidayName⟩
  else
    let early := Holidays.earlyCloseMinute date
    let isEarlyClose := early.isSome
    let regCloseHm := early.getD regCloseHm
    let postCloseHm := if isEarlyClose then (17, 0) else postCloseHm
    let preOpen := etToUtc tz date preOpenHm
    let regOpen := etToUtc tz date regOpenHm
    let regClose := etToUtc tz date regCloseHm
    let postClose := etToUtc tz date postCloseHm
    ⟨date, [.new xnysId .preMarket preOpen regOpen, .new xnysId .regular regOpen regClose,
      .new xnysId .postMarket regClose postClose], isEarlyClose, false, none⟩

def inCoverage (date : ℤ) : Bool := coverageStart ≤ date && date < coverageEnd

def isTradingDay (date : ℤ) : Bool :=
  inCoverage date && !isWeekend date && (Holidays.holidayName date).isNone

def nextTradingDayOnOrAfter (date : ℤ) : Option ℤ :=
  Walk.up (fun d => if isTradingDay d then some d else none) (coverageEnd - date).toNat date

def prevTradingDayOnOrBefore (date : ℤ) : Option ℤ :=
  Walk.down (fun d => if isTradingDay d then some d else none) (date - coverageStart + 1).toNat date

/-- `closed_session`. -/
def closedSession (ts : Instant) : Session := .new xnysId .closed ts ts

def tradingDay (date : ℤ) : Except CalendarError TradingDay :=
  if !inCoverage date then .error (.outOfRange date) else .ok (buildTradingDay tz date)

def classify (ts : Instant) : Session :=
  let etDate := etDate tz ts
  if !inCoverage etDate then closedSession ts
  else
    match (buildTradingDay tz etDate).sessions.find? fun s => s.contains ts with
    | some s => s
    | none => closedSession ts

/-- The regular session of a day. -/
def regularOf (td : TradingDay) : Except CalendarError Session :=
  match td.sessions.find? fun s => s.kind = .regular with
  | some reg => .ok reg
  | none => .error (.outOfRange td.date)

/-- `session_bar_window`: the trading day is the date's own or the next one. -/
def sessionBarWindow (ts : Instant) (span : SessionSpan) : Except CalendarError BarWindow :=
  let etDate := etDate tz ts
  match nextTradingDayOnOrAfter etDate with
  | none => .error (.outOfRange etDate)
  | some date =>
    let td := buildTradingDay tz date
    match span with
    | .regular => do
      let reg ← regularOf td
      .ok ⟨reg.opens, reg.closes, reg⟩
    | .extended =>
      match td.sessions.head?, td.sessions.getLast? with
      | some pre, some post => do
        let reg ← regularOf td
        .ok ⟨pre.opens, post.closes, reg⟩
      | _, _ => .error (.outOfRange date)
    | .eth => .error (.unsupportedPeriod xnysId (.session span))

/-- `calendar_bar_window`: from the open of the span's first trading day to the close of its last. -/
def calendarBarWindow (ts : Instant) (span : CalendarSpan) : Except CalendarError BarWindow :=
  let etDate := etDate tz ts
  match spanOf span etDate with
  | none => .error (.outOfRange etDate)
  | some (start, endExcl) =>
    match (nextTradingDayOnOrAfter start).filter fun d => d < endExcl with
    | none => .error (.outOfRange start)
    | some firstTrading =>
      match (prevTradingDayOnOrBefore (endExcl - 1)).filter fun d => start ≤ d with
      | none => .error (.outOfRange (endExcl - 1))
      | some lastTrading => do
        let firstReg ← regularOf (buildTradingDay tz firstTrading)
        let lastReg ← regularOf (buildTradingDay tz lastTrading)
        .ok ⟨firstReg.opens, lastReg.closes, firstReg⟩

def validatePeriod (period : BarPeriod) : Except CalendarError Unit := rejectEth xnysId period

def barWindow (ts : Instant) (period : BarPeriod) : Except CalendarError BarWindow := do
  validatePeriod period
  match period with
  | .clock ci => clockBarWindow xnysId (etDate tz) (classify tz) ts ci
  | .session span => sessionBarWindow tz ts span
  | .calendar span => calendarBarWindow tz ts span

def sessionsBetween (tsFrom tsTo : Instant) : List Session :=
  if tsTo ≤ tsFrom then []
  else
    let startDate := max (etDate tz tsFrom) coverageStart
    let endDate := min (etDate tz tsTo + 1) coverageEnd
    Walk.collect (fun d => (buildTradingDay tz d).sessions.filter fun s =>
      tsFrom < s.closes && s.opens < tsTo) (endDate - startDate).toNat startDate

/-- What the walk of `next_open` looks at on a date. -/
def opensOn (ts : Instant) (kind : SessionKind) (d : ℤ) : Option Instant :=
  if isTradingDay d then
    ((buildTradingDay tz d).sessions.find? fun s => s.kind = kind && ts < s.opens).map Session.opens
  else none

def nextOpen (ts : Instant) (kind : SessionKind) : Option Instant :=
  let etDate := etDate tz ts
  let d := if inCoverage etDate then etDate else coverageStart
  Walk.up (opensOn tz ts kind) (coverageEnd - d).toNat d

/-- What the walk of `prev_close` looks at on a date. -/
def closesOn (ts : Instant) (kind : SessionKind) (d : ℤ) : Option Instant :=
  if isTradingDay d then
    ((buildTradingDay tz d).sessions.reverse.find? fun s => s.kind = kind && s.closes ≤ ts).map
      Session.closes
  else none

/-- `prev_close`: out of coverage the walk starts on the last day of the year 2032. -/
def prevClose (ts : Instant) (kind : SessionKind) : Option Instant :=
  let etDate := etDate tz ts
  let d := if inCoverage etDate then etDate else yearStart 2033 - 1
  Walk.down (closesOn tz ts kind) (d - coverageStart + 1).toNat d

/-- `XNYS`. -/
def xnys : ExchangeCalendar where
  id := xnysId
  covers := (coverageStart, coverageEnd)
  tradingDay := tradingDay tz
  isTradingDay := isTradingDay
  classify := classify tz
  barWindow := barWindow tz
  validatePeriod := validatePeriod
  sessionsBetween := sessionsBetween tz
  nextOpen := nextOpen tz
  prevClose := prevClose tz

end Midas.Calendar.Xnys
