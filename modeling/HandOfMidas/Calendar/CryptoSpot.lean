import HandOfMidas.Calendar.Types
import HandOfMidas.Lib.Walk

/-! The calendar of crypto spot markets (`crypto_spot.rs`), open around the clock, in UTC. -/

namespace Midas.Calendar.CryptoSpot

open Civil

def cryptoSpotId : CalendarId := ⟨"CRYPTO"⟩

def coverageStart : ℤ := yearStart 1970

/-- The first date out of coverage. -/
def coverageEnd : ℤ := yearStart 2100

/-- `utc_date`. -/
def utcDate (ts : Instant) : ℤ := ts.dateNaive

/-- The one session of a date. -/
def daySession (date : ℤ) : Session :=
  .new cryptoSpotId .regular (Instant.ofDate date) (Instant.ofDate date + Instant.day)

/-- `build_day`. -/
def buildDay (date : ℤ) : TradingDay := ⟨date, [daySession date], false, false, none⟩

def inCoverage (date : ℤ) : Bool := coverageStart ≤ date && date < coverageEnd

/-- `closed_session`. -/
def closedSession (ts : Instant) : Session := .new cryptoSpotId .closed ts ts

def tradingDay (date : ℤ) : Except CalendarError TradingDay :=
  if !inCoverage date then .error (.outOfRange date) else .ok (buildDay date)

def isTradingDay (date : ℤ) : Bool := inCoverage date

def classify (ts : Instant) : Session :=
  let date := utcDate ts
  if !inCoverage date then closedSession ts else daySession date

/-- `calendar_bar_window`: whole days of UTC, in coverage or not. -/
def calendarBarWindow (ts : Instant) (span : CalendarSpan) : Except CalendarError BarWindow :=
  let date := utcDate ts
  match spanOf span date with
  | none => .error (.outOfRange date)
  | some (start, endExcl) =>
    .ok ⟨(daySession start).opens, (daySession (endExcl - 1)).closes, daySession start⟩

def validatePeriod (period : BarPeriod) : Except CalendarError Unit := rejectEth cryptoSpotId period

def barWindow (ts : Instant) (period : BarPeriod) : Except CalendarError BarWindow := do
  validatePeriod period
  match period with
  | .clock ci => clockBarWindow cryptoSpotId utcDate classify ts ci
  | .session _ =>
    let date := utcDate ts
    if !inCoverage date then .error (.outOfRange date)
    else
      let s := daySession date
      .ok ⟨s.opens, s.closes, s⟩
  | .calendar span => calendarBarWindow ts span

def sessionsBetween (tsFrom tsTo : Instant) : List Session :=
  if tsTo ≤ tsFrom then []
  else
    let d := max (utcDate tsFrom) coverageStart
    let endDate := min (utcDate tsTo + 1) coverageEnd
    Walk.collect (fun d => (buildDay d).sessions.filter fun s =>
      tsFrom < s.closes && s.opens < tsTo) (endDate - d).toNat d

/-- What the walk of `next_open` looks at on a date. -/
def opensOn (ts : Instant) (d : ℤ) : Option Instant :=
  match (buildDay d).sessions.head? with
  | some s => if ts < s.opens then some s.opens else none
  | none => none

def nextOpen (ts : Instant) (kind : SessionKind) : Option Instant :=
  if kind ≠ .regular then none
  else
    let date := utcDate ts
    let d := if inCoverage date then date else coverageStart
    Walk.up (opensOn ts) (coverageEnd - d).toNat d

/-- What the walk of `prev_close` looks at on a date. -/
def closesOn (ts : Instant) (d : ℤ) : Option Instant :=
  match (buildDay d).sessions.head? with
  | some s => if s.closes ≤ ts then some s.closes else none
  | none => none

/-- `prev_close`: out of coverage the walk starts on the last day of the year 2100, and no day of it
    is asked whether it is covered. -/
def prevClose (ts : Instant) (kind : SessionKind) : Option Instant :=
  if kind ≠ .regular then none
  else
    let date := utcDate ts
    let d := if inCoverage date then date else yearStart 2101 - 1
    Walk.down (closesOn ts) (d - coverageStart + 1).toNat d

/-- `CRYPTO_SPOT`. -/
def cryptoSpot : ExchangeCalendar where
  id := cryptoSpotId
  covers := (coverageStart, coverageEnd)
  tradingDay := tradingDay
  isTradingDay := isTradingDay
  classify := classify
  barWindow := barWindow
  validatePeriod := validatePeriod
  sessionsBetween := sessionsBetween
  nextOpen := nextOpen
  prevClose := prevClose

end Midas.Calendar.CryptoSpot
