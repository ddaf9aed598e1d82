import HandOfMidas.Core.Date

/-! The types of the calendar (crate `midas-calendar`): `types.rs`, `period.rs` and the trait of
    `exchange.rs`. Dates are numbers of days. -/

namespace Midas.Calendar

/-- `CalendarId`. -/
structure CalendarId where
  name : String
  deriving DecidableEq, Repr

inductive SessionKind where
  | regular | preMarket | postMarket | breakTime | overnight | closed
  deriving DecidableEq, Repr

/-- `Session`: from `opens` to `closes`. -/
structure Session where
  calendar : CalendarId
  kind : SessionKind
  label : Option String
  opens : Instant
  closes : Instant
  deriving DecidableEq

namespace Session

/-- `Session::new`. -/
def new (calendar : CalendarId) (kind : SessionKind) (opens closes : Instant) : Session :=
  ⟨calendar, kind, none, opens, closes⟩

/-- Half-open containment. -/
def contains (s : Session) (ts : Instant) : Bool := s.opens ≤ ts && ts < s.closes

theorem contains_iff {s : Session} {ts : Instant} :
    s.contains ts = true ↔ s.opens ≤ ts ∧ ts < s.closes := by
  simp [contains]

end Session

structure TradingDay where
  date : ℤ
  sessions : List Session
  isEarlyClose : Bool
  isHoliday : Bool
  holidayName : Option String
  deriving DecidableEq

/-- `BarWindow`: from `opens` to `closes`, with the session it belongs to. -/
structure BarWindow where
  opens : Instant
  closes : Instant
  session : Session
  deriving DecidableEq

inductive ClockInterval where
  | seconds (s : ℕ)
  | minutes (m : ℕ)
  | hours (h : ℕ)
  deriving DecidableEq, Repr

inductive SessionSpan where | regular | extended | eth
  deriving DecidableEq, Repr

inductive CalendarSpan where | week | month | quarter | year
  deriving DecidableEq, Repr

inductive BarPeriod where
  | clock (ci : ClockInterval)
  | session (span : SessionSpan)
  | calendar (span : CalendarSpan)
  deriving DecidableEq, Repr

def BarPeriod.isClock : BarPeriod → Bool
  | .clock _ => true
  | _ => false

inductive CalendarError where
  | outOfRange (date : ℤ)
  | unsupportedPeriod (calendar : CalendarId) (period : BarPeriod)
  deriving DecidableEq, Repr

/-- The trait `ExchangeCalendar`. -/
structure ExchangeCalendar where
  id : CalendarId
  /-- `covers()`, the end being out. -/
  covers : ℤ × ℤ
  tradingDay : ℤ → Except CalendarError TradingDay
  isTradingDay : ℤ → Bool
  classify : Instant → Session
  barWindow : Instant → BarPeriod → Except CalendarError BarWindow
  validatePeriod : BarPeriod → Except CalendarError Unit
  sessionsBetween : Instant → Instant → List Session
  nextOpen : Instant → SessionKind → Option Instant
  prevClose : Instant → SessionKind → Option Instant

/-- `secs_per_bar`. -/
def ClockInterval.secsPerBar : ClockInterval → ℤ
  | .seconds s => s
  | .minutes m => m * 60
  | .hours h => h * 3600

/-- `clock_bar_window` of both calendars: seconds are counted from the epoch, and the session is the
    one `ts` falls inside. `dateOf` is the date an error names. -/
def clockBarWindow (id : CalendarId) (dateOf : Instant → ℤ) (classify : Instant → Session)
    (ts : Instant) (ci : ClockInterval) : Except CalendarError BarWindow :=
  let secsPerBar := ci.secsPerBar
  if secsPerBar ≤ 0 then .error (.unsupportedPeriod id (.clock ci))
  else
    let tsSecs := ts.timestamp
    let barStartSecs := tsSecs - tsSecs % secsPerBar
    match Instant.fromTimestamp barStartSecs with
    | none => .error (.outOfRange (dateOf ts))
    | some opens =>
      match Instant.fromTimestamp (barStartSecs + secsPerBar) with
      | none => .error (.outOfRange (dateOf ts))
      | some closes => .ok ⟨opens, closes, classify ts⟩

open Civil in
/-- The first date of a span and the one after its last, as `calendar_bar_window` of both calendars
    finds them. -/
def spanOf (span : CalendarSpan) (date : ℤ) : Option (ℤ × ℤ) :=
  match span with
  | .week => do
    let monday ← fromIsoywdMonday (isoYear date) (isoWeek date)
    some (monday, monday + 7)
  | .month => do
    let first ← fromYmdOpt (year date) (month date) 1
    let (ny, nm) := if month first = 12 then (year first + 1, 1) else (year first, month first + 1)
    let next ← fromYmdOpt ny nm 1
    some (first, next)
  | .quarter => do
    let q := (month date - 1) / 3
    let qstartMonth := q * 3 + 1
    let first ← fromYmdOpt (year date) qstartMonth 1
    let (ny, nm) :=
      if qstartMonth + 3 > 12 then (year first + 1, qstartMonth + 3 - 12)
      else (year first, qstartMonth + 3)
    let next ← fromYmdOpt ny nm 1
    some (first, next)
  | .year => do
    let first ← fromYmdOpt (year date) 1 1
    let next ← fromYmdOpt (year date + 1) 1 1
    some (first, next)

/-- `validate_period` of both calendars: there is no electronic session. -/
def rejectEth (id : CalendarId) (period : BarPeriod) : Except CalendarError Unit :=
  match period with
  | .session .eth => .error (.unsupportedPeriod id period)
  | _ => .ok ()

/-- What succeeds in two steps succeeds in both. -/
theorem bind_ok {ε α β : Type} {x : Except ε α} {f : α → Except ε β} {b : β} (h : x >>= f = .ok b) :
    ∃ a, x = .ok a ∧ f a = .ok b := by
  cases x with
  | error e => cases h
  | ok a => exact ⟨a, rfl, h⟩

end Midas.Calendar
