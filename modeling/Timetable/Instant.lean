/-!
Dates and instants of the proleptic Gregorian calendar, without a time zone.

A date is a year, a month and a day; years may be zero or negative. The days are
numbered so that day 1 is the first of January of year 1, which is a Monday.
An instant is a date and a time of day down to the nanosecond.

The definitions follow the date-times without a zone that `next` and `matches`
work on: the range of their years, their weekdays, and their order.
-/

set_option autoImplicit false

namespace Timetable

/-- Whether a year has a 29th of February. -/
def isLeapYear (y : Int) : Bool :=
  (y % 4 == 0 && y % 100 != 0) || y % 400 == 0

/-- The number of days of a month. -/
def daysInMonth (y : Int) : Nat → Nat
  | 1 | 3 | 5 | 7 | 8 | 10 | 12 => 31
  | 4 | 6 | 9 | 11 => 30
  | 2 => if isLeapYear y then 29 else 28
  | _ => 0

/-- No month has more than 31 days. -/
theorem daysInMonth_le (y : Int) (m : Nat) : daysInMonth y m ≤ 31 := by
  unfold daysInMonth
  split
  -- February
  case h_12 => split <;> decide
  all_goals decide

/-- The number of days of a year before a month. -/
def daysBeforeMonth (y : Int) : Nat → Nat
  | 0 => 0
  | m + 1 => daysBeforeMonth y m + daysInMonth y m

/-- The number of days from the first of January of year 1 to that of year `y`, negative for the
years before. -/
def daysBeforeYear (y : Int) : Int :=
  let p := y - 1
  365 * p + p / 4 - p / 100 + p / 400

/-- A day of the calendar. -/
structure Date where
  year : Int
  month : Nat
  day : Nat
  deriving DecidableEq, Repr

namespace Date

/-- Whether a date is one of the calendar. -/
def isValid (d : Date) : Bool :=
  1 ≤ d.month && d.month ≤ 12 && 1 ≤ d.day && d.day ≤ daysInMonth d.year d.month

/-- The next day. -/
def next (d : Date) : Date :=
  if d.day < daysInMonth d.year d.month then { d with day := d.day + 1 }
  else if d.month < 12 then ⟨d.year, d.month + 1, 1⟩
  else ⟨d.year + 1, 1, 1⟩

/-- The number of a day. -/
def number (d : Date) : Int :=
  daysBeforeYear d.year + daysBeforeMonth d.year d.month + d.day

/-- The day of the week, from Monday, 1, to Sunday, 7. -/
def weekday (d : Date) : Nat :=
  ((d.number - 1) % 7).toNat + 1

/-- The year as an unsigned number of 32 bits. The years before 0 come out beyond every year
that an event can name. -/
def yearNumber (d : Date) : Nat :=
  (d.year % 0x100000000).toNat

end Date

/-- A moment of time. -/
structure Instant where
  date : Date
  hour : Nat
  minute : Nat
  second : Nat := 0
  nanosecond : Nat := 0
  deriving DecidableEq, Repr

namespace Instant

/-- The number of minutes since midnight. -/
def minuteOfDay (t : Instant) : Nat :=
  t.hour * 60 + t.minute

/-- The number of seconds since the start of day 0. -/
def seconds (t : Instant) : Int :=
  t.date.number * 86400 + (t.minuteOfDay * 60 + t.second : Nat)

/-- Whether one instant is earlier than another. -/
def isBefore (t u : Instant) : Bool :=
  t.seconds < u.seconds || (t.seconds == u.seconds && t.nanosecond < u.nanosecond)

/-! ## The start of a unit of time

Each unit goes on to the next greater one where it is full. -/

/-- The start of the minute of an instant. -/
def startOfMinute (t : Instant) : Instant :=
  ⟨t.date, t.hour, t.minute, 0, 0⟩

/-- The start of a day. -/
def midnight (d : Date) : Instant :=
  ⟨d, 0, 0, 0, 0⟩

/-- The start of the next year. -/
def nextYear (t : Instant) : Instant :=
  midnight ⟨t.date.year + 1, 1, 1⟩

/-- The start of the next month. -/
def nextMonth (t : Instant) : Instant :=
  if t.date.month < 12 then midnight ⟨t.date.year, t.date.month + 1, 1⟩ else t.nextYear

/-- The start of the next day. -/
def nextDay (t : Instant) : Instant :=
  midnight t.date.next

/-- The day after the last one of a month is the first one of the next month. -/
theorem nextDay_eq_nextMonth {t : Instant}
    (h : ¬ t.date.day < daysInMonth t.date.year t.date.month) : t.nextDay = t.nextMonth := by
  rw [nextDay, nextMonth, Date.next, if_neg h]
  split <;> rfl

/-- The start of the next hour. -/
def nextHour (t : Instant) : Instant :=
  if t.hour < 23 then ⟨t.date, t.hour + 1, 0, 0, 0⟩ else t.nextDay

/-- The start of the next minute. -/
def nextMinute (t : Instant) : Instant :=
  if t.minute < 59 then ⟨t.date, t.hour, t.minute + 1, 0, 0⟩ else t.nextHour

end Instant

end Timetable
