import Timetable.Event.Basic

/-!
Named events.

A keyword stands for a common event. Each one that is less frequent restricts
what the more frequent one before it does, and something more; all of them run
at second 0.

The definitions follow `KEYWORDS` and `keyword_event`.
-/

set_option autoImplicit false

namespace Timetable

/-- The names for common events; a year has two. -/
inductive Keyword where
  | minutely
  | hourly
  | daily
  | weekly
  | monthly
  | quarterly
  | semiannually
  | yearly
  | annually
  deriving DecidableEq, Repr

namespace Keyword

/-- All keywords. -/
def all : List Keyword :=
  [minutely, hourly, daily, weekly, monthly, quarterly, semiannually, yearly, annually]

/-- The word of a keyword. -/
def name : Keyword → String
  | minutely => "minutely"
  | hourly => "hourly"
  | daily => "daily"
  | weekly => "weekly"
  | monthly => "monthly"
  | quarterly => "quarterly"
  | semiannually => "semiannually"
  | yearly => "yearly"
  | annually => "annually"

/-- The keyword of a word. -/
def ofName? (s : String) : Option Keyword :=
  all.find? (·.name == s)

/-- The event at second 0 of every minute. -/
def everyMinute : Event := { second := .ofList [0] }

/-- The event at the start of every hour. -/
def everyHour : Event := { everyMinute with minute := .ofList [0] }

/-- The event at the start of every day. -/
def everyDay : Event := { everyHour with hour := .ofList [0] }

/-- The event at the start of the first day of some months. -/
def firstOf (months : List Nat) : Event :=
  { everyDay with day := .ofList [1], month := .ofList months }

/-- The event of a keyword. -/
def event : Keyword → Event
  | minutely => everyMinute
  | hourly => everyHour
  | daily => everyDay
  | weekly => { everyDay with weekday := .ofList [1] }
  | monthly => firstOf []
  | quarterly => firstOf [1, 4, 7, 10]
  | semiannually => firstOf [1, 7]
  | yearly | annually => firstOf [1]

end Keyword

end Timetable
