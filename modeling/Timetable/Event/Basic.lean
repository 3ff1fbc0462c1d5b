import Timetable.Selection.Runs

/-!
Calendar events.

An event restricts seven components of a date and a time of day. Each component
has a fixed domain and carries a selection over it; a component with nothing
inserted is free. The text of an event names the weekdays when they are
restricted and then writes year, month, day, hour, minute and second in this
order.

The definitions follow `Field`, with its `bounds`, and `Event`.
-/

set_option autoImplicit false

namespace Timetable

/-- The components of a date and time that an event can restrict. -/
inductive Component where
  | weekday
  | year
  | month
  | day
  | hour
  | minute
  | second
  deriving DecidableEq, Repr

namespace Component

/-- The least year of an event. -/
def firstYear : Nat := 2000

/-- The greatest year of an event, and the last one that a search looks at. -/
def lastYear : Nat := 2200

/-- All components, in the order of an event's text. -/
def all : List Component :=
  [weekday, year, month, day, hour, minute, second]

/-- The domain of a component. The days of the week are numbered from Monday, 1, to Sunday, 7. -/
def domain : Component → Domain
  | weekday => ⟨1, 7⟩
  | year => ⟨firstYear, lastYear⟩
  | month => ⟨1, 12⟩
  | day => ⟨1, 31⟩
  | hour => ⟨0, 23⟩
  | minute => ⟨0, 59⟩
  | second => ⟨0, 59⟩

/-- The name of a component. -/
def name : Component → String
  | weekday => "weekday"
  | year => "year"
  | month => "month"
  | day => "day"
  | hour => "hour"
  | minute => "minute"
  | second => "second"

/-- The component of a name. -/
def ofName? (s : String) : Option Component :=
  all.find? (·.name == s)

end Component

/-- A calendar event: one selection for each component. -/
structure Event where
  weekday : Selection (Component.domain .weekday) := .any
  year : Selection (Component.domain .year) := .any
  month : Selection (Component.domain .month) := .any
  day : Selection (Component.domain .day) := .any
  hour : Selection (Component.domain .hour) := .any
  minute : Selection (Component.domain .minute) := .any
  second : Selection (Component.domain .second) := .any
  deriving DecidableEq, Repr

namespace Event

/-- The event that restricts nothing. -/
def anytime : Event := {}

/-- The selection of a component. -/
def get (e : Event) : (c : Component) → Selection c.domain
  | .weekday => e.weekday
  | .year => e.year
  | .month => e.month
  | .day => e.day
  | .hour => e.hour
  | .minute => e.minute
  | .second => e.second

/-- The event with another selection for one component. -/
def set (e : Event) : (c : Component) → Selection c.domain → Event
  | .weekday, s => { e with weekday := s }
  | .year, s => { e with year := s }
  | .month, s => { e with month := s }
  | .day, s => { e with day := s }
  | .hour, s => { e with hour := s }
  | .minute, s => { e with minute := s }
  | .second, s => { e with second := s }

@[simp] theorem get_set_self (e : Event) (c : Component) (s : Selection c.domain) :
    (e.set c s).get c = s := by
  cases c <;> rfl

@[simp] theorem get_set_of_ne (e : Event) {c c' : Component} (s : Selection c.domain)
    (h : c ≠ c') : (e.set c s).get c' = e.get c' := by
  cases c <;> cases c' <;> first | rfl | exact absurd rfl h

@[simp] theorem set_get (e : Event) (c : Component) : e.set c (e.get c) = e := by
  cases c <;> rfl

/-- An event is known from its selections. -/
theorem ext_get {e e' : Event} (h : ∀ c, e.get c = e'.get c) : e = e' := by
  cases e
  cases e'
  rw [mk.injEq]
  exact ⟨h .weekday, h .year, h .month, h .day, h .hour, h .minute, h .second⟩

/-- Whether no component is restricted. -/
def isAnytime (e : Event) : Bool :=
  Component.all.all fun c => !(e.get c).isPopulated

/-- Whether year, month and day are free. -/
def isDateFree (e : Event) : Bool :=
  !e.year.isPopulated && !e.month.isPopulated && !e.day.isPopulated

/-- Whether the event comes every day at the same times. -/
def isDaily (e : Event) : Bool :=
  !e.weekday.isPopulated && e.isDateFree

/-- Whether the weekday alone restricts the date. -/
def isWeekly (e : Event) : Bool :=
  e.weekday.isPopulated && e.isDateFree

/-- The short names of the days of the week, as an event's text writes them. -/
def weekdayNames : List String :=
  ["Mon", "Tue", "Wed", "Thu", "Fri", "Sat", "Sun"]

/-- The short name of day `n` of the week; a number that is no day stays a number. -/
def weekdayName (n : Nat) : String :=
  match n with
  | 0 => "0"
  | i + 1 => weekdayNames.getD i (toString n)

/-- The normalized text of an event. -/
def text (e : Event) : String :=
  let date := e.year.text ++ "-" ++ e.month.text ++ "-" ++ e.day.text
  let time := e.hour.text ++ ":" ++ e.minute.text ++ ":" ++ e.second.text
  if e.weekday.isPopulated then e.weekday.textWith weekdayName ++ " " ++ date ++ " " ++ time
  else date ++ " " ++ time

end Event

end Timetable
