import Timetable.Event.Basic
import Timetable.Text.Quoted

/-!
Calendar intervals.

A calendar interval is a record of at most five numbers: month, day, day of the
week, hour and minute. It stands for the minutes at which every number that it
holds is reached. An event becomes one interval for each way to choose a member
of each of its restricted components, in the order of the keys; intervals are
merged into the event that collects their numbers. Days of the week are counted
from Sunday, 0, when they are written, and both 0 and 7 are Sunday when they are
merged.

The definitions follow `CalendarInterval`, `intervals_from_event` and
`parse_calendar_intervals`.
-/

set_option autoImplicit false

namespace Timetable

/-- The keys of an interval, in the order in which they are written and expanded. -/
inductive IntervalKey where
  | month
  | day
  | weekday
  | hour
  | minute
  deriving DecidableEq, Repr

namespace IntervalKey

/-- All keys, in order. -/
def all : List IntervalKey :=
  [month, day, weekday, hour, minute]

/-- The component of an event behind a key. -/
def component : IntervalKey → Component
  | month => .month
  | day => .day
  | weekday => .weekday
  | hour => .hour
  | minute => .minute

/-- The name of a key. -/
def name : IntervalKey → String
  | month => "Month"
  | day => "Day"
  | weekday => "Weekday"
  | hour => "Hour"
  | minute => "Minute"

/-- The key of a name. -/
def ofName? (s : String) : Option IntervalKey :=
  all.find? (·.name == s)

/-- The wording of a refused name. -/
def unknownMessage (s : String) : String :=
  "Unknown calendar interval key: " ++ Text.quoted s

/-- The number that an interval holds for a member of a component. -/
def ofMember : IntervalKey → Nat → Nat
  | weekday, n => n % 7
  | _, n => n

/-- The member of a component for a number that an interval holds. -/
def toMember : IntervalKey → Nat → Nat
  | weekday, 0 => 7
  | _, n => n

end IntervalKey

/-- One trigger: a number, or any, for each key. -/
structure Interval where
  month : Option Nat := none
  day : Option Nat := none
  weekday : Option Nat := none
  hour : Option Nat := none
  minute : Option Nat := none
  deriving DecidableEq, Repr

namespace Interval

/-- The number of a key. -/
def get? (i : Interval) : IntervalKey → Option Nat
  | .month => i.month
  | .day => i.day
  | .weekday => i.weekday
  | .hour => i.hour
  | .minute => i.minute

/-- The interval with a number for a key, in place of one it may have had. -/
def set (i : Interval) (n : Nat) : IntervalKey → Interval
  | .month => { i with month := some n }
  | .day => { i with day := some n }
  | .weekday => { i with weekday := some n }
  | .hour => { i with hour := some n }
  | .minute => { i with minute := some n }

/-- The keys that an interval holds with their numbers, in the order of the keys. -/
def toList (i : Interval) : List (IntervalKey × Nat) :=
  IntervalKey.all.filterMap fun k => (i.get? k).map (k, ·)

/-- Every interval combined with every number for a key. -/
def extendAll (records : List Interval) (k : IntervalKey) (ns : List Nat) : List Interval :=
  records.flatMap fun i => ns.map (i.set · k)

/-- The intervals combined with every member that an event has for a key; a free component is
left out. -/
def extendBy (e : Event) (records : List Interval) (k : IntervalKey) : List Interval :=
  let s := e.get k.component
  -- every record is taken up once for each member
  if s.isPopulated then extendAll records k (s.members.map k.ofMember) else records

/-- The intervals of an event. -/
def expand (e : Event) : List Interval :=
  IntervalKey.all.foldl (extendBy e) [{}]

/-- The intervals of some events, one event after another. -/
def expandAll (es : List Event) : List Interval :=
  es.flatMap expand

/-- Inserts a number of an interval into an event. -/
def insertInto (e : Event) : IntervalKey × Nat → Except SelectionError Event
  | (k, n) =>
    -- a number that two records share is inserted twice, and counts as two insertions
    match (e.get k.component).insert (k.toMember n) with
    | .ok s => .ok (e.set k.component s)
    | .error err => .error err

/-- The event that collects the numbers of some intervals and comes at second 0. -/
def merge (is : List Interval) : Except SelectionError Event :=
  (is.flatMap toList).foldlM insertInto { second := .ofList [0] }

end Interval

end Timetable
