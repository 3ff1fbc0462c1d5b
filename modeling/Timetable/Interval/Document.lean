import Timetable.Interval.Basic
import Timetable.Json.Reader
import Timetable.Text.Numeral

/-!
Calendar intervals as JSON.

A list of intervals is an array of objects. The keys of an object are names of
interval keys, and the values are whole numbers of 32 bits without sign, fraction
or exponent. A key that stands there again has its last value.
-/

set_option autoImplicit false

namespace Timetable.Interval

/-- An interval as a JSON object, its keys in order. -/
def json (i : Interval) : Json :=
  .record (i.toList.map fun (k, n) => (k.name, .nat n))

/-- Some intervals as a JSON array. -/
def jsonOf (is : List Interval) : Json :=
  .array (is.map json)

/-- The number of a value. -/
def number? : Json → Option Nat
  | .number literal => (Text.readNumeral literal.toList).toOption
  | _ => none

/-- Takes a member of an object into an interval. -/
def addMember? (i : Interval) : Option String × Json → Option Interval
  | (name, v) => do
    let key ← IntervalKey.ofName? (← name)
    let n ← number? v
    return i.set n key

/-- The interval of a JSON object. -/
def ofJson? : Json → Option Interval
  | .object members => members.foldlM addMember? {}
  | _ => none

/-- The intervals of a JSON array. -/
def listOfJson? : Json → Option (List Interval)
  | .array items => items.mapM ofJson?
  | _ => none

/-- Reads intervals from the text of a JSON array. -/
def readAll? (text : String) : Option (List Interval) :=
  (Json.read? text).bind listOfJson?

end Timetable.Interval
