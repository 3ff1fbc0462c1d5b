import Timetable.Event.Basic
import Timetable.Selection.Items

/-!
The five time fields of a crontab line.

The fields are minute, hour, day of the month, month and day of the week, in
this order. A free field is a star; others list numbers and ranges. Days of the
week are counted from Sunday, 0, when they are written, and both 0 and 7 are
Sunday when they are read. Seconds and years have no field, so an event that is
read comes at second 0 of every year.

Writing follows `cron_time` and `format_ranges`, reading follows
`parse_cron_event` with its `parse_field`.
-/

set_option autoImplicit false

namespace Timetable

namespace Cron

open Text

/-! ## Writing -/

/-- A run of numbers: alone, as two numbers, or by its ends. -/
def runText (r : Run) : String :=
  let pad (n : Nat) := String.ofList (twoDigits n)
  match r.last - r.first with
  | 0 => pad r.first
  | 1 => pad r.first ++ "," ++ pad r.last
  | _ => pad r.first ++ "-" ++ pad r.last

/-- The field of a component that is not the day of the week. -/
def fieldText {d : Domain} (s : Selection d) : String :=
  if s.isPopulated then ",".intercalate (s.runs.map runText) else "*"

/-- The day of the week counted from Sunday. -/
def daySinceSunday (n : Nat) : Nat :=
  n % 7

/-- The field of the day of the week, one number for each day. -/
def weekdayText {d : Domain} (s : Selection d) : String :=
  if s.isPopulated then ",".intercalate (s.members.map fun n => toString (daySinceSunday n))
  else "*"

/-- The five fields of an event. -/
def timeFields (e : Event) : String :=
  " ".intercalate
    [fieldText e.minute, fieldText e.hour, fieldText e.day, fieldText e.month,
      weekdayText e.weekday]

/-! ## Reading -/

/-- Why a field is refused. -/
inductive FieldFault where
  /-- An item, or an end of a range, is no numeral. -/
  | notANumber (text : String) (cause : NumeralError)
  /-- A number is not taken by the field. -/
  | refused (cause : SelectionError)
  deriving DecidableEq, Repr

/-- Why a text is no list of five time fields. -/
inductive FieldsError where
  /-- There are not five fields. -/
  | count (found : Nat) (text : String)
  /-- A field is refused. -/
  | field (text : String) (fault : FieldFault)
  deriving DecidableEq, Repr

/-- The wording of a refused field. -/
def FieldFault.message : FieldFault → String
  | .notANumber text cause => quoted text ++ " is not a number: " ++ cause.message
  | .refused cause => cause.message

/-- The wording of refused time fields. -/
def FieldsError.message : FieldsError → String
  | .count found text =>
    "expected 5 cron time fields but found " ++ toString found ++ " in " ++ quoted text
  | .field text fault => "invalid cron line " ++ quoted text ++ ": " ++ fault.message

/-- Reads a number of a field. -/
def readNumber (s : List Char) : Except FieldFault Nat :=
  match readNumeral s with
  | .ok n => .ok n
  | .error e => .error (.notANumber (String.ofList s) e)

/-- A refused insertion as a fault of the field. -/
def refusal {α : Type} : Except SelectionError α → Except FieldFault α
  | .ok a => .ok a
  | .error e => .error (.refused e)

/-- Reads an item of a field and inserts what it names. -/
def insertItem {d : Domain} (s : Selection d) (item : List Char) :
    Except FieldFault (Selection d) :=
  match cutAt? ['-'] item with
  | some (first, last) => do
    let a ← readNumber first
    let b ← readNumber last
    refusal (s.insertRange a b)
  | none => do
    let a ← readNumber item
    refusal (s.insert a)

/-- Reads a field over a domain. -/
def readField (d : Domain) (field : List Char) : Except FieldFault (Selection d) :=
  -- a star stands for a field alone, and not for an item of a list
  if field == ['*'] then .ok .any
  else (field.splitOn ',').foldlM insertItem .any

/-- Reads a field, and names it when it is refused. -/
def readNamed (d : Domain) (field : List Char) : Except FieldsError (Selection d) :=
  match readField d field with
  | .ok s => .ok s
  | .error fault => .error (.field (String.ofList field) fault)

/-- The domain of a field for the day of the week, where Sunday has two numbers. -/
def weekDomain : Domain := ⟨0, 7⟩

/-- A selection of days of the week as an event counts them: 0 becomes 7. -/
def eventWeekdays (s : Selection weekDomain) : Selection (Component.domain .weekday) :=
  .ofList (s.members.map fun n => if n = 0 then 7 else n)

/-- Reads the five time fields of a line. -/
def readFields (text : List Char) : Except FieldsError Event :=
  match words text with
  | [minute, hour, day, month, weekday] => do
    let minute ← readNamed _ minute
    let hour ← readNamed _ hour
    let day ← readNamed _ day
    let month ← readNamed _ month
    let days ← readNamed weekDomain weekday
    -- the year stays free
    return { minute, hour, day, month, weekday := eventWeekdays days, second := .ofList [0] }
  | ws => .error (.count ws.length (String.ofList (trim text)))

end Cron

end Timetable
