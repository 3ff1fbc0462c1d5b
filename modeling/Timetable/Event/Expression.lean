import Timetable.Event.Keyword
import Timetable.Selection.Items

/-!
Calendar expressions.

An expression is a keyword, or up to three parts in this order: days of the
week, a date, and a time of day. A date is `[YEAR-]MONTH-DAY`, a time is
`HOUR:MINUTE[:SECOND]`, and each of their units is a list of numbers and ranges.
The parts are separated by blanks. The hyphens make a part a date, the colons
make it a time, and days of the week have neither, so a part cannot be taken for
another kind of part.

What is not written is free, with two exceptions: an event without a time comes
at midnight, and a time without seconds means second 0. Years below 1000 are
counted from 2000. Days of the week are named or numbered, letter case does not
matter, and their ranges may run through the end of the week.

The definitions follow `parse_event` and what its steps do with the parts. Its
table of `RULES`, one for each combination of parts, is compared with them where
it matters in which order the rules are tried.
-/

set_option autoImplicit false

namespace Timetable

open Text

/-- Why a text is no calendar expression. -/
inductive EventError where
  /-- There is nothing but blanks. -/
  | empty
  /-- The text has not the form of an expression. -/
  | unrecognized (text : String)
  /-- The text has the form of an expression, but one of its lists is refused. -/
  | invalid (text : String) (cause : SelectionError)
  deriving DecidableEq, Repr

/-- The wording of a refused expression. -/
def EventError.message : EventError → String
  | .empty => "Empty schedule"
  | .unrecognized text => "Unrecognized calendar expression: " ++ quoted text
  | .invalid text cause => "Invalid calendar expression " ++ quoted text ++ ": " ++ cause.message

/-- The written parts of an expression that is no keyword. -/
structure Expression where
  weekday : Option (List Char) := none
  year : Option (List Char) := none
  monthDay : Option (List Char × List Char) := none
  hourMinute : Option (List Char × List Char) := none
  second : Option (List Char) := none
  deriving DecidableEq, Repr

namespace Expression

/-! ## The form of an expression -/

/-- A character of a unit of a date or time. -/
def isUnitChar (c : Char) : Bool :=
  c.isDigit || c == '*' || c == '.' || c == ','

/-- A character of a list of days of the week. -/
def isWeekdayChar (c : Char) : Bool :=
  c.isAlpha || c.isDigit || c == '.' || c == ','

/-- Whether a text is a unit of a date or time. -/
def isUnit (s : List Char) : Bool :=
  !s.isEmpty && s.all isUnitChar

/-- Whether a text is a list of days of the week. -/
def isWeekdayPart (s : List Char) : Bool :=
  !s.isEmpty && s.all isWeekdayChar

/-- The two or three units of a part, if it has the right number of them. -/
def units? (separator : Char) (s : List Char) : Option (List (List Char)) :=
  -- two units without the optional one, three with it
  let us := s.splitOn separator
  if us.all isUnit && (us.length == 2 || us.length == 3) then some us else none

/-- Takes a word as the days of the week. -/
def addWeekday? (x : Expression) (s : List Char) : Option Expression :=
  if isWeekdayPart s then some { x with weekday := some s } else none

/-- Takes a word as the date. -/
def addDate? (x : Expression) (s : List Char) : Option Expression :=
  match units? '-' s with
  | some [m, d] => some { x with monthDay := some (m, d) }
  | some [y, m, d] => some { x with year := some y, monthDay := some (m, d) }
  | _ => none

/-- Takes a word as the time. -/
def addTime? (x : Expression) (s : List Char) : Option Expression :=
  match units? ':' s with
  | some [h, m] => some { x with hourMinute := some (h, m) }
  | some [h, m, t] => some { x with hourMinute := some (h, m), second := some t }
  | _ => none

/-- The parts that some words are, if they have the form of an expression. -/
def ofWords? : List (List Char) → Option Expression
  | [a] =>
    -- no word is of two kinds, so the order does not matter
    (addWeekday? {} a).or ((addDate? {} a).or (addTime? {} a))
  | [a, b] =>
    match addWeekday? {} a with
    | some x => (addDate? x b).or (addTime? x b)
    | none => (addDate? {} a).bind (addTime? · b)
  | [a, b, c] => ((addWeekday? {} a).bind (addDate? · b)).bind (addTime? · c)
  | _ => none

/-! ## The meaning of an expression -/

/-- The names of the days of the week in the order in which they are looked for: the long ones
first, because each of them starts with a short one. -/
def weekdayWords : List (List Char × Nat) :=
  [("monday", 1), ("tuesday", 2), ("wednesday", 3), ("thursday", 4), ("friday", 5),
    ("saturday", 6), ("sunday", 7), ("mon", 1), ("tue", 2), ("wed", 3), ("thu", 4), ("fri", 5),
    ("sat", 6), ("sun", 7)].map fun (w, n) => (w.toList, n)

/-- A list of days of the week with numbers in place of names. -/
def numberWeekdays (s : List Char) : List Char :=
  weekdayWords.foldl (fun t (w, n) => replace w (twoDigits n) t) (s.map Char.toLower)

/-- A year as written, those below 1000 counted from 2000. -/
def fullYear (y : Nat) : Nat :=
  if y < 1000 then y + 2000 else y

/-- Inserts a list of days of the week. -/
def insertWeekdays (e : Event) (list : List Char) : Except SelectionError Event := do
  let items ← Item.readList (numberWeekdays list)
  -- a week goes round
  let s ← items.foldlM Selection.insertCyclic e.weekday
  return { e with weekday := s }

/-- Inserts a list of years. -/
def insertYears (e : Event) (list : List Char) : Except SelectionError Event := do
  let items ← Item.readList list
  -- both ends of a range are completed before it is inserted
  let s ← (items.map (Item.map fullYear)).foldlM Selection.insertItem e.year
  return { e with year := s }

/-- Inserts a list of numbers into a component that has no reading of its own. -/
def insertUnit (c : Component) (e : Event) (list : List Char) : Except SelectionError Event :=
  match (e.get c).insertText list with
  | (s, .ok ()) => .ok (e.set c s)
  | (_, .error err) => .error err

/-- Applies a step to an optional part. -/
def whenWritten {α : Type} (step : Event → α → Except SelectionError Event) (e : Event) :
    Option α → Except SelectionError Event
  | some a => step e a
  | none => .ok e

/-- The event that an expression describes. Its lists are read and inserted from left to right. -/
def event (x : Expression) : Except SelectionError Event := do
  let e ← whenWritten insertWeekdays .anytime x.weekday
  let e ← whenWritten insertYears e x.year
  let e ← whenWritten (fun e (m, d) => do insertUnit .day (← insertUnit .month e m) d) e x.monthDay
  match x.hourMinute with
  -- an event without a time comes at midnight
  | none => return { e with hour := .ofList [0], minute := .ofList [0], second := .ofList [0] }
  | some (h, m) =>
    let e ← insertUnit .minute (← insertUnit .hour e h) m
    -- and a time without seconds means second 0
    insertUnit .second e (x.second.getD ['0'])

end Expression

/-- A letter in lower case. The Kelvin sign is the one character beyond ASCII whose lower case is
an ASCII letter; every other is left alone, because no keyword contains it. -/
def lowerLetter (c : Char) : Char :=
  if c == '\u212A' then 'k' else c.toLower

/-- Reads a calendar expression. -/
def Event.parse (text : String) : Except EventError Event :=
  match words text.toList with
  | [] => .error .empty
  | ws =>
    match ws with
    | [w] =>
      match Keyword.ofName? (String.ofList (w.map lowerLetter)) with
      | some k => .ok k.event
      | none => read ws
    | _ => read ws
where
  /-- Reads the words of an expression that is no keyword. -/
  read (ws : List (List Char)) : Except EventError Event :=
    match Expression.ofWords? ws with
    | none => .error (.unrecognized text)
    | some x =>
      match x.event with
      | .ok e => .ok e
      | .error cause => .error (.invalid text cause)

end Timetable
