import Timetable.Cron.Entry
import Timetable.Text.Cut
import Timetable.Text.DecimalDigit
import Timetable.Text.Pattern

/-!
Which lines of a crontab belong to an entry.

A line belongs to an entry in one of two ways. It runs a `resticprofile` command
that carries the identity of the entry, in the long form
`--config FILE --name PROFILE [flags] COMMAND` or in the short form
`--config FILE run-schedule COMMAND@PROFILE`; or it has five time fields, a tab,
and exactly the command column of the entry. A line that starts with a number
sign belongs to no entry in the first way, and it has no time fields either.

The strings of an entry may themselves contain line ends. A match then spans
several lines, and it goes as a whole.

The definitions follow `delete_line`, with the two patterns that it builds from
the strings of an entry.
-/

set_option autoImplicit false

namespace Timetable

namespace Cron

open Text

/-- A character of a time field. -/
def isTimeChar (c : Char) : Bool :=
  isDecimalDigit c || c == ',' || c == '/' || c == '-' || c == '*'

/-- A character within a line. -/
def isInLine (c : Char) : Bool :=
  c != '\n'

end Cron

namespace Entry

open Text Cron Pattern

/-- Fits the word of a string. -/
def literal (s : String) : Pattern := word s.toList

/-- Fits a double quote, or nothing. -/
def optionalQuote : Pattern := optional (word ['"'])

/-- Fits the rest of a long form behind the configuration file. -/
def longForm (i : Identity) : Pattern :=
  literal "--name " >> literal i.profile >> optional (many isInLine) >> literal " " >>
    literal i.command

/-- Fits the rest of a short form behind the configuration file. -/
def shortForm (i : Identity) : Pattern :=
  literal "run-schedule " >> literal i.command >> literal "@" >> literal i.profile

/-- Fits an uncommented command that carries an identity. -/
def commandPattern (i : Identity) : Pattern :=
  one (fun c => isInLine c && c != '#') >> many isInLine >> literal "resticprofile" >>
    many isInLine >> literal "--config " >> optionalQuote >> literal i.configFile >>
    optionalQuote >> literal " " >> (longForm i <|> shortForm i)

/-- Fits five time fields, a tab and the command column of an entry. An entry without a command
line has no such line. -/
def columnPattern (e : Entry) : Pattern :=
  if e.commandLine.isEmpty then fail
  else
    let field := many isTimeChar
    let next := literal " " >> field
    field >> next >> next >> next >> next >> literal "\t" >> literal e.column

/-- Fits the lines of an entry, up to and with a line end. -/
def linePattern (e : Entry) : Pattern :=
  (commandPattern e.toIdentity <|> columnPattern e) >> literal "\n"

/-- The number of lines that a match can span: one, and one more for each line end in the
strings of the entry. -/
def reach (e : Entry) : Nat :=
  1 + (e.configFile ++ e.profile ++ e.command ++ e.column).toList.count '\n'

/-- The number of lines that belong to an entry at the head of some lines, if the first one
begins a match. -/
def span? (e : Entry) (ls : List (List Char)) : Option Nat :=
  -- no match reaches beyond these lines, and every match ends with one of them
  let window := (ls.take e.reach).flatten
  match e.linePattern window with
  | [] => none
  | rest :: _ => some (window.count '\n' - rest.count '\n')

/-- Leaves out the lines of an entry. `kept` holds the lines kept so far, the last in front,
`count` the matches so far, and `skip` the lines still to be left out of the last match. -/
def removeFrom (e : Entry) (kept : List (List Char)) (count : Nat) (skip : Nat) :
    List (List Char) → List (List Char) × Nat
  | [] => (kept.reverse, count)
  | l :: ls =>
    match skip with
    -- a line inside of the last match
    | n + 1 => removeFrom e kept count n ls
    | 0 =>
      match e.span? (l :: ls) with
      -- the first line of a match goes here, and the others are skipped
      | some n => removeFrom e kept (count + 1) (n - 1) ls
      | none => removeFrom e (l :: kept) count 0 ls

/-- A text without the lines of an entry, and how many matches went. -/
def remove (e : Entry) (text : List Char) : List Char × Nat :=
  let (kept, count) := removeFrom e [] 0 0 (lines text)
  (kept.flatten, count)

/-- A text without the lines of some entries, one entry after another, and how many matches
went. -/
def removeAll (es : List Entry) (text : List Char) : List Char × Nat :=
  es.foldl (fun (t, n) e => let (t', k) := e.remove t; (t', n + k)) (text, 0)

end Entry

end Timetable
