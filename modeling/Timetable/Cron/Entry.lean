import Timetable.Cron.Fields

/-!
Entries of a crontab.

An entry runs a command of a profile when an event comes. Which configuration
file, profile and command it belongs to is its identity; two entries are the same
when they agree on it, whatever their times and their command lines are.

The line of an entry holds the five time fields, a tab, and the command column:
the user, if the crontab has such a column, a change into the working directory,
if there is one, and the command line.

The definitions follow `Entry`, whose equality looks at the identity alone, and
its `command_column`.
-/

set_option autoImplicit false

namespace Timetable

/-- What tells entries apart. -/
structure Identity where
  configFile : String := ""
  profile : String := ""
  command : String := ""
  deriving DecidableEq, Repr

/-- An entry of a crontab. -/
structure Entry extends Identity where
  event : Event
  commandLine : String := ""
  workDir : String := ""
  user : String := ""
  deriving DecidableEq, Repr

namespace Entry

/-- The user that stands for the one who runs the scheduler. -/
def currentUser : String := "*"

/-- Whether an entry names a user, be it the current one. -/
def hasUser (e : Entry) : Bool :=
  !e.user.isEmpty

/-- Whether the user of an entry has still to be replaced by a name. -/
def needsUser (e : Entry) : Bool :=
  e.user == currentUser

/-- Whether two entries have the same identity. -/
def isSame (e e' : Entry) : Bool :=
  e.toIdentity == e'.toIdentity

/-- What stands on the line of an entry after the time fields and the tab. -/
def column (e : Entry) : String :=
  let user := if e.hasUser && !e.needsUser then e.user ++ "\t" else ""
  let workDir := if e.workDir.isEmpty then "" else "cd " ++ e.workDir ++ " && "
  user ++ workDir ++ e.commandLine

/-- The line of an entry, with its line end. -/
def line (e : Entry) : String :=
  Cron.timeFields e.event ++ "\t" ++ e.column ++ "\n"

/-- The lines of some entries. -/
def linesOf (es : List Entry) : String :=
  String.join (es.map line)

end Entry

end Timetable
