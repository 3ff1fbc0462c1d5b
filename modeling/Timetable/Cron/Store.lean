import Timetable.Cron.Header
import Timetable.Cron.Line
import Timetable.Cron.Update
import Timetable.Cron.UserColumn
import Timetable.Host

/-!
Crontabs in their places.

A store is a set of entries and the place of the crontab they go to: a file that
is read and written directly, or a program that lists its table and takes a new
one. The file wins when both are given.

A missing file is an empty crontab, and so is a table that the program says is
not there. A generated header is dropped from what a program lists, and refused in
a file, because the file will be generated again.

The definitions follow `Crontab` and its `Source`, with `load_file`,
`load_from_binary`, `username` and `current_username`.
-/

set_option autoImplicit false

namespace Timetable

open Text

/-- Why an operation on a store fails. One cause has no case here: the patterns that find the lines
of an entry are compiled from its strings, and a compiled pattern has a limit of its size. That
limit is not modelled, see `Cron.update`. -/
inductive StoreError where
  /-- Neither a file nor a program is given. -/
  | noTarget
  /-- The file has a generated header. -/
  | generated (file : String)
  /-- The file is, or would become, too large. -/
  | tooLarge (file : String)
  /-- The program reports a failure. -/
  | command (program : String) (output : String)
  /-- The host does not do what it is asked. -/
  | host (fault : HostFault)
  deriving DecidableEq, Repr

/-- The size in bytes from which on a file is refused. -/
def StoreError.sizeLimit : Nat := 16 * 1024 * 1024

/-- The wording of a failed operation. -/
def StoreError.message : StoreError → String
  | .noTarget => "no crontab file was specified"
  | .generated file => "refusing to change crontab with \"DO NOT EDIT\": " ++ quoted file
  | .tooLarge file =>
    "max file size of " ++ toString sizeLimit ++ " bytes exceeded in " ++ quoted file
  | .command program output => program ++ " failed: " ++ output
  | .host fault => "I/O error: " ++ fault.message

/-- A set of entries and the crontab they go to. -/
structure Store where
  file : Option String := none
  program : Option String := none
  /-- The name for the user column, when one is added. -/
  user : Option String := none
  entries : List Entry := []
  deriving DecidableEq, Repr

namespace Store

/-! ## Users -/

/-- The name of the one who runs the scheduler: the variable `USER`, or `LOGNAME` where there is
no such variable. A name that cannot stand in a column is replaced by `root`. -/
def currentUser (h : Host) : String :=
  let name := ((h.valueOf? "USER").or (h.valueOf? "LOGNAME")).getD ""
  if name.isEmpty || name.toList.any isBlank then "root" else name

/-- A store of entries without a place. Entries of the current user get the name of the user. -/
def ofEntries (h : Host) (es : List Entry) : Store :=
  let user := currentUser h
  { entries := es.map fun e => if e.needsUser then { e with user } else e }

/-- The name that an entry without a user gets. -/
def userName (s : Store) (h : Host) : String :=
  s.user.getD (currentUser h)

/-- The store with a user for every entry that has none. -/
def fillUsers (s : Store) (h : Host) : Store :=
  let user := s.userName h
  { s with entries := s.entries.map fun e => if e.hasUser then e else { e with user } }

/-! ## Places -/

/-- Where a crontab is. -/
inductive Target where
  | file (path : String)
  | program (name : String)
  deriving DecidableEq, Repr

/-- The place of a store's crontab. An empty program name names none. -/
def target (s : Store) : Except StoreError Target :=
  match s.file, s.program with
  -- the file wins
  | some path, _ => .ok (.file path)
  | none, some name => if name.isEmpty then .error .noTarget else .ok (.program name)
  | none, none => .error .noTarget

namespace Target

/-- Reads a crontab from a file. -/
def readFile (h : Host) (path : String) : Except StoreError String :=
  match h.read path with
  -- a file that is not there yet is an empty crontab
  | .error .notFound => .ok ""
  | .error fault => .error (.host fault)
  | .ok bytes =>
    -- the size is looked at before the text
    if StoreError.sizeLimit ≤ bytes.size then .error (.tooLarge path)
    else
      match String.fromUTF8? bytes with
      | some text => .ok text
      | none => .error (.host .notText)

/-- A failed outcome of a program as an error. -/
def failure (name : String) (o : Outcome) : StoreError :=
  .command name (String.ofList (trimEnd o.report.toList))

/-- Lists the table of a program. -/
def list (h : Host) (name : String) : Except StoreError String :=
  match h.program name with
  | .error fault => .error (.host fault)
  | .ok p =>
    let o := p.list
    -- what is no text is shown as one, so bytes can be lost here
    if o.succeeded then .ok (lossyText o.stdout)
    -- there is no table yet
    else if o.report.startsWith "no crontab for " then .ok ""
    else .error (failure name o)

/-- Reads what is there, a header included. -/
def read (h : Host) : Target → Except StoreError String
  | file path => readFile h path
  | program name => list h name

/-- Reads the characters of a crontab. -/
def load (h : Host) (t : Target) : Except StoreError (List Char) := do
  let text := (← t.read h).toList
  if Cron.hasHeader text then
    match t with
    -- what generates the file would undo the change
    | file path => .error (.generated path)
    | program _ => .ok (Cron.dropHeader text)
  else .ok text

end Target

/-! ## What is written -/

/-- The lines of all entries. -/
def generate (s : Store) : String :=
  Entry.linesOf s.entries

/-- The store whose entries go into a crontab: with users, if it is a file with a column for
them. -/
def fitted (s : Store) (h : Host) (t : Target) (text : List Char) : Store :=
  match t with
  | .file _ => if Cron.hasUserColumn text then s.fillUsers h else s
  | .program _ => s

end Store

end Timetable
