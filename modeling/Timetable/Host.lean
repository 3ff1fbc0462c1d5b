import Timetable.Text.Utf8

/-!
The machine on which a crontab lives.

A host has files, an environment, and programs that keep a table of scheduled
commands. A file is named by a path from the working directory. A program lists
its table (`crontab -l`) and takes a new one from its input (`crontab -`).

Nothing is known about a program but that what it does depends on its table and on
its input, and that listing leaves the table as it is. It may list its table behind
a header, refuse one content and take another, or change its table and report a
failure. It may also close its input before all of it is written: then the writer
fails, and the program has the table that it made of what it read. What a program
has to do for a property to hold is a hypothesis of that property, never a part of
this definition.

What is asked of a program is what `load_from_binary` and `save_with_binary` ask
of it.
-/

set_option autoImplicit false

namespace Timetable

/-- Why a file cannot be read or written, or a program cannot be started or be given its input. -/
inductive HostFault where
  /-- There is no such file or program, or no directory to put the file in. -/
  | notFound
  /-- The content is no text. -/
  | notText
  /-- The path names something that is no file. -/
  | other
  /-- The program closes its input before all of it is written. -/
  | closedInput
  deriving DecidableEq, Repr

/-- The wording of a fault. -/
def HostFault.message : HostFault → String
  | .notFound => "not found"
  | .notText => "not a text"
  | .other => "not a file"
  | .closedInput => "input closed"

/-- How a program ended and what it wrote. -/
structure Outcome where
  exitCode : Nat := 0
  stdout : ByteArray := .empty
  stderr : ByteArray := .empty

namespace Outcome

/-- Whether a program reports success. -/
def succeeded (o : Outcome) : Bool :=
  o.exitCode == 0

/-- All that a program wrote, as text. -/
def report (o : Outcome) : String :=
  Text.lossyText o.stdout ++ Text.lossyText o.stderr

end Outcome

/-- A program that keeps a table. -/
structure TableProgram where
  /-- The table, if there is one. -/
  table : Option ByteArray := none
  /-- What the program answers when it is asked for its table. -/
  listing : Option ByteArray → Outcome := fun
    | some bytes => { stdout := bytes }
    | none => { exitCode := 1, stderr := "no crontab for user\n".toUTF8 }
  /-- What the program does with a new table: how it ends, or that it closes its input early, and
  the table that it has then. -/
  saving : Option ByteArray → ByteArray → Except HostFault Outcome × Option ByteArray :=
    fun _ bytes => (.ok {}, some bytes)

namespace TableProgram

/-- Asks a program for its table. -/
def list (p : TableProgram) : Outcome :=
  p.listing p.table

/-- Gives a program a new table: its answer, and the program as it is then. -/
def save (p : TableProgram) (bytes : ByteArray) : Except HostFault Outcome × TableProgram :=
  ((p.saving p.table bytes).1, { p with table := (p.saving p.table bytes).2 })

/-- Whether an answer to a new table says that it has been taken: all of it could be written, and
the program reports success. -/
def hasTaken : Except HostFault Outcome → Bool
  | .ok o => o.succeeded
  | .error _ => false

end TableProgram

/-- The state of a machine, as far as a crontab depends on it. -/
structure Host where
  /-- The files by their paths; a directory is there as soon as a file is below it. -/
  files : List (String × ByteArray) := []
  /-- The directories that are there even if no file is below them. -/
  directories : List String := []
  environment : List (String × String) := []
  programs : List (String × TableProgram) := []

namespace Host

/-- The value of an environment variable. -/
def valueOf? (h : Host) (name : String) : Option String :=
  h.environment.lookup name

/-! ## Paths -/

/-- The steps of a path, those that stay where they are left out and a step back taken. -/
def steps (path : String) : List String :=
  ((path.toList.splitOn '/').map String.ofList).foldl
    (fun done step =>
      if step == "" || step == "." then done
      -- a step back from the top stays there
      else if step == ".." then done.dropLast
      else done ++ [step]) []

/-- Whether two paths lead to the same place. -/
def isSamePath (p q : String) : Bool :=
  p.startsWith "/" == q.startsWith "/" && steps p == steps q

/-- Whether `p` leads to a place above that of `q`. -/
def isAbove (p q : String) : Bool :=
  p.startsWith "/" == q.startsWith "/" && (steps p).isPrefixOf (steps q) && steps p != steps q

/-- What a path leads to. -/
inductive Place where
  | file (bytes : ByteArray)
  | directory
  /-- Nothing, in a directory that is there. -/
  | free
  /-- Nothing, in no directory. -/
  | nowhere
  /-- Something below a file, or no path at all. -/
  | impossible

/-- Whether a directory is there. The working directory always is. -/
def hasDirectory (h : Host) (steps' : List String) (absolute : Bool) : Bool :=
  steps'.isEmpty ||
    (h.files.any fun (q, _) =>
      q.startsWith "/" == absolute && steps'.isPrefixOf (steps q) && steps' != steps q) ||
    h.directories.any fun q => q.startsWith "/" == absolute && steps'.isPrefixOf (steps q)

/-- Finds out what a path leads to. -/
def place (h : Host) (path : String) : Place :=
  if path.isEmpty then .nowhere
  -- no path has a null character
  else if path.toList.contains '\x00' then .impossible
  else if h.files.any fun (q, _) => isAbove q path then .impossible
  else
    match h.files.find? fun (q, _) => isSamePath q path with
    -- a file is no directory
    | some (_, bytes) => if path.endsWith "/" then .impossible else .file bytes
    | none =>
      let absolute := path.startsWith "/"
      if h.hasDirectory (steps path) absolute then .directory
      -- nothing is there, but the directory for it is
      else if h.hasDirectory (steps path).dropLast absolute then
        if path.endsWith "/" then .nowhere else .free
      else .nowhere

/-! ## Files -/

/-- Reads a file. -/
def read (h : Host) (path : String) : Except HostFault ByteArray :=
  match h.place path with
  | .file bytes => .ok bytes
  | .free | .nowhere => .error .notFound
  | .directory | .impossible => .error .other

/-- The host with another content for a file, whether or not there is a directory for it. -/
def withFile (h : Host) (path : String) (bytes : ByteArray) : Host :=
  { h with files := (h.files.filter fun (q, _) => !isSamePath q path) ++ [(path, bytes)] }

/-- Writes a file in a directory that is there. -/
def write (h : Host) (path : String) (bytes : ByteArray) : Except HostFault Host :=
  match h.place path with
  | .file _ | .free => .ok (h.withFile path bytes)
  | .nowhere => .error .notFound
  | .directory | .impossible => .error .other

/-! ## Programs -/

/-- Finds a program by its name, or by a path. A file of the host is no program. -/
def program (h : Host) (name : String) : Except HostFault TableProgram :=
  match h.programs.lookup name with
  | some p => .ok p
  | none =>
    if name.toList.contains '/' then
      match h.place name with
      | .free | .nowhere => .error .notFound
      | _ => .error .other
    else .error .notFound

/-- The host with another state of a program. -/
def withProgram (h : Host) (name : String) (p : TableProgram) : Host :=
  { h with programs := h.programs.map fun (n, q) => if n == name then (n, p) else (n, q) }

end Host

end Timetable
