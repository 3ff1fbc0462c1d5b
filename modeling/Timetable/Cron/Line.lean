import Timetable.Cron.Entry
import Timetable.Cron.Removal

/-!
Reading entries back from the lines of a crontab.

A line is read from the left: time fields, tabs, an optional user before more
tabs, an optional change of the working directory, and a command line that names
the identity of the entry, in the long or in the short form. The parts are not
always set off unambiguously. Where a text allows several readings, the longest
time fields are preferred, then a user over none, a working directory over none
and a longer one over a shorter, a later `--config` over an earlier one, and a
longer file name over a shorter. The long form is looked for first, under all
these choices.

The definitions follow `parse_entry` and `parse_entries`. The preferences are
those of the patterns `LEGACY_LINE` and `RUN_SCHEDULE_LINE`, whose parts are
greedy.
-/

set_option autoImplicit false

namespace Timetable

namespace Cron

open Text

/-! ## The parts before the command line -/

/-- How far the time fields of a line have been read: the fields and their characters counted so
far, and whether the last character was one of a field. -/
structure TimeProgress where
  fields : Nat := 0
  units : Nat := 0
  inField : Bool := false

/-- Adds to `found` every cut of a line behind five time fields and in front of a tab. Fields
are set off by single blanks or tabs, but five characters of one field may also count as five
fields, so there must be at most five stretches of at least five characters. -/
def timeCutsFrom (p : TimeProgress) (passed : List Char)
    (found : List (List Char × List Char)) : List Char → List (List Char × List Char)
  | [] => found
  | c :: t =>
    if isTimeChar c then
      -- the character goes on with a field or begins the next one
      let fields := if p.inField then p.fields else p.fields + 1
      if fields ≤ 5 then timeCutsFrom ⟨fields, p.units + 1, true⟩ (c :: passed) found t
      else found
    else if c == ' ' || c == '\t' then
      -- a tab stands between two fields or behind the last one, so there may be several cuts
      let found' :=
        if c == '\t' && 5 ≤ p.units then (passed.reverse, c :: t) :: found else found
      -- two blanks in a row end the time fields
      if p.inField then timeCutsFrom { p with inField := false } (c :: passed) found' t
      else found'
    else found

/-- Every cut of a line behind five time fields and in front of a tab, the last one first. -/
def timeCuts (line : List Char) : List (List Char × List Char) :=
  timeCutsFrom {} [] [] line

/-- The readings of an optional user before tabs. -/
def userCuts (s : List Char) : List (List Char × List Char) :=
  let user := s.takeWhile (!isBlank ·)
  match user, s.dropWhile (!isBlank ·) with
  | _ :: _, '\t' :: rest => [(user, rest.dropWhile (· == '\t')), ([], s)]
  | _, _ => [([], s)]

/-- The readings of an optional change of the working directory. -/
def workDirCuts (s : List Char) : List (List Char × List Char) :=
  match "cd ".toList.isPrefixOf? s with
  | some t => (cuts " && ".toList t).filter (!·.1.isEmpty) ++ [([], s)]
  | none => [([], s)]

/-! ## The identity in a command line -/

/-- What remains behind a blank or an equals sign. -/
def dropAssign? : List Char → Option (List Char)
  | c :: t => if c == ' ' || c == '=' then some t else none
  | [] => none

/-- What may stand behind `--config` in a command line, the last place first. Two characters at
least stand before it, and the first is no blank. -/
def configPlaces (s : List Char) : List (List Char) :=
  match s with
  | c :: t =>
    if isBlank c then []
    else ((cuts "--config".toList t).filter (!·.1.isEmpty)).filterMap (dropAssign? ·.2)
  | [] => []

/-- The readings of a file name, which may be quoted, and what stands behind the blank after
it. -/
def configCuts (s : List Char) : List (List Char × List Char) :=
  let s := (['"'].isPrefixOf? s).getD s
  let name := s.takeWhile (· != '"')
  let rest := s.dropWhile (· != '"')
  let closed :=
    match ['"', ' '].isPrefixOf? rest with
    | some tail => [(name, tail)]
    | none => []
  -- a file name may have blanks in it, so each of them is a place where it can end
  (closed ++ (cuts [' '] name).map fun (n, tail) => (n, tail ++ rest)).filter (!·.1.isEmpty)

/-- Reads the command of a long form: the last word of the flags and the command behind the
profile. -/
def longCommand? (s : List Char) : Option (List Char) :=
  match (cuts [' '] s).head? with
  | some (flags, command) =>
    if !command.isEmpty && command.all Char.isLower &&
        (flags.isEmpty || (" --".toList.isPrefixOf flags && 4 ≤ flags.length)) then some command
    else none
  | none => none

/-- Reads profile and command behind the flag that names the profile. -/
def namedTail? (s : List Char) : Option (List Char × List Char) := do
  let rest ← dropAssign? s
  let profile := rest.takeWhile (!isBlank ·)
  if profile.isEmpty then none
  else
    let command ← longCommand? (rest.dropWhile (!isBlank ·))
    return (profile, command)

/-- Reads profile and command behind the file name of a long form. -/
def longTail? (s : List Char) : Option (List Char × List Char) :=
  (cuts "--name".toList s).findSome? fun (_, rest) => namedTail? rest

/-- Reads profile and command behind the file name of a short form. -/
def shortTail? (s : List Char) : Option (List Char × List Char) := do
  let rest ← "run-schedule ".toList.isPrefixOf? s
  if rest.any isBlank then none
  else
    -- the last at sign with something on both sides of it separates
    let (command, profile) ← (cuts ['@'] rest).find? fun (c, p) => !c.isEmpty && !p.isEmpty
    return (profile, command)

/-- Reads the identity of a command line whose profile and command are read by `tail?`. -/
def identity? (tail? : List Char → Option (List Char × List Char)) (s : List Char) :
    Option Identity :=
  (configPlaces s).findSome? fun place =>
    (configCuts place).findSome? fun (configFile, rest) =>
      (tail? rest).map fun (profile, command) =>
        ⟨String.ofList configFile, String.ofList profile, String.ofList command⟩

/-! ## Whole lines -/

/-- The parts of a line. -/
structure LineParts where
  time : List Char
  user : List Char
  workDir : List Char
  commandLine : List Char
  identity : Identity
  deriving DecidableEq, Repr

/-- The preferred reading of a line in one of the two forms. -/
def LineParts.read? (tail? : List Char → Option (List Char × List Char)) (line : List Char) :
    Option LineParts :=
  -- a choice for a part is given up only if no choice for the later parts leads to a reading
  (timeCuts line).findSome? fun (time, s) =>
    (userCuts (s.dropWhile (· == '\t'))).findSome? fun (user, s) =>
      (workDirCuts s).findSome? fun (workDir, commandLine) =>
        (identity? tail? commandLine).map fun identity =>
          ⟨time, user, workDir, commandLine, identity⟩

/-- The parts of a line in either form. -/
def LineParts.of? (line : List Char) : Option LineParts :=
  if line.contains '\n' then none
  else (LineParts.read? longTail? line).or (LineParts.read? shortTail? line)

/-- Reads the entry of a line. There is none in a line of another form, and an error in a line
whose time fields are refused. -/
def readLine (line : List Char) : Except FieldsError (Option Entry) :=
  match LineParts.of? line with
  | none => .ok none
  | some p => do
    let event ← readFields p.time
    return some
      { p.identity with
        event
        commandLine := String.ofList p.commandLine
        workDir := String.ofList p.workDir
        user := String.ofList p.user }

/-- The entries of a section. Blank lines, comments and lines that are no entries are passed
over. -/
def readSection (body : List Char) : List Entry :=
  (((body.splitOn '\n').map trim).filter fun l => !l.isEmpty && l.head? != some '#').filterMap
    fun l =>
      match readLine l with
      | .ok e => e
      | .error _ => none

end Cron

end Timetable
