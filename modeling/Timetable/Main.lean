import Std.Time
import Timetable.CommandLine

/-!
The program on a real machine.

What the command line does is a function of a host, so the program looks at the
machine first: at the variables that are read, and for a command that works on
jobs at the file of the settings and the crontab file. Then it writes the files
that the function changed. A host seen in this way has files but no programs, so
a crontab that only a program can reach is not found.

The time is that of UTC.
-/

set_option autoImplicit false

namespace Timetable

namespace Machine

/-- The variables that are read. -/
def variableNames : List String :=
  ["HOME", "USER", "LOGNAME", "CALSCHED_CONFIG", "CALSCHED_SCHEDULER", "CALSCHED_CRONTAB",
    "CALSCHED_CRONTAB_BINARY", "CALSCHED_CRONTAB_USER", "CALSCHED_JOBS"]

/-- The variables that are read and their values, as far as they are set. -/
def environment : IO (List (String × String)) :=
  variableNames.filterMapM fun name => do return (← IO.getEnv name).map (name, ·)

/-- The directory in which a path leaves its last step. -/
def directoryOf (path : String) : String :=
  match (path.toList.splitOn '/').dropLast with
  | [] => "."
  | [[]] => "/"
  | front => String.ofList (['/'].intercalate front)

/-- The host with a directory, if it is one of the machine. -/
def withDirectory (h : Host) (path : String) : IO Host := do
  match ← (IO.FS.realPath path).toBaseIO with
  | .ok place =>
    if ← place.isDir then return { h with directories := path :: h.directories } else return h
  | .error _ => return h

/-- The host with what a path leads to on the machine. -/
def look (h : Host) (path : String) : IO Host := do
  match ← (IO.FS.realPath path).toBaseIO with
  | .ok place =>
    if ← place.isDir then withDirectory h path
    else return h.withFile path (← IO.FS.readBinFile place)
  | .error _ => withDirectory h (directoryOf path)

/-- The host as far as a command depends on it. -/
def hostFor (asked : Option String) (command : Command) : IO Host := do
  let h : Host := { environment := ← environment }
  match command with
  | .preview _ | .cron _ | .launchd _ => return h
  | .install | .remove | .list =>
    let h ← look h (Settings.path h asked)
    -- the settings are read on the host as it is so far, and then they tell the other file
    match Scheduler.parse (Command.settings h asked).scheduler with
    | .ok (.crontab file _) => look h file
    | _ => return h

/-- Writes the files of `h'` that are not those of `h`. -/
def writeChanges (h h' : Host) : IO Unit :=
  for (path, bytes) in h'.files do
    if h.files.lookup path != some bytes then IO.FS.writeBinFile path bytes

/-- The time of the clock. -/
def now : IO Instant := do
  let t := Std.Time.PlainDateTime.ofWallTime
    ((← Std.Time.Timestamp.now).toWallTime Std.Time.TimeZone.Offset.zero)
  return {
    date := ⟨t.date.year.toInt, t.date.month.toNat, t.date.day.toNat⟩
    hour := t.time.hour.toNat
    minute := t.time.minute.toNat
    second := t.time.second.toNat
    nanosecond := t.time.nanosecond.toNat }

/-- What the program is told that does not understand its arguments. -/
def usage : String :=
  "Usage: calsched [OPTIONS] <COMMAND>\n\nFor more information, try '--help'.\n"

/-- Runs the program with its arguments. -/
def run (args : List String) : IO UInt32 := do
  let request := Request.ofArgs none args
  -- what is printed without a command depends on no host
  let h ← match request with
    | .run asked command => hostFor asked command
    | _ => pure {}
  let (h', response) := request.perform h (← now)
  writeChanges h h'
  IO.print response.output
  IO.eprint (if request = .misuse then usage else response.report)
  return response.exitCode.toUInt32

end Machine

end Timetable

def main (args : List String) : IO UInt32 :=
  Timetable.Machine.run args
