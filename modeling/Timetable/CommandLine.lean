import Timetable.Delay
import Timetable.Event.Occurrence
import Timetable.Interval.Document
import Timetable.Jobs
import Timetable.Settings.Source

/-!
The command line.

A command shows, converts or installs; the settings are read only for the
commands that work on jobs. What a command does is a function of the host, the
time and the arguments: it gives the host afterwards and a response. Nothing is
printed before all expressions have been read.

The commands are `show`, `cron`, `launchd`, `install`, `remove` and `list` of
`calsched`. The help texts are those of its usage message.
-/

set_option autoImplicit false

namespace Timetable

/-- What the program is asked to do. -/
inductive Command where
  | preview (expressions : List String)
  | cron (expressions : List String)
  | launchd (expressions : List String)
  | install
  | remove
  | list
  deriving DecidableEq, Repr

/-- What the arguments of the program mean. -/
inductive Request where
  | run (settings : Option String) (command : Command)
  /-- The help text, of the whole program or of a command. -/
  | help (command : Option String)
  | version
  /-- The arguments have no meaning. -/
  | misuse
  deriving DecidableEq, Repr

namespace Request

/-! ## Arguments -/

/-- The commands that take expressions. -/
def expressionCommand? (name : String) : Option (List String → Command) :=
  match name with
  | "show" => some .preview
  | "cron" => some .cron
  | "launchd" => some .launchd
  | _ => none

/-- The commands that take nothing. -/
def plainCommand? (name : String) : Option Command :=
  match name with
  | "install" => some .install
  | "remove" => some .remove
  | "list" => some .list
  | _ => none

/-- Whether an argument is an option and not a value. A lone hyphen is a value. -/
def isOption (arg : String) : Bool :=
  arg.startsWith "-" && arg != "-"

/-- Reads the values behind a command. Two hyphens end the options; no option but the one for
help has a meaning here. -/
def values? (done : List String) : List String → Except Request (List String)
  | [] => .ok done.reverse
  | "--" :: rest => .ok (done.reverse ++ rest)
  | arg :: rest =>
    if isOption arg then
      .error (if arg == "--help" || arg.startsWith "-h" then .help none else .misuse)
    else values? (arg :: done) rest

/-- Reads a command and its values. -/
def ofCommand (settings : Option String) (name : String) (args : List String) : Request :=
  match expressionCommand? name, plainCommand? name with
  | some command, _ =>
    match values? [] args with
    -- at least one expression is needed
    | .ok [] => .misuse
    | .ok xs => .run settings (command xs)
    | .error (.help _) => .help (some name)
    | .error r => r
  | none, some command =>
    match args with
    -- a plain command takes no values, but two hyphens may stand there
    | [] | ["--"] => .run settings command
    | arg :: _ => if arg == "--help" || arg.startsWith "-h" then .help (some name) else .misuse
  | none, none =>
    if name == "help" then
      match args with
      | [] => .help none
      | [c] =>
        if (expressionCommand? c).isSome || (plainCommand? c).isSome then .help (some c)
        else if c == "help" then .help none
        else .misuse
      | _ => .misuse
    else .misuse

/-- The value that stands in the same argument as the option, if `arg` starts with it. -/
def attached? (option arg : String) : Option String :=
  (option.toList.isPrefixOf? arg.toList).map String.ofList

/-- Reads the arguments of the program. The file of the settings is named at most once. -/
def ofArgs (settings : Option String) : List String → Request
  | [] => .misuse
  | arg :: rest =>
    if arg == "--version" || arg.startsWith "-V" then .version
    else if arg == "--help" || arg.startsWith "-h" then .help none
    else if arg == "--config" || arg == "-c" then
      match settings, rest with
      | none, file :: rest => if isOption file then .misuse else ofArgs (some file) rest
      | _, _ => .misuse
    else
      match settings, (attached? "--config=" arg).or
          -- the short option may have its value with or without an equals sign
          ((attached? "-c" arg).map fun s => (attached? "=" s).getD s) with
      | none, some file => ofArgs (some file) rest
      | some _, some _ => .misuse
      | _, none => if isOption arg then .misuse else ofCommand settings arg rest

end Request

/-! ## Responses -/

/-- What the program answers: its exit code, what it prints, and for a failure the wordings of
what failed and why. -/
structure Response where
  exitCode : Nat := 0
  output : String := ""
  failure : List String := []
  deriving DecidableEq, Repr

namespace Response

/-- The response of a command that prints. -/
def printed (output : String) : Response := { output }

/-- The response of a command that fails. -/
def failed (chain : List String) : Response := { exitCode := 1, failure := chain }

/-- The causes of a failure, one a line; several are numbered from 0 on. -/
def causeLines : List String → List String
  | [c] => ["    " ++ c ++ "\n"]
  | cs => cs.zipIdx.map fun (c, i) => "    " ++ toString i ++ ": " ++ c ++ "\n"

/-- What a failure is reported as. -/
def report (r : Response) : String :=
  match r.failure with
  | [] => ""
  | [m] => "Error: " ++ m ++ "\n"
  | m :: ms => "Error: " ++ m ++ "\n\nCaused by:\n" ++ String.join (causeLines ms)

end Response

namespace Command

/-! ## Expressions -/

/-- Reads the expressions of a command; the first bad one fails it. -/
def readAll (xs : List String) : Except (List String) (List Event) :=
  xs.mapM fun x =>
    match Event.parse x with
    | .ok e => .ok e
    | .error cause => .error (("cannot parse " ++ Text.quoted x) :: cause.chain)

/-- A number with zeros in front up to a width. -/
def padded (width n : Nat) : String :=
  let ds := Text.decimal n
  String.ofList (List.replicate (width - ds.length) '0' ++ ds)

/-- The text of a date and a time of day. -/
def timeText (t : Instant) : String :=
  Event.weekdayName t.date.weekday ++ " " ++ padded 4 t.date.year.toNat ++ "-" ++
    padded 2 t.date.month ++ "-" ++ padded 2 t.date.day ++ " " ++ padded 2 t.hour ++ ":" ++
    padded 2 t.minute ++ ":" ++ padded 2 t.second

/-- The whole seconds from one instant to a later one. -/
def secondsUntil (t u : Instant) : Int :=
  -- a second that has begun does not count
  u.seconds - t.seconds - if u.nanosecond < t.nanosecond then 1 else 0

/-- What is shown of an expression. -/
def shownText (now : Instant) (x : String) (e : Event) : String :=
  let head := "  Original form: " ++ x ++ "\nNormalized form: " ++ e.text ++ "\n"
  let elapse :=
    match e.next now with
    | some t =>
      "    Next elapse: " ++ timeText t ++ "\n       (in UTC): " ++ timeText t ++
        " UTC\n       From now: " ++ delayText (secondsUntil now t) ++ "\n"
    | none => "    Next elapse: never\n"
  head ++ elapse ++ "\n"

/-! ## Jobs -/

/-- The settings for a command. Settings that cannot be read are replaced by the defaults. -/
def settings (h : Host) (asked : Option String) : Settings :=
  (Settings.load? h asked).getD {}

/-- Does an action on jobs and responds to what came of it. The host is the one that the action
has left, also when it has failed. -/
def respond {α : Type} (m : Action JobsError α) (answer : α → Response) (h : Host) :
    Host × Response :=
  match m.perform h with
  | (.ok a, h') => (h', answer a)
  | (.error e, h') => (h', .failed e.chain)

/-- What is listed of an entry. -/
def listedText (e : Entry) : String :=
  e.profile ++ "/" ++ e.command ++ "\t" ++ e.event.text ++ "\t" ++ e.configFile ++ "\n"

/-! ## All commands -/

/-- Runs a command. -/
def run (h : Host) (now : Instant) (asked : Option String) : Command → Host × Response
  | .preview xs =>
    match readAll xs with
    | .ok es => (h, .printed (String.join ((xs.zip es).map fun (x, e) => shownText now x e)))
    | .error chain => (h, .failed chain)
  | .cron xs =>
    match readAll xs with
    | .ok es => (h, .printed (String.join (es.map fun e => Cron.timeFields e ++ "\n")))
    | .error chain => (h, .failed chain)
  | .launchd xs =>
    match readAll xs with
    | .ok es =>
      let records := Interval.jsonOf (Interval.expandAll es)
      (h, .printed (records.write .indented ++ "\n"))
    | .error chain => (h, .failed chain)
  -- an installation prints nothing
  | .install => respond (settings h asked).installing (fun _ => {}) h
  | .remove => respond (settings h asked).removing (fun _ => {}) h
  | .list =>
    respond (settings h asked).listing (fun es => .printed (String.join (es.map listedText))) h

end Command

namespace Request

/-! ## Help -/

/-- The commands and what they do. -/
def commands : List (String × String) :=
  [("show", "Normalize calendar expressions and show when they run next"),
    ("cron", "Print the cron time fields of calendar expressions"),
    ("launchd", "Print launchd calendar intervals as JSON"),
    ("install", "Write the configured jobs into the crontab"),
    ("remove", "Remove the configured jobs from the crontab"),
    ("list", "List the jobs found in the crontab"),
    ("help", "Print this message or the help of the given subcommand(s)")]

/-- A term and what it means, the terms in a column of a width. -/
def helpRow (width : Nat) (term meaning : String) : String :=
  "  " ++ term ++ String.ofList (List.replicate (width - term.length) ' ') ++ "  " ++ meaning ++
    "\n"

/-- The help text. -/
def helpText : Option String → String
  | none =>
    "calsched: calendar expressions for crond and launchd\n\nUsage: calsched [OPTIONS] <COMMAND>\n\n"
      ++ "Commands:\n" ++ String.join (commands.map fun (c, m) => helpRow 7 c m) ++ "\nOptions:\n"
      ++ helpRow 21 "-c, --config <CONFIG>" "Path to TOML configuration file"
      ++ helpRow 21 "-h, --help" "Print help" ++ helpRow 21 "-V, --version" "Print version"
  | some name =>
    let about := (commands.lookup name).getD "" ++ "\n\nUsage: calsched " ++ name
    let options := "Options:\n" ++ helpRow 10 "-h, --help" "Print help"
    if (expressionCommand? name).isSome then
      about ++ " <EXPRESSIONS>...\n\nArguments:\n  <EXPRESSIONS>...  \n\n" ++ options
    else about ++ "\n\n" ++ options

/-- Does what is asked for. -/
def perform (h : Host) (now : Instant) : Request → Host × Response
  | .run settings command => command.run h now settings
  | .help command => (h, .printed (helpText command))
  | .version => (h, .printed "calsched 0.2.2\n")
  | .misuse => (h, { exitCode := 2 })

end Request

/-- Runs the program with its arguments. -/
def runProgram (h : Host) (now : Instant) (args : List String) : Host × Response :=
  (Request.ofArgs none args).perform h now

end Timetable
