import Timetable.Cron.Operation
import Timetable.Event.Expression
import Timetable.Settings.Basic

/-!
From settings to a crontab.

Every schedule of every job becomes an entry. Who runs an entry is decided in
three steps: the job's own user, then the user of a crontab with a user column,
and at last, for the current user, the name in the settings or the environment.

The definitions follow `entries_from_config` with `entry_for`, and
`crontab_for`.
-/

set_option autoImplicit false

namespace Timetable

/-- Why the jobs of the settings cannot be worked on. -/
inductive JobsError where
  /-- A schedule of a job is refused. -/
  | schedule (profile command : String) (cause : EventError)
  | scheduler (cause : SchedulerError)
  /-- The scheduler has no crontab. -/
  | noCrontab (scheduler : Scheduler)
  | store (cause : StoreError)
  deriving DecidableEq, Repr

/-- The wording of a refused expression, and behind it that of what caused it. -/
def EventError.chain (e : EventError) : List String :=
  match e with
  | .invalid _ cause => [e.message, cause.message]
  | _ => [e.message]

/-- The wording of a failure, and behind it that of what caused it. -/
def JobsError.chain : JobsError → List String
  | .schedule profile command cause =>
    ("job " ++ profile ++ "/" ++ command ++ ": invalid schedule") :: cause.chain
  | .scheduler cause => [cause.message]
  | .noCrontab s => ["scheduler " ++ s.text ++ " does not use a crontab"]
  | .store cause => [cause.message]

/-- The entry of a job at an event. The current user gets a name if one is set. -/
def Job.entry (j : Job) (event : Event) (userName : Option String) : Entry :=
  { configFile := j.configFile
    profile := j.profile
    command := j.command
    event
    commandLine := j.commandLine
    workDir := j.workDir
    user := if j.user == Entry.currentUser then userName.getD j.user else j.user }

/-- The entry of a job at a schedule. -/
def Job.scheduled (j : Job) (userName : Option String) (schedule : String) :
    Except JobsError Entry :=
  match Event.parse schedule with
  | .ok event => .ok (j.entry event userName)
  | .error cause => .error (.schedule j.profile j.command cause)

namespace Settings

/-- The entries of all jobs, one for each schedule. -/
def entries (s : Settings) : Except JobsError (List Entry) := do
  -- the first schedule that is refused fails them all
  let lists ← s.jobs.mapM fun j => j.schedules.mapM (j.scheduled s.crontab.user)
  return lists.flatten

/-- The entries with the user of a crontab's user column where they have none. -/
def withColumnUser (scheduler : Scheduler) (es : List Entry) : List Entry :=
  match scheduler with
  | .crontab _ (some user) =>
    -- the anonymous user stands for the current one in the column
    let user := if user == Scheduler.anonymousUser then Entry.currentUser else user
    es.map fun e => if e.hasUser then e else { e with user }
  | _ => es

/-- The store of some entries with the crontab of the scheduler. -/
def store (s : Settings) (h : Host) (es : List Entry) : Except JobsError Store :=
  match Scheduler.parse s.scheduler with
  | .error cause => .error (.scheduler cause)
  | .ok scheduler =>
    -- the current user gets the name of the environment here, before the name of the settings is
    -- known
    let base := { Store.ofEntries h (withColumnUser scheduler es) with user := s.crontab.user }
    match scheduler with
    | .crond program => .ok { base with program := some (program.getD s.crontab.program) }
    | .crontab file _ => .ok { base with file := some file }
    | other => .error (.noCrontab other)

/-- The store of all jobs. -/
def jobStore (s : Settings) (h : Host) : Except JobsError Store := do
  let es ← s.entries
  s.store h es

/-! ## Operations -/

/-- Writes the jobs into the crontab. The result is the number of entries. -/
def installing (s : Settings) : Action JobsError Nat := do
  let store ← .look s.jobStore
  let store ← store.installing.mapError .store
  return store.entries.length

/-- Takes the jobs out of the crontab. The result is the number of lines that went. -/
def removing (s : Settings) : Action JobsError Nat := do
  let store ← .look s.jobStore
  store.removing.mapError .store

/-- Reads the entries in the own section of the crontab. -/
def listing (s : Settings) : Action JobsError (List Entry) := do
  -- the entries are not needed to read those of the crontab
  let store ← .look fun h => s.store h []
  store.listing.mapError .store

/-- The host after an installation of the jobs, and the number of entries. -/
def install (s : Settings) (h : Host) : Except JobsError (Host × Nat) :=
  s.installing.result h

/-- The host after a removal of the jobs, and the number of lines that went. -/
def uninstall (s : Settings) (h : Host) : Except JobsError (Host × Nat) :=
  s.removing.result h

end Settings

end Timetable
