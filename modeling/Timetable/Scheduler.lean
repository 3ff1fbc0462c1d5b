import Timetable.Text.Blank
import Timetable.Text.Cut

/-!
Schedulers.

A setting names the scheduler that runs the jobs and, after a colon, what it
works on: a program for `crond`, a file for `crontab`. The file may be preceded
by a user and another colon, which tells that the crontab has a user column. A
single letter before a colon is a drive and belongs to the file.

The definitions follow `SchedulerKind`, with its `parse` and the text that shows
it.
-/

set_option autoImplicit false

namespace Timetable

open Text

/-- The schedulers. -/
inductive Scheduler where
  /-- The scheduler of the operating system. -/
  | systemDefault
  /-- A cron daemon, talked to through a program. -/
  | crond (program : Option String)
  /-- A crontab file, with a user column if a user is given. -/
  | crontab (file : String) (user : Option String)
  | launchd
  | systemd
  | windows
  deriving DecidableEq, Repr

/-- Why a setting names no scheduler. -/
inductive SchedulerError where
  | noFile
  deriving DecidableEq, Repr

/-- The wording of a refused setting. -/
def SchedulerError.message : SchedulerError → String
  | .noFile =>
    "Invalid scheduler: no crontab file was specified, expecting \"crontab: filename\""

namespace Scheduler

/-- The user that stands for no name in particular. -/
def anonymousUser : String := "-"

/-- Whether a text is a drive: a single letter. -/
def isDrive : List Char → Bool
  | [c] => c.isAlpha
  | _ => false

/-- Reads what a crontab scheduler works on. -/
def ofResource (resource : List Char) : Scheduler :=
  match cutAt? [':'] resource with
  | some (user, file) =>
    let user := trim user
    -- a drive belongs to the file, and so does the colon behind it
    if isDrive user then crontab (String.ofList resource) none
    else
      crontab (String.ofList (trim file))
        (some (if user.isEmpty then anonymousUser else String.ofList user))
  | none => crontab (String.ofList resource) none

/-- Reads a setting. An unknown name stands for the scheduler of the system. -/
def parse (setting : String) : Except SchedulerError Scheduler :=
  -- without a colon there is nothing to work on
  let (name, resource) := (cutAt? [':'] setting.toList).getD (setting.toList, [])
  let resource := trim resource
  match String.ofList (trim name) with
  | "crond" => .ok (crond (if resource.isEmpty then none else some (String.ofList resource)))
  -- a user alone is something to work on, so it passes here and leaves an empty file
  | "crontab" => if resource.isEmpty then .error .noFile else .ok (ofResource resource)
  | "launchd" => .ok launchd
  | "systemd" => .ok systemd
  | "windows" => .ok windows
  | _ => .ok systemDefault

/-- The setting of a scheduler. -/
def text : Scheduler → String
  | systemDefault => "default"
  | crond none => "crond"
  | crond (some program) => "crond:" ++ program
  | crontab file none => "crontab:" ++ file
  | crontab file (some user) => "crontab:" ++ user ++ ":" ++ file
  | launchd => "launchd"
  | systemd => "systemd"
  | windows => "windows"

/-- Whether a scheduler runs the jobs of a crontab. -/
def isCron : Scheduler → Bool
  | crond _ | crontab _ _ => true
  | _ => false

end Scheduler

end Timetable
