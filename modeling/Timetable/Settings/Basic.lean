import Timetable.Scheduler

/-!
Settings: which jobs there are, and which scheduler runs them.

A job runs a command of a profile with a configuration file, and these three tell
it apart from other jobs. Its command line ends with them, whatever program runs
the job and whatever flags it has, and by them an installed job is looked for.

The definitions follow `CalschedConfig`, `CrontabConfig` and `JobConfig`, with
its `command_line`.
-/

set_option autoImplicit false

namespace Timetable

/-- How the crontab of a cron daemon is reached. -/
structure CrontabSettings where
  /-- The program that lists and takes the table. -/
  program : String := "crontab"
  /-- The name for the user column; the current user where there is none. -/
  user : Option String := none
  deriving DecidableEq, Repr

/-- A job. -/
structure Job where
  configFile : String
  profile : String
  command : String
  program : String := "resticprofile"
  /-- The flags in front of the configuration file. -/
  args : List String := []
  workDir : String := ""
  /-- The user that runs the job: a star for the current one, and nothing for no user column. -/
  user : String := ""
  schedules : List String := []
  deriving DecidableEq, Repr

/-- All settings. -/
structure Settings where
  scheduler : String := ""
  crontab : CrontabSettings := {}
  jobs : List Job := []
  deriving DecidableEq, Repr

/-- A file name as it stands in a command line: in quotes if it has a blank in it. -/
def Job.fileWord (j : Job) : String :=
  if j.configFile.toList.any Text.isBlank then "\"" ++ j.configFile ++ "\"" else j.configFile

/-- The command line of a job. -/
def Job.commandLine (j : Job) : String :=
  " ".intercalate (j.program :: j.args) ++ " --config " ++ j.fileWord ++ " run-schedule " ++
    j.command ++ "@" ++ j.profile

end Timetable
