import Timetable.Json.Basic
import Timetable.Settings.Basic

/-!
Settings out of JSON values.

A record is written as an object or as the list of its fields in order. Keys
that are not known are passed over, but a known key stands at most once. A field
with a default may be missing, in a list from the end; every other field must be
there. Null stands for an absent value only where a value may be absent.
-/

set_option autoImplicit false

namespace Timetable

namespace Json

/-- Decodes a text. -/
def text? : Json → Option String
  | string s => s
  | _ => none

/-- Decodes a text that may be absent. -/
def optionalText? : Json → Option (Option String)
  | null => some none
  | v => v.text?.map some

/-- Decodes a list. -/
def listOf? {α : Type} (item? : Json → Option α) : Json → Option (List α)
  | array items => items.mapM item?
  | _ => none

end Json

/-- The values of the fields of a record, as far as they are written. -/
abbrev Fields := List (Option Json)

namespace Fields

/-- The value of a key in an object, or a failure when the key stands there twice. -/
def once? (members : List (Option String × Json)) (key : String) : Option (Option Json) :=
  match members.filter (·.1 == some key) with
  | [] => some none
  | [(_, v)] => some (some v)
  | _ => none

/-- Takes a value apart into the fields of a record. With `exact`, a list has no more items than
there are fields. -/
def of? (exact : Bool) (keys : List String) : Json → Option Fields
  | .object members =>
    -- a key that is no text cannot be known
    if members.any (·.1.isNone) then none else keys.mapM (once? members)
  | .array items =>
    if exact && keys.length < items.length then none
    else some ((items.take keys.length).map some ++
      List.replicate (keys.length - items.length) none)
  | _ => none

/-- Decodes a field that must be there. -/
def required? {α : Type} (decode? : Json → Option α) (field : Option Json) : Option α :=
  field.bind decode?

/-- Decodes a field that may be missing. -/
def orDefault? {α : Type} (default : α) (decode? : Json → Option α) (field : Option Json) :
    Option α :=
  match field with
  | none => some default
  | some v => decode? v

end Fields

open Fields Json

/-- Decodes the settings of a crontab. An absent user may be left out of an object, but a list
must say that it is absent. -/
def CrontabSettings.ofJson? (exact : Bool) (v : Json) : Option CrontabSettings := do
  match ← Fields.of? exact ["binary", "user"] v, v with
  | [_, none], .array _ => none
  | [program, user], _ =>
    return ⟨← orDefault? "crontab" text? program, ← orDefault? none optionalText? user⟩
  | _, _ => none

/-- Decodes a job. -/
def Job.ofJson? (exact : Bool) (v : Json) : Option Job := do
  let keys :=
    ["config_file", "profile", "command", "program", "args", "work_dir", "user", "schedules"]
  match ← Fields.of? exact keys v with
  | [configFile, profile, command, program, args, workDir, user, schedules] =>
    return {
      configFile := ← required? text? configFile
      profile := ← required? text? profile
      command := ← required? text? command
      program := ← orDefault? "resticprofile" text? program
      args := ← orDefault? [] (listOf? text?) args
      workDir := ← orDefault? "" text? workDir
      user := ← orDefault? "" text? user
      schedules := ← orDefault? [] (listOf? text?) schedules }
  | _ => none

/-- Decodes settings. -/
def Settings.ofJson? (exact : Bool) (v : Json) : Option Settings := do
  match ← Fields.of? exact ["scheduler", "crontab", "jobs"] v with
  | [scheduler, crontab, jobs] =>
    return {
      scheduler := ← orDefault? "" text? scheduler
      crontab := ← orDefault? {} (CrontabSettings.ofJson? exact) crontab
      jobs := ← orDefault? [] (listOf? (Job.ofJson? exact)) jobs }
  | _ => none

end Timetable
