import Timetable.Host
import Timetable.Settings.Decoding
import Timetable.Settings.Override
import Timetable.Toml.Reader

/-!
Where settings come from.

Settings stand in a TOML file, and variables of the environment go before it.
The file is the one that is asked for, or the one that the environment names, or
the one in the home directory. A file that is not there says nothing.

The definitions follow `load` of a `CalschedConfig` and `load_config`.
-/

set_option autoImplicit false

namespace Timetable.Settings

/-- The file of the settings. -/
def path (h : Host) (asked : Option String) : String :=
  let home := (h.valueOf? "HOME").getD "."
  (asked.or (h.valueOf? "CALSCHED_CONFIG")).getD (home ++ "/.calsched/calsched.toml")

/-- What a file says, if it can be read. -/
def document? (h : Host) (file : String) : Option Json :=
  match h.place file with
  | .file bytes => (String.fromUTF8? bytes).bind Toml.read?
  -- a file that is not there says nothing
  | _ => some (.object [])

/-- The settings of a host, unless the file cannot be read or something in it has not the form of
a setting. -/
def load? (h : Host) (asked : Option String) : Option Settings := do
  let v ← document? h (path h asked)
  Settings.ofJson? false (Override.apply h.environment v)

end Timetable.Settings
