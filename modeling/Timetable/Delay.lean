/-!
The time that remains until an event, for a reader.

Whole minutes are shown, with hours and days as soon as there are any; the
seconds of a minute that has begun are dropped, and a time that has passed
counts as none.

The definition follows `format_delay`.
-/

set_option autoImplicit false

namespace Timetable

/-- A number of seconds in days, hours and minutes. -/
def delayText (seconds : Int) : String :=
  let total := (seconds.tdiv 60).toNat
  let days := total / 1440
  let hours := total / 60 % 24
  let minutes := toString (total % 60) ++ "min"
  if days = 0 ∧ hours = 0 then minutes
  else if days = 0 then toString hours ++ "h " ++ minutes
  else toString days ++ " days " ++ toString hours ++ "h " ++ minutes

end Timetable
