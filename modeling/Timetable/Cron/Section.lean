import Timetable.Cron.Entry
import Timetable.Text.Cut

/-!
The own section of a crontab.

A crontab may belong to several owners. What this library writes stands between
two marker lines, and everything outside of them is somebody else's. A text is
cut at its first start marker and at the first end marker behind it.

The definitions follow `extract_own_section`, `START_MARKER` and `END_MARKER`.
-/

set_option autoImplicit false

namespace Timetable

/-- A crontab cut at its markers, which belong to none of the parts. -/
structure OwnSection where
  before : List Char
  body : List Char
  after : List Char
  deriving DecidableEq, Repr

namespace OwnSection

/-- The line that starts the own section. -/
def startMarker : List Char :=
  "### this content was generated by resticprofile, please leave this line intact ###\n".toList

/-- The line that ends the own section. -/
def endMarker : List Char :=
  "### end of resticprofile content, please leave this line intact ###\n".toList

/-- Cuts a crontab at its markers, if it has both. -/
def find? (crontab : List Char) : Option OwnSection := do
  let (before, rest) ← Text.cutAt? startMarker crontab
  let (body, after) ← Text.cutAt? endMarker rest
  return ⟨before, body, after⟩

/-- The crontab that the parts make, with the markers between them. -/
def assemble (s : OwnSection) : List Char :=
  s.before ++ startMarker ++ s.body ++ endMarker ++ s.after

end OwnSection

end Timetable
