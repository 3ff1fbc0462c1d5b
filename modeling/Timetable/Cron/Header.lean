import Timetable.Text.Cut

/-!
The header of a generated crontab.

Some programs list a table under three comment lines, the first of which tells
the reader not to edit the file. The header counts only at the very top.

The definitions follow `cleanup_crontab` and the pattern `DO_NOT_EDIT_HEADER`.
-/

set_option autoImplicit false

namespace Timetable.Cron

/-- What remains of a text behind its first line, if this line starts with `start` and has a line
end. -/
def dropLine? (start : String) (s : List Char) : Option (List Char) := do
  let rest ← start.toList.isPrefixOf? s
  match rest.dropWhile (· != '\n') with
  | [] => none
  | _ :: t => some t

/-- What remains of a crontab behind its header, if it has one. -/
def behindHeader? (crontab : List Char) : Option (List Char) := do
  let s ← dropLine? "# DO NOT EDIT THIS FILE" crontab
  let s ← dropLine? "#" s
  dropLine? "#" s

/-- Whether a crontab has a header. -/
def hasHeader (crontab : List Char) : Bool :=
  (behindHeader? crontab).isSome

/-- A crontab without its header. -/
def dropHeader (crontab : List Char) : List Char :=
  (behindHeader? crontab).getD crontab

end Timetable.Cron
