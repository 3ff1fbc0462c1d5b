import Timetable.Cron.Removal
import Timetable.Cron.Section

/-!
Bringing the own section of a crontab up to date.

The lines of the entries are taken out of the section, and new ones are put at
its end unless the entries are only to go. A crontab without a section gets one
behind a new line end; nothing is taken out then, because lines outside of the
section are not ours.

The definition follows `update` of a `Crontab`.
-/

set_option autoImplicit false

namespace Timetable.Cron

/-- A crontab with the lines of the entries taken out of its own section, new lines put in if
`add` is set, and the number of lines taken out.

It always gives a crontab. The program compiles two patterns from the strings of each entry, and for
very long strings a compiled pattern exceeds its size limit. Then there is an error in place of a
crontab, before anything is written. This limit of the pattern library is not modelled. -/
def update (es : List Entry) (add : Bool) (crontab : List Char) : List Char × Nat :=
  let fresh := if add then (Entry.linesOf es).toList else []
  match OwnSection.find? crontab with
  | some s =>
    let (body, count) := Entry.removeAll es s.body
    ({ s with body := body ++ fresh : OwnSection }.assemble, count)
  -- what is there ends a line first, so that the marker begins one
  | none => (OwnSection.assemble ⟨crontab ++ ['\n'], fresh, []⟩, 0)

end Timetable.Cron
