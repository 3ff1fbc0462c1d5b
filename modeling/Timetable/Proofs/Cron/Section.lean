import Timetable.Cron.Section
import Timetable.Proofs.Text.Mark

/-!
Cutting a crontab at its markers and putting it together.

Both markers are line marks. So a crontab is cut into given parts exactly when it
is made of them, no start marker stands before the section and no end marker in
it. A crontab without a start marker is treated as if an empty section stood
behind a line end that is put behind it; with this reading every update starts
from three parts, and what is outside of the section is known before there is
one.
-/

set_option autoImplicit false

namespace Timetable.OwnSection

open Text

/-- The start marker is one line, so it has its line end at its end only and cannot overlap
itself. -/
theorem isLineMark_startMarker : IsLineMark startMarker :=
  ⟨startMarker.dropLast, by decide, by decide⟩

/-- So does the end marker. -/
theorem isLineMark_endMarker : IsLineMark endMarker :=
  ⟨endMarker.dropLast, by decide, by decide⟩

/-- The end marker has no tab, so it cannot reach from the time fields of a written line to its
command. -/
theorem tab_notMem_endMarker : '\t' ∉ endMarker := by
  decide

/-- It has no ampersand either, so it cannot reach across the end of a change of directory. -/
theorem ampersand_notMem_endMarker : '&' ∉ endMarker := by
  decide

/-- Parts whose markers are the first ones: no start marker stands before the section, and no end
marker in it. -/
structure IsProper (o : OwnSection) : Prop where
  before : ¬ startMarker <:+: o.before
  body : ¬ endMarker <:+: o.body

/-- A crontab is cut at its start marker, and what is behind it at the end marker. -/
theorem find?_eq_some_iff_cuts {t : List Char} {o : OwnSection} :
    find? t = some o ↔ ∃ rest, cutAt? startMarker t = some (o.before, rest) ∧
      cutAt? endMarker rest = some (o.body, o.after) := by
  simp only [find?]
  constructor
  · intro h
    obtain ⟨⟨before, rest⟩, hstart, h⟩ := Option.bind_eq_some_iff.mp h
    obtain ⟨⟨body, after⟩, hend, h⟩ := Option.bind_eq_some_iff.mp h
    obtain rfl : ⟨before, body, after⟩ = o := by simpa using h
    exact ⟨rest, hstart, hend⟩
  · rintro ⟨rest, hstart, hend⟩
    simp [hstart, hend]

/-- **A crontab is cut into the parts that it is made of.** -/
theorem find?_eq_some_iff {t : List Char} {o : OwnSection} :
    find? t = some o ↔ t = o.assemble ∧ o.IsProper := by
  rw [find?_eq_some_iff_cuts]
  constructor
  -- each of the two cuts gives the text back and tells where its marker does not stand
  · rintro ⟨rest, hstart, hend⟩
    obtain ⟨rfl, hbefore⟩ := isLineMark_startMarker.cutAt?_eq_some_iff.mp hstart
    obtain ⟨rfl, hbody⟩ := isLineMark_endMarker.cutAt?_eq_some_iff.mp hend
    exact ⟨by simp [assemble], hbefore, hbody⟩
  · rintro ⟨rfl, hbefore, hbody⟩
    have hshape : o.assemble = o.before ++ startMarker ++ (o.body ++ endMarker ++ o.after) := by
      simp [assemble]
    rw [hshape]
    exact ⟨_, isLineMark_startMarker.cutAt?_append hbefore,
      isLineMark_endMarker.cutAt?_append hbody⟩

/-- **A section that is put together is found again**, with the same three parts. -/
theorem find?_assemble {o : OwnSection} (h : o.IsProper) : find? o.assemble = some o :=
  find?_eq_some_iff.mpr ⟨rfl, h⟩

/-- Without a start marker there is no section, whether or not there is an end marker. -/
theorem find?_eq_none {t : List Char} (h : ¬ startMarker <:+: t) : find? t = none := by
  have hcut : cutAt? startMarker t = none :=
    (cutAt?_eq_none_iff isLineMark_startMarker.ne_nil).mpr h
  simp [find?, hcut]

/-- Behind the first start marker a section is looked for by its end marker. -/
theorem find?_append {b : List Char} (hb : ¬ startMarker <:+: b) (r : List Char) :
    find? (b ++ startMarker ++ r) =
      (cutAt? endMarker r).map fun (body, after) => ⟨b, body, after⟩ := by
  simp only [find?, isLineMark_startMarker.cutAt?_append hb, Option.bind_eq_bind, Option.bind_some]
  cases cutAt? endMarker r <;> rfl

/-- A line end behind a crontab with a section is behind the section. -/
theorem find?_append_newline {t : List Char} {o : OwnSection} (h : find? t = some o) :
    find? (t ++ ['\n']) = some { o with after := o.after ++ ['\n'] } := by
  obtain ⟨rfl, ho⟩ := find?_eq_some_iff.mp h
  exact find?_eq_some_iff.mpr ⟨by simp [assemble], ho.before, ho.body⟩

/-! ## The parts of a crontab, with or without a section -/

/-- The parts of a crontab. One without a section has an empty one behind a line end that is put
behind it. -/
def ofText (t : List Char) : OwnSection :=
  (find? t).getD ⟨t ++ ['\n'], [], []⟩

/-- What a crontab has before and after its own section, or will have once there is one. The
section must be complete; a crontab without one must have no start marker, also when a line end is
put behind it. -/
inductive Outside : (crontab before after : List Char) → Prop where
  | unmarked {t : List Char} : ¬ startMarker <:+: t ++ ['\n'] → Outside t (t ++ ['\n']) []
  | marked {o : OwnSection} : o.IsProper → Outside o.assemble o.before o.after

/-- A crontab in which the own section and what is around it have lines of their own: there is no
start marker, or there is a complete section in which the end marker begins a line. -/
def IsTidy (t : List Char) : Prop :=
  ¬ startMarker <:+: t ++ ['\n'] ∨ ∃ o : OwnSection, o.IsProper ∧ EndsLine o.body ∧ t = o.assemble

/-- The same for `ofText`, which takes the place of a section that is not found. -/
theorem ofText_assemble {o : OwnSection} (h : o.IsProper) : ofText o.assemble = o := by
  rw [ofText, find?_assemble h, Option.getD_some]

/-- A crontab without a start marker has an empty section behind one more line end. -/
theorem ofText_of_unmarked {t : List Char} (h : ¬ startMarker <:+: t ++ ['\n']) :
    ofText t = ⟨t ++ ['\n'], [], []⟩ := by
  rw [ofText, find?_eq_none fun ht => h (List.infix_append_of_infix_left ht), Option.getD_none]

/-- Such a section is proper: there is no start marker in front of it, and its empty body has no end
marker. -/
theorem isProper_of_unmarked {t : List Char} (h : ¬ startMarker <:+: t ++ ['\n']) :
    IsProper ⟨t ++ ['\n'], [], []⟩ :=
  ⟨h, by simp [isLineMark_endMarker.ne_nil]⟩

/-- What stands outside by the positions of the markers is what `ofText` leaves outside, and the
section is proper. -/
theorem Outside.ofText_eq {t before after : List Char} (h : Outside t before after) :
    ∃ body, ofText t = ⟨before, body, after⟩ ∧ (ofText t).IsProper := by
  cases h with
  | unmarked h => exact ⟨[], by rw [ofText_of_unmarked h]; exact ⟨rfl, isProper_of_unmarked h⟩⟩
  | marked h => exact ⟨_, by rw [ofText_assemble h]; exact ⟨rfl, h⟩⟩

/-- A tidy crontab has a proper section, or it gets one. -/
theorem IsTidy.isProper {t : List Char} (h : IsTidy t) : (ofText t).IsProper := by
  obtain h | ⟨o, ho, -, rfl⟩ := h
  · rw [ofText_of_unmarked h]
    exact isProper_of_unmarked h
  · rwa [ofText_assemble ho]

/-- The body of a tidy section ends with a line end, so what is put behind it begins a line. -/
theorem IsTidy.endsLine {t : List Char} (h : IsTidy t) : EndsLine (ofText t).body := by
  obtain h | ⟨o, ho, hend, rfl⟩ := h
  · rw [ofText_of_unmarked h]
    exact .inl rfl
  · rwa [ofText_assemble ho]

end Timetable.OwnSection
