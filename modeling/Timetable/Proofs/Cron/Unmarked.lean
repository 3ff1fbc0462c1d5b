import Timetable.Proofs.Cron.Removal
import Timetable.Proofs.Cron.Section

/-!
Lines of entries that do not end the section.

The marker that ends the section is a line, so it cannot begin in one line of an
entry and end in the next, and it has no tab, so it cannot begin before a line of
an entry and end in it. It can only lie in what stands behind the tab. If no
string of an entry has the text of the marker, it does not lie there either,
because what stands between the strings has characters that the marker has not.
-/

set_option autoImplicit false

namespace Timetable

namespace Cron

open Text OwnSection

/-- Nothing new ends the section: none of the lines has an end marker in it. -/
def IsUnmarked (es : List Entry) : Prop :=
  ∀ e ∈ es, ¬ endMarker <:+: e.line.toList

instance (es : List Entry) : Decidable (IsUnmarked es) :=
  inferInstanceAs (Decidable (∀ e ∈ es, ¬ endMarker <:+: e.line.toList))

/-- A marker does not come to stand where the line of an entry is put behind a text. -/
theorem endMarker_infix_append_line {s : List Char} (e : Entry) :
    endMarker <:+: s ++ e.line.toList ↔ endMarker <:+: s ∨ endMarker <:+: e.line.toList := by
  have htime : '\n' ∉ (timeFields e.event).toList := newline_notMem_timeFields e.event
  have hfront : ∀ a, endMarker <:+: a ++ (timeFields e.event).toList ↔ endMarker <:+: a :=
    fun a => isLineMark_endMarker.infix_append_iff_left htime
  have hnil : ¬ endMarker <:+: (timeFields e.event).toList :=
    isLineMark_endMarker.not_infix_of_notMem htime
  rw [Entry.toList_line, ← List.append_assoc, infix_append_cons_iff tab_notMem_endMarker, hfront,
    infix_append_cons_iff tab_notMem_endMarker]
  simp [hnil]

theorem IsUnmarked.not_infix_append {es : List Entry} (hes : IsUnmarked es) {s : List Char}
    (hs : ¬ endMarker <:+: s) : ¬ endMarker <:+: s ++ (Entry.linesOf es).toList := by
  rw [Entry.toList_linesOf]
  -- one line after another is put behind the text, which has no end marker yet
  induction es generalizing s with
  | nil => simpa using hs
  | cons e es ih =>
    have hline : ¬ endMarker <:+: s ++ e.line.toList := by
      rw [endMarker_infix_append_line]
      exact not_or.mpr ⟨hs, hes e (by simp)⟩
    simpa using ih (fun e' he' => hes e' (by simp [he'])) hline

end Cron

namespace Entry

open Text Cron OwnSection

/-- An entry whose strings have no line ends and not the text of the marker that ends the
section. -/
structure IsPlain (e : Entry) : Prop where
  singleLine : e.IsSingleLine
  noMarker : ∀ s ∈ e.strings, ¬ endMarker.dropLast <:+: s.toList

instance (e : Entry) : Decidable e.IsPlain :=
  decidable_of_iff (e.IsSingleLine ∧ ∀ s ∈ e.strings, ¬ endMarker.dropLast <:+: s.toList)
    ⟨fun h => ⟨h.1, h.2⟩, fun h => ⟨h.1, h.2⟩⟩

/-- What changes the working directory has an ampersand and a blank at its end, and a marker
cannot begin there. -/
theorem endMarker_infix_workDir {a b : List Char} (ha : '\n' ∉ a) :
    endMarker <:+: a ++ " && ".toList ++ b ↔ endMarker <:+: b := by
  have hm := isLineMark_endMarker
  have hblank : ¬ endMarker <+: ' ' :: b := by
    rw [List.prefix_cons_iff]
    rintro (h | ⟨t, h, -⟩)
    · exact hm.ne_nil h
    · have hhead := congrArg List.head? h
      rw [List.head?_cons] at hhead
      exact absurd hhead (by decide)
  -- an ampersand is in no marker, so the text falls into pieces at the two of them
  have hshape : a ++ " && ".toList ++ b = (a ++ [' ']) ++ '&' :: ([] ++ '&' :: ' ' :: b) := by
    simp
  rw [hshape, infix_append_cons_iff ampersand_notMem_endMarker,
    infix_append_cons_iff ampersand_notMem_endMarker, List.infix_cons_iff]
  simp [hblank, hm.not_infix_of_notMem, ha]

/-- The line of a plain entry has no end marker in it. -/
theorem IsPlain.not_infix_line {e : Entry} (he : e.IsPlain) :
    ¬ endMarker <:+: e.line.toList := by
  have hm := isLineMark_endMarker
  have hsingle : ∀ s ∈ e.strings, '\n' ∉ s.toList := he.singleLine
  -- from the end of the line to its beginning: the command,
  have hcommand : ¬ endMarker <:+: e.commandLine.toList ++ ['\n'] := fun h =>
    he.noMarker e.commandLine (by simp [strings])
      (hm.dropLast_suffix (hsingle _ (by simp [strings])) h).isInfix
  -- the working directory in front of it,
  have hworkDir :
      ¬ endMarker <:+: (workDirText e.workDir).toList ++ (e.commandLine.toList ++ ['\n']) := by
    rw [workDirText]
    split
    · exact hcommand
    · have hdir : '\n' ∉ "cd ".toList ++ e.workDir.toList := by
        simp [hsingle e.workDir (by simp [strings])]
      rwa [String.toList_append, String.toList_append, endMarker_infix_workDir hdir]
  -- the user, with a tab that no marker has,
  have hcolumn : ¬ endMarker <:+: e.column.toList ++ ['\n'] := by
    rw [column_eq, String.toList_append, String.toList_append, List.append_assoc,
      List.append_assoc, userText]
    split
    · have htab : "\t".toList = ['\t'] := rfl
      rw [String.toList_append, List.append_assoc, htab, List.singleton_append,
        infix_append_cons_iff tab_notMem_endMarker]
      exact not_or.mpr ⟨hm.not_infix_of_notMem (hsingle e.user (by simp [strings])), hworkDir⟩
    · exact hworkDir
  -- and the time fields
  rw [toList_line, infix_append_cons_iff tab_notMem_endMarker]
  exact not_or.mpr ⟨hm.not_infix_of_notMem (newline_notMem_timeFields e.event), hcolumn⟩

/-- The end marker is no line with an at sign in its last word. -/
theorem not_infix_line_of_word {e : Entry} {x w : List Char} (hline : '\n' ∉ e.column.toList)
    (hcolumn : e.column.toList = x ++ ' ' :: w) (hw : ' ' ∉ w) (hat : '@' ∈ w) :
    ¬ endMarker <:+: e.line.toList := by
  intro hmarker
  rw [toList_line_eq_append] at hmarker
  obtain ⟨a, hsuffix⟩ :=
    isLineMark_endMarker.dropLast_suffix (newline_notMem_line hline) hmarker
  have hend : endMarker.dropLast =
      "### end of resticprofile content, please leave this line intact".toList ++ ' ' ::
        "###".toList := by decide
  have hlast : (a ++ "### end of resticprofile content, please leave this line intact".toList) ++
      ' ' :: "###".toList = ((timeFields e.event).toList ++ '\t' :: x) ++ ' ' :: w := by
    simpa only [hcolumn, hend, List.append_assoc, List.cons_append] using hsuffix
  have hword := (append_cons_inj_right (by decide) hw hlast).2
  exact absurd (hword ▸ hat) (by decide)

/-- Plain entries do not end the section. -/
theorem isUnmarked_of_isPlain {es : List Entry} (hes : ∀ e ∈ es, e.IsPlain) : IsUnmarked es :=
  fun e he => (hes e he).not_infix_line

end Entry

end Timetable
