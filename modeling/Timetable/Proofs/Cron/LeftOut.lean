import Timetable.Proofs.Cron.Ownership
import Timetable.Proofs.Cron.Update

/-!
Which lines an update leaves out.

The lines of an entry are a language: a command with the identity of the entry, or
its command column behind time fields, and a line end. An update in which entries
are only to go leaves out the lines of the section that are in the language of one
of them. All other lines stay as they are and in their order, a last one without a
line end among them. So it is of no account in which order the entries are asked,
nor how often.
-/

set_option autoImplicit false

namespace Timetable

open Text

namespace Entry

/-- The lines of an entry: a command that carries its identity, or its command column behind time
fields, with a line end. An entry without a command line has lines of the first kind only. -/
def lineLanguage (e : Entry) : Language Char :=
  (commandLanguage e.toIdentity + if e.commandLine = "" then 0 else e.columnLanguage) * {['\n']}

/-- A text is in the language if the pattern of the entry's lines takes all of it. -/
theorem mem_lineLanguage {e : Entry} {l : List Char} :
    l ∈ e.lineLanguage ↔ [] ∈ e.linePattern l := by
  have htext (w : List Char) :
      w ∈ (commandLanguage e.toIdentity + if e.commandLine = "" then 0 else e.columnLanguage) ↔
        w ∈ commandLanguage e.toIdentity ∨ (e.commandLine ≠ "" ∧ w ∈ e.columnLanguage) := by
    rw [Language.mem_add]
    split
    · next h => simp [h, Language.notMem_zero]
    · next h => simp [h]
  rw [mem_linePattern, lineLanguage, Language.mem_mul]
  constructor
  · rintro ⟨w, hw, _, rfl, rfl⟩
    exact ⟨w, (htext w).mp hw, rfl⟩
  · rintro ⟨w, hw, rfl⟩
    exact ⟨w, (htext w).mpr hw, _, rfl, rfl⟩

instance (e : Entry) (l : List Char) : Decidable (l ∈ e.lineLanguage) :=
  decidable_of_iff _ mem_lineLanguage.symm

/-- **A line is owned as a whole.** A line end is the last character of a line, so a match goes up
to it. -/
theorem owns_iff {e : Entry} {l : List Char} (hl : IsLine l) :
    e.owns l = true ↔ l ∈ e.lineLanguage := by
  rw [mem_lineLanguage, owns, Bool.not_eq_true', List.isEmpty_eq_false_iff_exists_mem]
  constructor
  · rintro ⟨r, hr⟩
    obtain ⟨w, rfl⟩ := exists_eq_append_of_mem_linePattern hr
    -- the match ends with a line end, and a line has only one, at its end
    obtain rfl : r = [] := by
      by_contra hne
      exact hl.2 (by simp [List.dropLast_append_of_ne_nil, List.dropLast_cons_of_ne_nil hne])
    exact hr
  · exact fun hr => ⟨[], hr⟩

end Entry

namespace Cron

open OwnSection

variable {es : List Entry} {t : List Char} {o : OwnSection}

theorem any_owns_iff (es : List Entry) {l : List Char} (hl : IsLine l) :
    es.any (·.owns l) = true ↔ ∃ e ∈ es, l ∈ e.lineLanguage := by
  rw [List.any_eq_true]
  exact exists_congr fun e => and_congr_right' (Entry.owns_iff hl)

/-- What an update keeps are the lines that are in the language of no entry. -/
theorem kept_lines_eq (es : List Entry) (s : List Char) :
    kept es (lines s) = (lines s).filter fun l => ∀ e ∈ es, l ∉ e.lineLanguage := by
  refine List.filter_congr fun l hl => ?_
  have howned := any_owns_iff es ((isLines_lines s).line l hl)
  rw [Bool.eq_iff_iff, Bool.not_eq_true', ← Bool.not_eq_true, howned, decide_eq_true_iff]
  push Not
  rfl

/-- The lines that go and those that stay are all lines. -/
theorem countP_owns_add_length_kept (es : List Entry) (ls : List (List Char)) :
    ls.countP (fun l => es.any (·.owns l)) + (kept es ls).length = ls.length := by
  have hsum := List.length_eq_countP_add_countP (l := ls) fun l => es.any (·.owns l)
  simp only [decide_not, Bool.decide_eq_true] at hsum
  rw [hsum, kept, List.countP_eq_length_filter (p := fun l => !es.any (·.owns l))]

/-- Entries that are only to go, in a crontab with a section. -/
theorem update_false_eq (hes : ∀ e ∈ es, e.IsSingleLine) (ho : o.IsProper) :
    update es false o.assemble =
      ({ o with body := (kept es (lines o.body)).flatten : OwnSection }.assemble,
        (lines o.body).countP fun l => es.any (·.owns l)) := by
  rw [update_eq_of_singleLine hes, ofText_assemble ho, added, if_neg Bool.false_ne_true,
    List.append_nil]

/-- Neither the order of the entries nor their number is of any account. -/
theorem update_false_congr {es' : List Entry} (hes : ∀ e ∈ es, e.IsSingleLine)
    (hsame : ∀ e, e ∈ es' ↔ e ∈ es) (t : List Char) : update es' false t = update es false t := by
  have hes' : ∀ e ∈ es', e.IsSingleLine := fun e he => hes e ((hsame e).mp he)
  -- whether a line goes depends on the set of entries alone
  have hany (l : List Char) : es'.any (·.owns l) = es.any (·.owns l) := by
    rw [Bool.eq_iff_iff, List.any_eq_true, List.any_eq_true]
    simp only [hsame]
  rw [update_eq_of_singleLine hes, update_eq_of_singleLine hes']
  simp only [kept, hany]
  rfl

/-- **What an update leaves out.** In a crontab with a section, entries that are only to go take out
the lines that are in the language of one of them. Every one of these has its line end, and their
number is counted. The other lines are the lines of the new section, in their order, and nothing
else changes. Entries that are the same in another order or number make the same update. -/
theorem update_leaves_out (hes : ∀ e ∈ es, e.IsSingleLine) (ho : find? t = some o) :
    let left := (lines o.body).filter fun l => ∀ e ∈ es, l ∉ e.lineLanguage
    find? (update es false t).1 = some { o with body := left.flatten } ∧
      lines left.flatten = left ∧
      (update es false t).2 + left.length = (lines o.body).length ∧
      (∀ l ∈ lines o.body, l ∉ left → ['\n'] <:+ l) ∧
      ∀ es', (∀ e, e ∈ es' ↔ e ∈ es) → update es' false t = update es false t := by
  intro left
  obtain ⟨rfl, hproper⟩ := find?_eq_some_iff.mp ho
  have hleft : left = kept es (lines o.body) := (kept_lines_eq es o.body).symm
  have hsublist : left.Sublist (lines o.body) := List.filter_sublist
  refine ⟨?_, lines_flatten ((isLines_lines _).sublist hsublist), ?_, fun l hl hgone => ?_,
    fun es' hsame => update_false_congr hes hsame _⟩
  -- leaving lines out makes no end marker, so the section is found again
  · rw [update_false_eq hes hproper, ← hleft]
    exact find?_assemble
      ⟨hproper.before, isLineMark_endMarker.not_infix_of_sublist hproper.body hsublist⟩
  · rw [update_false_eq hes hproper, hleft]
    exact countP_owns_add_length_kept es (lines o.body)
  -- a line that has gone is owned, and what is owned ends with a line end
  · have howned : es.any (·.owns l) = true := by
      rw [hleft, kept, List.mem_filter] at hgone
      simpa [hl] using hgone
    obtain ⟨e, -, howns⟩ := List.any_eq_true.mp howned
    exact Entry.newline_suffix_of_owns ((isLines_lines _).line l hl) howns

/-- A comment, an empty line and a last line without a line end stay, and the line of the job goes,
whichever entry is asked first. -/
theorem update_leaves_out_job :
    let e : Entry := { configFile := "c", profile := "home", command := "backup", event := {} }
    let e' : Entry := { e with profile := "work" }
    let job := "00 00 * * *\tresticprofile --config c run-schedule backup@home\n".toList
    let o : OwnSection := ⟨"MAILTO=ops\n".toList, "# jobs\n\n".toList ++ job ++ "# end".toList, []⟩
    let o' : OwnSection := { o with body := "# jobs\n\n# end".toList }
    (∀ x ∈ [e, e'], x.IsSingleLine) ∧ find? o.assemble = some o ∧
      find? (update [e, e'] false o.assemble).1 = some o' ∧
      update [e', e, e'] false o.assemble = update [e, e'] false o.assemble := by
  intro e e' job o o'
  have hes : ∀ x ∈ [e, e'], x.IsSingleLine := by decide
  have ho : find? o.assemble = some o := by decide
  obtain ⟨hfind, -, -, -, hsame⟩ := update_leaves_out hes ho
  refine ⟨hes, ho, ?_, hsame [e', e, e'] (by simp)⟩
  rw [hfind]
  decide

end Cron

end Timetable
