import Timetable.Proofs.Cron.Comment
import Timetable.Proofs.Cron.Deletion

/-!
Removing what is listed.

The reader of a line and removal know the commands of an entry by patterns of
their own. The reader takes any program, an equals sign for the blank behind a
flag, and any text between the file name and the flag that names the profile.
Removal wants `resticprofile` in front of the flag with something between, blanks
behind the flags, and the form directly behind the file name. So a line that is
listed under an identity goes with an entry of that identity only if it is
written in this narrower way, or has the very column of the entry.
-/

set_option autoImplicit false

namespace Timetable

open Text

namespace Cron

/-! ## The place of an identity -/

/-- A place of a line at which the reader finds an identity: the flag, a character that sets it off
from the file name, the file name with or without quotes, and a rest in which profile and command
are read. -/
structure IsPlace (i : Identity) (w pre : List Char) (d : Char) (tail : List Char) : Prop where
  assign : d = ' ' ∨ d = '='
  file_ne_nil : i.configFile.toList ≠ []
  unquoted : '"' ∉ i.configFile.toList
  shape : ∃ q ∈ Entry.quoteLanguage, ∃ q' ∈ Entry.quoteLanguage,
    w = pre ++ (flagMark ++ d :: (q ++ (i.configFile.toList ++ (q' ++ ' ' :: tail))))
  read : longTail? tail = some (i.profile.toList, i.command.toList) ∨
    shortTail? tail = some (i.profile.toList, i.command.toList)

/-- The rest that is read is the end of the line. -/
theorem suffix_of_shape {w pre q file q' tail : List Char} {d : Char}
    (h : w = pre ++ (flagMark ++ d :: (q ++ (file ++ (q' ++ ' ' :: tail))))) : tail <:+ w :=
  ⟨pre ++ (flagMark ++ d :: (q ++ (file ++ (q' ++ [' '])))), by rw [h]; simp⟩

/-- The place at which the reader goes on. -/
theorem exists_isPlace_of_read? {tail? : List Char → Option (List Char × List Char)}
    (htail : tail? = longTail? ∨ tail? = shortTail?) {w : List Char} {p : LineParts}
    (h : LineParts.read? tail? w = some p) : ∃ pre d tail, IsPlace p.identity w pre d tail := by
  -- the identity is read in the command line, which is the end of the line
  obtain ⟨s, ⟨x, rfl⟩, hidentity⟩ := exists_identity?_of_read? h
  obtain ⟨c, b, place, d, hd, rfl, hplace, -⟩ := exists_of_identity? hidentity
  obtain ⟨tail, hcut, hread, -⟩ := exists_of_configCuts hplace
  obtain ⟨hne, hquote, q, hq, q', hq', rfl⟩ := mem_configCuts.mp hcut
  refine ⟨x ++ c :: b, d, tail, hd, hne, hquote, ⟨q, hq, q', hq', by simp⟩, ?_⟩
  rcases htail with rfl | rfl
  · exact .inl hread
  · exact .inr hread

/-- **What is read of a line.** A line that is read as an entry begins with time fields, and the
identity of the entry has a place in it. -/
theorem exists_isPlace_of_readLine {w : List Char} {e : Entry} (h : readLine w = .ok (some e)) :
    '\n' ∉ w ∧ (∃ time r, IsTimeText time ∧ w = time ++ r) ∧
      ∃ pre d tail, IsPlace e.toIdentity w pre d tail := by
  obtain ⟨p, hp, hidentity⟩ := exists_of_readLine h
  rw [hidentity]
  unfold LineParts.of? at hp
  split at hp
  · cases hp
  · next hline =>
    refine ⟨by simpa using hline, ?_⟩
    rcases Option.or_eq_some_iff.mp hp with hlong | ⟨-, hshort⟩
    · exact ⟨exists_isTimeText_of_read? hlong, exists_isPlace_of_read? (.inl rfl) hlong⟩
    · exact ⟨exists_isTimeText_of_read? hshort, exists_isPlace_of_read? (.inr rfl) hshort⟩

end Cron

namespace Entry

open Cron

variable {e : Entry} {i : Identity} {w pre tail : List Char} {d : Char}

/-! ## Places that removal knows -/

/-- A text that begins with time fields needs nothing else in front of the program. -/
theorem isCommand_iff_carries {time r : List Char} (h : IsTimeText time) :
    IsCommand i (time ++ r) ↔ Carries i (time ++ r) := by
  -- time fields have no number sign, and no letter of the program
  have hother {c : Char} (hc : c ∈ time) : c ≠ '#' ∧ c ≠ 'r' := by
    constructor <;> rintro rfl <;> exact absurd (h.all _ hc) (by decide)
  rcases time with _ | ⟨c, _ | ⟨d, time⟩⟩
  · exact absurd h.length (by decide)
  · exact absurd h.length (by simp)
  · have hr : 'r' ∉ [c, d] := by
      simp [(hother (c := c) (by simp)).2.symm, (hother (c := d) (by simp)).2.symm]
    rw [List.cons_append, List.cons_append, isCommand_cons_cons_iff,
      ← carries_append_iff (x := time ++ r) hr]
    simp [hother]

theorem carries_of_isPlace (h : IsPlace i w pre ' ' tail) (hprogram : programMark <:+: pre.dropLast)
    (hform : IsForm i tail) : Carries i w := by
  obtain ⟨q, hq, q', hq', hw⟩ := h.shape
  exact carries_iff.mpr ⟨pre, tail, hprogram, hform, q, hq, q', hq', hw⟩

theorem length_le_of_mem_quoteLanguage {q : List Char} (hq : q ∈ quoteLanguage) : q.length ≤ 1 := by
  rcases hq with rfl | rfl <;> simp

/-- A line that ends in a short form ends in no long form of the same identity, which has the
command alone for its last word. -/
theorem IsForm.eq_short {form : List Char} (hform : IsForm i form)
    (hblank : ∀ c ∈ i.word, isBlank c = false) (hshort : "run-schedule ".toList ++ i.word <:+ w)
    (hend : form <:+ w) : form = "run-schedule ".toList ++ i.word := by
  cases hform with
  | short => rfl
  | long flags =>
    obtain ⟨x, rfl⟩ := hshort
    obtain ⟨y, hy⟩ := hend
    have hword : ' ' ∉ i.word := fun hmem => absurd (hblank _ hmem) (by decide)
    have hcommand : ' ' ∉ i.command.toList := fun hmem => hword (List.mem_append_left _ hmem)
    -- in a long form the command stands behind the last blank, in a short form the word does
    have hends :
        (y ++ ("--name ".toList ++ (i.profile.toList ++ flags))) ++ ' ' :: i.command.toList =
          (x ++ "run-schedule".toList) ++ ' ' :: i.word := by
      simpa using hy
    have hlast := (append_cons_inj_right hcommand hword hends).2
    simp [Identity.word] at hlast

/-- **The place is the one that removal knows**, if no long form is read there or the flag stands in
the line only once. -/
theorem carries_iff_of_isPlace (h : IsPlace i w pre d tail)
    (hone : longTail? tail = none ∨ (cuts flagMark w).length ≤ 1) :
    Carries i w ↔ d = ' ' ∧ programMark <:+: pre.dropLast ∧ IsForm i tail := by
  constructor
  · intro hcarries
    obtain ⟨q, hq, q', hq', hw⟩ := h.shape
    obtain ⟨pre', form, hprogram, hform, p, hp, p', hp', hw'⟩ := carries_iff.mp hcarries
    have hplaces := hw.symm.trans hw'
    -- both are places of the flag, and there is only one that can be meant
    have hsame : pre = pre' := by
      rcases hone with hshort | hone
      -- the forms are equal, so the two flags are less than their length apart
      · have hread := h.read.resolve_left (by simp [hshort])
        obtain ⟨htail, hblank⟩ := eq_of_shortTail? hread
        have hends : form = tail :=
          (hform.eq_short hblank (htail ▸ suffix_of_shape hw) (suffix_of_shape hw')).trans
            htail.symm
        have hlength := congrArg List.length hplaces
        have hq := length_le_of_mem_quoteLanguage hq
        have hq' := length_le_of_mem_quoteLanguage hq'
        have hp := length_le_of_mem_quoteLanguage hp
        have hp' := length_le_of_mem_quoteLanguage hp'
        have hmark : flagMark.length = 8 := rfl
        simp only [hends, List.length_append, List.length_cons] at hlength
        exact isUnbordered_flagMark.eq_of_near hplaces (by omega) (by omega)
      · have hmem := (mem_cuts (by decide)).mpr hw
        have hmem' := (mem_cuts (by decide)).mpr hw'
        obtain ⟨x, hx⟩ := List.length_eq_one_iff.mp
          (Nat.le_antisymm hone (List.length_pos_of_mem hmem))
        rw [hx, List.mem_singleton] at hmem hmem'
        exact (Prod.mk.inj (hmem.trans hmem'.symm)).1
    subst hsame
    obtain ⟨rfl, hrest⟩ := List.cons.inj (List.append_cancel_left (List.append_cancel_left hplaces))
    have htail := rest_eq_of_quoted_eq hq hq' hp hp' h.file_ne_nil h.unquoted hrest
    exact ⟨rfl, hprogram, htail ▸ hform⟩
  · rintro ⟨rfl, hprogram, hform⟩
    exact carries_of_isPlace h hprogram hform

/-! ## Removal from a line -/

/-- One line goes if it is owned, whatever the strings of the entry are. -/
theorem remove_line (hw : '\n' ∉ w) :
    e.remove (w ++ ['\n']) = if e.owns (w ++ ['\n']) then ([], 1) else (w ++ ['\n'], 0) := by
  have hlines : lines (w ++ ['\n']) = [w ++ ['\n']] := by
    rw [lines_append_newline hw, lines_nil]
  -- one line is all that a match can reach
  have hwindow : ([w ++ ['\n']].take e.reach).flatten = w ++ ['\n'] := by
    have hreach : e.reach = (e.reach - 1) + 1 := by
      unfold reach
      omega
    rw [hreach, List.take_succ_cons, List.take_nil]
    simp
  unfold remove owns
  rw [hlines]
  unfold removeFrom span?
  simp only [hwindow]
  cases e.linePattern (w ++ ['\n']) with
  | nil => simp [removeFrom]
  | cons r rest => simp [removeFrom]

/-- **Removing what is listed.** A line is read with an identity, and an entry of that identity is
removed from it. It goes exactly if it has the column of the entry or carries the identity, and
stays as it is otherwise. It carries the identity if at the place that was read a blank sets the
file name off, the program is `resticprofile` with something between it and the flag, and the form
stands directly behind the file name; where no long form was read, and where the flag stands in the
line only once, only then. -/
theorem remove_listed {e' : Entry} (hread : readLine w = .ok (some e'))
    (hsame : e.toIdentity = e'.toIdentity) :
    let taken := Carries e.toIdentity w ∨ e.commandLine ≠ "" ∧ w ∈ e.columnLanguage
    (taken → e.remove (w ++ ['\n']) = ([], 1)) ∧
      (¬ taken → e.remove (w ++ ['\n']) = (w ++ ['\n'], 0)) ∧
      ∃ pre d tail, IsPlace e.toIdentity w pre d tail ∧
        (d = ' ' ∧ programMark <:+: pre.dropLast ∧ IsForm e.toIdentity tail →
          Carries e.toIdentity w) ∧
        (longTail? tail = none ∨ (cuts flagMark w).length ≤ 1 → Carries e.toIdentity w →
          d = ' ' ∧ programMark <:+: pre.dropLast ∧ IsForm e.toIdentity tail) := by
  intro taken
  obtain ⟨hline, ⟨time, r, htime, hw⟩, pre, d, tail, hplace⟩ := exists_isPlace_of_readLine hread
  rw [← hsame] at hplace
  have hcommand : IsCommand e.toIdentity w ↔ Carries e.toIdentity w := by
    rw [hw]
    exact isCommand_iff_carries htime
  have howns : e.owns (w ++ ['\n']) = true ↔ taken :=
    (owns_append_newline hline).trans (or_congr_left hcommand)
  refine ⟨fun h => ?_, fun h => ?_, pre, d, tail, hplace, ?_, ?_⟩
  · rw [remove_line hline, if_pos (howns.mpr h)]
  · rw [remove_line hline, if_neg (mt howns.mp h)]
  · rintro ⟨rfl, hprogram, hform⟩
    exact carries_of_isPlace hplace hprogram hform
  · exact fun hone hcarries => (carries_iff_of_isPlace hplace hone).mp hcarries

/-- A line with a user, quotes and a path in front of the program goes with any entry of its
identity. -/
theorem remove_listed_quoted :
    let e : Entry := { configFile := "c", profile := "home", command := "backup", event := {} }
    let w := "00 00 * * *\troot\t/bin/resticprofile --config \"c\" run-schedule backup@home".toList
    (∃ e', readLine w = .ok (some e') ∧ e.toIdentity = e'.toIdentity) ∧
      e.remove (w ++ ['\n']) = ([], 1) := by
  intro e w
  let e' : Entry :=
    { e with
      event := { hour := .one 0, minute := .one 0, second := .one 0 }
      user := "root"
      commandLine := "/bin/resticprofile --config \"c\" run-schedule backup@home" }
  have hread : readLine w = .ok (some e') := by decide
  have hshape : w = "00 00 * * *\troot\t/bin/".toList ++ ("resticprofile".toList ++ ([' '] ++
      ("--config ".toList ++ (['"'] ++ (e.configFile.toList ++ (['"'] ++ ' ' ::
        ("run-schedule ".toList ++ (e.command.toList ++ '@' :: e.profile.toList)))))))) := by
    decide
  have hcarries : Carries e.toIdentity w := by
    rw [hshape]
    exact .mk (by decide) (.inl rfl) (.inl rfl) .short
  have hsame : e.toIdentity = e'.toIdentity := rfl
  obtain ⟨hgone, -⟩ := remove_listed hread hsame
  exact ⟨⟨e', hread, hsame⟩, hgone (.inl hcarries)⟩

/-- An equals sign behind the flag is read, and the line stays. -/
theorem remove_listed_assigned :
    let e : Entry :=
      { configFile := "c", profile := "home", command := "backup", event := {}
        commandLine := "resticprofile --config c run-schedule backup@home" }
    let w := "00 00 * * *\tresticprofile --config=c run-schedule backup@home".toList
    ∃ e', readLine w = .ok (some e') ∧ e.toIdentity = e'.toIdentity ∧
      e.remove (w ++ ['\n']) = (w ++ ['\n'], 0) := by
  intro e w
  refine ⟨{ e with
    event := { hour := .one 0, minute := .one 0, second := .one 0 }
    commandLine := "resticprofile --config=c run-schedule backup@home" }, ?_⟩
  decide

end Entry

end Timetable
