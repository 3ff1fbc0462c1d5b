import Timetable.Proofs.Cron.Identity

/-!
What removal takes from a crontab, as it is read.

Removal and reading know a line by patterns of their own. A line that is removed
because of the command in it and can be read as an entry is read with the
identity that was to be removed, if the command is in the short form: its last
word is read up to the last at sign. In the long form the reader ends the profile
at a blank, and removal does not: it lets anything follow. So it takes the lines
of all profiles whose names begin with the one that was meant, and lines in which
another profile is named behind it. These are the only lines of other identities
that it takes.
-/

set_option autoImplicit false

namespace Timetable

open Text

namespace Cron

/-! ## Names of profiles -/

/-- The flag that names the profile. -/
def nameMark : List Char :=
  "--name".toList

/-- What stands in a line behind each flag that names a profile, the last one first. -/
def profileNames (line : List Char) : List (List Char) :=
  (cuts nameMark line).filterMap fun p => dropAssign? p.2

theorem mem_profileNames {w r : List Char} :
    r ∈ profileNames w ↔ ∃ b c, (c = ' ' ∨ c = '=') ∧ w = b ++ (nameMark ++ c :: r) := by
  rw [profileNames, List.mem_filterMap]
  constructor
  · rintro ⟨⟨b, y⟩, hcut, hdrop⟩
    obtain ⟨c, hc, rfl⟩ := dropAssign?_eq_some.mp hdrop
    exact ⟨b, c, hc, (mem_cuts (by decide)).mp hcut⟩
  · rintro ⟨b, c, hc, rfl⟩
    exact ⟨(b, c :: r), (mem_cuts (by decide)).mpr rfl, dropAssign?_eq_some.mpr ⟨c, hc, rfl⟩⟩

/-- Names in an end of a line are names in the line. -/
theorem profileNames_subset {w s : List Char} (h : s <:+ w) : profileNames s ⊆ profileNames w := by
  intro r hr
  obtain ⟨x, rfl⟩ := h
  obtain ⟨b, c, hc, rfl⟩ := mem_profileNames.mp hr
  exact mem_profileNames.mpr ⟨x ++ b, c, hc, by simp⟩

/-- In a line with one name no other one can be found. -/
theorem eq_of_mem_profileNames {w s pre rest r : List Char}
    (hw : w = pre ++ (nameMark ++ ' ' :: rest)) (hone : (profileNames w).length ≤ 1) (hs : s <:+ w)
    (hr : r ∈ profileNames s) : r = rest := by
  have hrest : rest ∈ profileNames w := mem_profileNames.mpr ⟨pre, ' ', .inl rfl, hw⟩
  have hr := profileNames_subset hs hr
  obtain ⟨x, hx⟩ := List.length_eq_one_iff.mp
    (Nat.le_antisymm hone (List.length_pos_of_mem hr))
  rw [hx, List.mem_singleton] at hr hrest
  rw [hr, hrest]

/-! ## What is read of a form -/

section Tail

variable {s w rest command profile : List Char} {t : List Char × List Char}

theorem eq_of_longCommand? (h : longCommand? s = some command) :
    ∃ flags, s = flags ++ ' ' :: command ∧ ' ' ∉ command := by
  simp only [longCommand?] at h
  split at h
  · next flags c hhead =>
    split at h
    · next hcond =>
      obtain rfl := Option.some.inj h
      have hcut := (mem_cuts (by simp)).mp (List.mem_of_head? hhead)
      simp only [Bool.and_eq_true, List.all_eq_true] at hcond
      exact ⟨flags, hcut, fun hblank => absurd (hcond.1.2 ' ' hblank) (by decide)⟩
    · cases h
  · cases h

/-- What is read behind the flag that names the profile: a profile up to the first blank, and the
last word. -/
theorem eq_of_namedTail? (h : namedTail? s = some t) :
    ∃ rest, dropAssign? s = some rest ∧ t.1 = rest.takeWhile (!isBlank ·) ∧
      ∃ flags, rest = flags ++ ' ' :: t.2 ∧ ' ' ∉ t.2 := by
  obtain ⟨rest, hdrop, h⟩ := Option.bind_eq_some_iff.mp h
  refine ⟨rest, hdrop, ?_⟩
  simp only at h
  split at h
  · cases h
  · obtain ⟨command, hcommand, h⟩ := Option.bind_eq_some_iff.mp h
    obtain rfl := Option.some.inj h
    obtain ⟨flags, hflags, hblank⟩ := eq_of_longCommand? hcommand
    refine ⟨rfl, rest.takeWhile (!isBlank ·) ++ flags, ?_, hblank⟩
    rw [List.append_assoc, ← hflags, List.takeWhile_append_dropWhile]

theorem exists_eq_cons_of_namedTail? (h : namedTail? s = some t) :
    ∃ c r, (c = ' ' ∨ c = '=') ∧ s = c :: r := by
  obtain ⟨r, hdrop, -⟩ := eq_of_namedTail? h
  obtain ⟨c, hc, rfl⟩ := dropAssign?_eq_some.mp hdrop
  exact ⟨c, r, hc, rfl⟩

theorem longTail?_eq (s : List Char) :
    longTail? s = (cuts nameMark s).findSome? fun p => namedTail? p.2 :=
  rfl

/-- **A line with one name.** Whatever is read as a long form in an end of the line ends with what
stands from the flag on, and the same is read of that. -/
theorem longTail?_of_one_name {pre : List Char} (hw : w = pre ++ (nameMark ++ ' ' :: rest))
    (hone : (profileNames w).length ≤ 1) (hs : s <:+ w) (h : longTail? s = some t) :
    nameMark ++ ' ' :: rest <:+ s ∧ longTail? (nameMark ++ ' ' :: rest) = some t ∧
      namedTail? (' ' :: rest) = some t := by
  have hform : nameMark ++ ' ' :: rest <:+ w := ⟨pre, hw.symm⟩
  rw [longTail?_eq] at h
  obtain ⟨⟨b, y⟩, hcut, hread⟩ := List.exists_of_findSome?_eq_some h
  obtain rfl := (mem_cuts (by decide)).mp hcut
  obtain ⟨c, r, hc, rfl⟩ := exists_eq_cons_of_namedTail? hread
  obtain rfl : r = rest := eq_of_mem_profileNames hw hone hs (mem_profileNames.mpr ⟨b, c, hc, rfl⟩)
  -- both flags stand in front of the same rest of the line
  have hsame : nameMark ++ c :: r = nameMark ++ ' ' :: r :=
    (List.suffix_of_suffix_length_le ((List.suffix_append b _).trans hs) hform
      (by rw [List.length_append, List.length_append]; rfl)).eq_of_length
      (by rw [List.length_append, List.length_append]; rfl)
  obtain ⟨rfl, -⟩ := List.cons.inj (List.append_cancel_left hsame)
  refine ⟨List.suffix_append b _, ?_, hread⟩
  rw [longTail?_eq]
  refine findSome?_cuts (b := []) (by decide) (fun k y hk hy => ?_) hread
  -- a later flag would have a name behind it that is too short
  cases hlater : namedTail? y with
  | none => rfl
  | some t' =>
    obtain ⟨c', r', hc', rfl⟩ := exists_eq_cons_of_namedTail? hlater
    obtain rfl : r' = r := eq_of_mem_profileNames hw hone hform
      (mem_profileNames.mpr ⟨k, c', hc', hy.symm⟩)
    have hlength := congrArg List.length hy
    simp only [List.length_append, List.length_cons] at hlength
    exact absurd (List.length_eq_zero_iff.mp (by omega)) hk

end Tail

/-! ## What is read of a command that is removed -/

section Command

variable {i : Identity} {w : List Char} {p : LineParts}

/-- A line of a short form is read with the identity that it carries. -/
theorem identity_of_short (hi : i.IsTellable) (hat : '@' ∉ i.profile.toList)
    (hne : i.configFile ≠ "") {pre q q' : List Char} (hq : q ∈ Entry.quoteLanguage)
    (hq' : q' ∈ Entry.quoteLanguage)
    (hw : w = pre ++ (flagMark ++ ' ' :: (q ++ (i.configFile.toList ++ (q' ++ ' ' ::
      ("run-schedule ".toList ++ (i.command.toList ++ '@' :: i.profile.toList)))))))
    (hp : LineParts.of? w = some p) : p.identity = i := by
  have hends : EndsInWord i.word w :=
    ⟨pre ++ (flagMark ++ ' ' :: (q ++ (i.configFile.toList ++ (q' ++ " run-schedule".toList)))),
      by rw [hw, Identity.word]; simp⟩
  have hlong := hends.read?_longTail?_eq_none hi.space_notMem_word (by simp [Identity.word])
  have hshort : LineParts.read? shortTail? w = some p := by
    rw [LineParts.of?] at hp
    split at hp
    · cases hp
    · rwa [hlong, Option.none_or] at hp
  obtain ⟨s, hs, hidentity⟩ := exists_identity?_of_read? hshort
  have hfile : i.configFile.toList ≠ [] := fun h => hne (String.toList_eq_nil_iff.mp h)
  obtain ⟨hname, hform⟩ :=
    identity?_spec hfile hi.unquoted hi.noFlag hq hq' hw
      (fun r t hr hread => hends.shortTail?_of_suffix hi.space_notMem_word hr hread) hs hidentity
  have hword := List.append_cancel_left (eq_of_shortTail? hform).1
  -- the word has one at sign only
  have hcommand : '@' ∉ p.identity.command.toList := by
    have hcount := congrArg (List.count '@') hword
    simp only [List.count_append, List.count_cons_self,
      List.count_eq_zero.mpr hi.at_notMem_command, List.count_eq_zero.mpr hat] at hcount
    exact List.count_eq_zero.mp (by omega)
  obtain ⟨hcommand, hprofile⟩ := append_cons_inj_left hi.at_notMem_command hcommand hword
  exact Identity.eq_of_toList_eq hname hprofile.symm hcommand.symm

/-- A line of a long form with one name is read with the file name and the command that it carries,
and with a profile that begins with the one that it carries. -/
theorem identity_of_long (hi : i.IsTellable) (hne : i.configFile ≠ "") {pre q q' flags : List Char}
    (hq : q ∈ Entry.quoteLanguage) (hq' : q' ∈ Entry.quoteLanguage)
    (hw : w = pre ++ (flagMark ++ ' ' :: (q ++ (i.configFile.toList ++ (q' ++ ' ' ::
      ("--name ".toList ++ (i.profile.toList ++ (flags ++ ' ' :: i.command.toList))))))))
    (hone : (profileNames w).length ≤ 1) (hp : LineParts.of? w = some p) :
    p.identity.configFile = i.configFile ∧ p.identity.command = i.command ∧
      ∃ k, p.identity.profile.toList = i.profile.toList ++ k := by
  have hcommand : ' ' ∉ i.command.toList := fun h => absurd (hi.command _ h).1 (by decide)
  have hends : EndsInWord i.command.toList w :=
    ⟨pre ++ (flagMark ++ ' ' :: (q ++ (i.configFile.toList ++ (q' ++ (" --name ".toList ++
      (i.profile.toList ++ flags)))))), by rw [hw]; simp⟩
  -- no short form is read, because the last word has no at sign
  have hlong : LineParts.read? longTail? w = some p := by
    rw [LineParts.of?] at hp
    split at hp
    · cases hp
    · obtain h | ⟨-, hshort⟩ := Option.or_eq_some_iff.mp hp
      · exact h
      · obtain ⟨s, hs, hidentity⟩ := exists_identity?_of_read? hshort
        obtain ⟨r, t, hr, hread⟩ := exists_suffix_of_identity? hidentity
        have hword := (hends.of_suffix (hr.trans hs)).eq_of_shortTail? hcommand hread
        exact absurd (by rw [← hword]; simp) hi.at_notMem_command
  obtain ⟨s, hs, hidentity⟩ := exists_identity?_of_read? hlong
  have hnamed : w = (pre ++ (flagMark ++ ' ' :: (q ++ (i.configFile.toList ++ (q' ++ [' ']))))) ++
      (nameMark ++ ' ' :: (i.profile.toList ++ (flags ++ ' ' :: i.command.toList))) := by
    have hflag : "--name ".toList = nameMark ++ [' '] := rfl
    rw [hw, hflag]
    simp
  have hfile : i.configFile.toList ≠ [] := fun h => hne (String.toList_eq_nil_iff.mp h)
  obtain ⟨hname, hform⟩ := identity?_spec hfile hi.unquoted hi.noFlag hq hq' hw
    (fun r t hr hread => ⟨(longTail?_of_one_name hnamed hone hr hread).1,
      (longTail?_of_one_name hnamed hone hr hread).2.1⟩) hs hidentity
  have hform' := (longTail?_of_one_name hnamed hone ⟨_, hnamed.symm⟩ hform).2.2
  obtain ⟨rest, hdrop, hprofile, flags', hlast, hspace⟩ := eq_of_namedTail? hform'
  obtain rfl := Option.some.inj hdrop
  simp only at hprofile
  rw [← List.append_assoc] at hlast
  refine ⟨String.toList_injective hname, ?_, (flags ++ ' ' :: i.command.toList).takeWhile
    (!isBlank ·), ?_⟩
  · exact String.toList_injective (append_cons_inj_right hcommand hspace hlast).2.symm
  · rw [hprofile]
    exact List.takeWhile_append_of_pos fun c hc => by simp [hi.profile c hc]

/-- **What is read of a command that is removed.** It is the identity that the command carries,
unless there is a long form in which more follows the name of the profile: then it may be a profile
with a longer name, or one that is named again. -/
theorem identity_of_isCommand (hi : i.IsTellable) (hat : '@' ∉ i.profile.toList)
    (hne : i.configFile ≠ "") (hw : Entry.IsCommand i w) (hp : LineParts.of? w = some p) :
    p.identity = i ∨ ∃ x y, w = x ++ ("--name ".toList ++ (i.profile.toList ++ y)) ∧
      (1 < (profileNames w).length ∨
        p.identity.configFile = i.configFile ∧ p.identity.command = i.command ∧
          ∃ k ≠ "", p.identity.profile = i.profile ++ k) := by
  obtain ⟨pre, form, -, hform, q, hq, q', hq', hw⟩ := Entry.carries_iff.mp hw.carries
  cases hform with
  | short => exact .inl (identity_of_short hi hat hne hq hq' hw hp)
  | long flags =>
    have hplace : w = (pre ++ (flagMark ++ ' ' :: (q ++ (i.configFile.toList ++ (q' ++ [' ']))))) ++
        ("--name ".toList ++ (i.profile.toList ++ (flags ++ ' ' :: i.command.toList))) := by
      rw [hw]
      simp
    by_cases hone : (profileNames w).length ≤ 1
    · obtain ⟨hfile, hcommand, k, hk⟩ := identity_of_long hi hne hq hq' hw hone hp
      obtain rfl | hk' := eq_or_ne k []
      · refine .inl (Identity.eq_of_toList_eq ?_ (by simpa using hk) ?_)
        · rw [hfile]
        · rw [hcommand]
      · refine .inr ⟨_, _, hplace, .inr ⟨hfile, hcommand, String.ofList k, ?_, ?_⟩⟩
        · simpa using hk'
        · exact String.toList_injective (by simpa using hk)
    · exact .inr ⟨_, _, hplace, .inl (Nat.lt_of_not_le hone)⟩

end Command

/-- The identity of an entry is the one that is read in its line. -/
theorem exists_of_readLine {w : List Char} {e : Entry} (h : readLine w = .ok (some e)) :
    ∃ p, LineParts.of? w = some p ∧ e.toIdentity = p.identity := by
  rw [readLine] at h
  split at h
  · cases h
  · next p hp =>
    obtain ⟨event, -, h⟩ := bind_eq_ok.mp h
    rw [pure_eq_ok] at h
    obtain rfl := Option.some.inj h
    exact ⟨p, hp, rfl⟩

end Cron

namespace Entry

open Cron

variable {e : Entry}

/-! ## Removal -/

/-- **Removal takes lines of one identity.** What is left are the lines that the entry does not own,
and every line that is taken has its line end. If what stands in front of that can be read as an
entry, then it has the command column of the entry that was removed, or its identity, or it names
the profile of that entry in the long form and goes on behind the name: another profile is named in
the line, or the name that is read is a longer one. -/
theorem remove_takes (he : e.IsSingleLine) (hi : e.toIdentity.IsTellable)
    (hat : '@' ∉ e.profile.toList) (hne : e.configFile ≠ "") (t : List Char) :
    (e.remove t).1 = ((lines t).filter (!e.owns ·)).flatten ∧
      ∀ l ∈ lines t, e.owns l = true → ∃ w, l = w ++ ['\n'] ∧
        ∀ e', readLine w = .ok (some e') →
          (e.commandLine ≠ "" ∧ w ∈ e.columnLanguage) ∨ e'.toIdentity = e.toIdentity ∨
          ∃ x y, w = x ++ ("--name ".toList ++ (e.profile.toList ++ y)) ∧
            (1 < (profileNames w).length ∨
              e'.configFile = e.configFile ∧ e'.command = e.command ∧
                ∃ k ≠ "", e'.profile = e.profile ++ k) := by
  refine ⟨by rw [remove_eq he], fun l hl howns => ?_⟩
  have hline := (isLines_lines t).line l hl
  obtain ⟨w, rfl, hw⟩ := hline.eq_append_newline (newline_suffix_of_owns hline howns)
  refine ⟨w, rfl, fun e' hread => ?_⟩
  obtain ⟨p, hp, hidentity⟩ := exists_of_readLine hread
  obtain hcommand | hcolumn := (owns_append_newline hw).mp howns
  · refine .inr ((identity_of_isCommand hi hat hne hcommand hp).imp (fun h => ?_) fun h => ?_)
    · rw [hidentity, h]
    · rwa [← hidentity] at h
  · exact .inl hcolumn

/-- A flag behind the name of the profile does not change what is read. -/
theorem remove_takes_flagged :
    let e : Entry := { configFile := "c", profile := "home", command := "backup", event := {} }
    let w := "00 00 * * *\tresticprofile --config \"c\" --name home --dry-run backup".toList
    e.IsSingleLine ∧ e.toIdentity.IsTellable ∧ '@' ∉ e.profile.toList ∧ e.configFile ≠ "" ∧
      e.owns (w ++ ['\n']) = true ∧
      ∃ e', readLine w = .ok (some e') ∧ e'.toIdentity = e.toIdentity := by
  intro e w
  have he : e.IsSingleLine := by decide
  have hi : e.toIdentity.IsTellable := by decide
  have hat : '@' ∉ e.profile.toList := by decide
  have howns : e.owns (w ++ ['\n']) = true := by decide
  refine ⟨he, hi, hat, by decide, howns, ?_⟩
  have hline : w ++ ['\n'] ∈ lines (w ++ ['\n']) := by decide
  obtain ⟨-, htaken⟩ := remove_takes he hi hat (by decide) (w ++ ['\n'])
  obtain ⟨w', hw', hread⟩ := htaken _ hline howns
  obtain rfl := List.append_cancel_right hw'
  let e' : Entry :=
    { e with
      event := { hour := .one 0, minute := .one 0, second := .one 0 }
      commandLine := "resticprofile --config \"c\" --name home --dry-run backup" }
  have hentry : readLine w = .ok (some e') := by decide
  refine ⟨e', hentry, ?_⟩
  -- the entry has no column, the line has one name, and the profile is not longer
  obtain ⟨hcolumn, -⟩ | hsame | ⟨x, y, -, htwice | ⟨-, -, k, hk, hlonger⟩⟩ := hread e' hentry
  · exact absurd rfl hcolumn
  · exact hsame
  · exact absurd htwice (by decide)
  · exact absurd (String.append_eq_left_iff.mp hlonger.symm) hk

/-- **The name of the profile is not ended.** An entry owns every line of the long form whose
profile has a name that begins with its own. -/
theorem owns_of_longer_profile {c : Char} {front mid k flags : List Char} (hc : c ≠ '#')
    (hfront : front ≠ []) (hmid : mid ≠ [])
    (hline : '\n' ∉ c :: (front ++ ("resticprofile".toList ++ (mid ++ ("--config ".toList ++
      (e.configFile.toList ++ ' ' :: ("--name ".toList ++ ((e.profile.toList ++ k) ++ (flags ++
        ' ' :: e.command.toList))))))))) :
    e.owns (c :: (front ++ ("resticprofile".toList ++ (mid ++ ("--config ".toList ++
      (e.configFile.toList ++ ' ' :: ("--name ".toList ++ ((e.profile.toList ++ k) ++ (flags ++
        ' ' :: e.command.toList)))))))) ++ ['\n']) = true := by
  refine (owns_append_newline hline).mpr (.inl ?_)
  have hcommand := @IsCommand.mk e.toIdentity c front mid [] [] _ hc hfront hmid (.inr rfl)
    (.inr rfl) (.long (k ++ flags))
  simpa using hcommand

/-- The line of another profile goes with that of the one that was meant. -/
theorem remove_takes_longer :
    let e : Entry :=
      { configFile := "c", profile := "home", command := "backup"
        event := { hour := .one 0, minute := .one 0, second := .one 0 }
        commandLine := "resticprofile --config c --name home backup" }
    let w := "00 00 * * *\tresticprofile --config c --name home2 backup".toList
    e.IsSingleLine ∧ e.remove (w ++ ['\n']) = ([], 1) ∧ w ∉ e.columnLanguage ∧
      ∃ e', readLine w = .ok (some e') ∧ e'.profile = "home2" ∧ e'.toIdentity ≠ e.toIdentity := by
  intro e w
  have hevent : e.event.Reached := by
    intro c
    cases c
    · exact .any
    · exact .any
    · exact .any
    · exact .any
    · exact Selection.reached_ofList [0]
    · exact Selection.reached_ofList [0]
    · exact Selection.reached_ofList [0]
  have hshape : w = (timeFields e.event).toList ++
      '\t' :: "resticprofile --config c --name home2 backup".toList := by decide
  have hread : readLine w = .ok (some { e with
      profile := "home2", commandLine := "resticprofile --config c --name home2 backup" }) := by
    decide
  refine ⟨by decide, by decide, ?_, _, hread, rfl, by decide⟩
  rw [hshape, append_mem_columnLanguage_iff hevent]
  decide

end Entry

end Timetable
