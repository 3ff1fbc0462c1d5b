import Timetable.Jobs
import Timetable.Proofs.Cron.Identity
import Timetable.Proofs.Cron.Unmarked

/-!
The lines of jobs.

The command column of a job ends with the identity of the job: `--config`, the
file name, `run-schedule`, and the command and the profile with an at sign
between them. If command and profile are words and the file name does not mention
the flag, this end can be told from what stands in front of it, whatever that is:
the last blank, the first at sign behind it and the last place of the flag are
where they have been written. So two columns agree only if the identities and
what stands in front agree, and a command that carries an identity is read at one
place only.
-/

set_option autoImplicit false

namespace Timetable

open Text Cron

/-! ## The end of a command column -/

/-- What stands between the file name and the last word. -/
def shortFlag : List Char :=
  " run-schedule".toList

/-- The end of a command column: the flag, the file name as it stands there, and the rest of the
short form. -/
def flagged (file word : List Char) : List Char :=
  configFlag ++ (file ++ (shortFlag ++ ' ' :: word))

/-- **The end of a command column can be told.** -/
theorem flagged_inj {x y f g w v : List Char} (hf : ¬ configFlag <:+: f)
    (hg : ¬ configFlag <:+: g) (hw : ' ' ∉ w) (hv : ' ' ∉ v)
    (h : x ++ flagged f w = y ++ flagged g v) : x = y ∧ f = g ∧ w = v := by
  -- the last blank, and then the last place of the flag
  have hlast : (x ++ configFlag ++ f ++ shortFlag) ++ ' ' :: w =
      (y ++ configFlag ++ g ++ shortFlag) ++ ' ' :: v := by
    simpa [flagged] using h
  obtain ⟨hfront, rfl⟩ := append_cons_inj_right hw hv hlast
  have hflag : x ++ (configFlag ++ f) = y ++ (configFlag ++ g) := by
    simpa using List.append_cancel_right hfront
  obtain ⟨rfl, rfl⟩ := isUnbordered_configFlag.append_inj hf hg hflag
  exact ⟨rfl, rfl, rfl⟩

/-- What stands in front of the flag of a command: the program, with something before it and behind
it, and uncommented. -/
inductive IsCommandFront : List Char → Prop where
  | mk {c : Char} {front mid : List Char} (hc : c ≠ '#') (hfront : front ≠ []) (hmid : mid ≠ []) :
    IsCommandFront (c :: (front ++ ("resticprofile".toList ++ mid)))

/-- **A command is read at one place only.** A text that ends like a command column is a command
with an identity exactly if this end has the identity. -/
theorem isCommand_append_flagged_iff {i : Identity} (hi : i.IsTellable) {x f w : List Char}
    (hf : ¬ configFlag <:+: f) (hw : ' ' ∉ w) (hat : '@' ∈ w) :
    Entry.IsCommand i (x ++ flagged f w) ↔
      IsCommandFront x ∧ w = i.word ∧ ∃ q ∈ Entry.quoteLanguage, ∃ q' ∈ Entry.quoteLanguage,
        f = q ++ (i.configFile.toList ++ q') := by
  have hconfig : "--config ".toList = configFlag := rfl
  constructor
  · generalize htext : x ++ flagged f w = text
    rintro (@⟨c, front, mid, q, q', form, hc, hfront, hmid, hq, hq', hform⟩)
    rw [hconfig] at htext
    cases hform with
    -- the last word of a long form is the command, and that has no at sign
    | long flags =>
      have hcommand : ' ' ∉ i.command.toList := fun h => absurd (hi.command _ h).1 (by decide)
      have hlast : (x ++ configFlag ++ f ++ shortFlag) ++ ' ' :: w =
          (c :: (front ++ "resticprofile".toList ++ mid ++ configFlag ++ q ++ i.configFile.toList ++
            q' ++ [' '] ++ "--name ".toList ++ i.profile.toList ++ flags)) ++
            ' ' :: i.command.toList := by
        simpa only [flagged, List.append_assoc, List.cons_append, List.nil_append] using htext
      obtain ⟨-, rfl⟩ := append_cons_inj_right hw hcommand hlast
      exact absurd hat hi.at_notMem_command
    | short =>
      have hend : ' ' :: ("run-schedule ".toList ++ (i.command.toList ++ '@' :: i.profile.toList)) =
          shortFlag ++ ' ' :: i.word := rfl
      have hflagged : x ++ flagged f w = (c :: (front ++ ("resticprofile".toList ++ mid))) ++
          flagged (q ++ (i.configFile.toList ++ q')) i.word := by
        rw [htext, hend]
        simp only [flagged, List.append_assoc, List.cons_append]
      obtain ⟨rfl, rfl, rfl⟩ :=
        flagged_inj hf (hi.not_infix_quoted hq hq') hw hi.space_notMem_word hflagged
      exact ⟨.mk hc hfront hmid, rfl, q, hq, q', hq', rfl⟩
  · rintro ⟨@⟨c, front, mid, hc, hfront, hmid⟩, rfl, q, hq, q', hq', rfl⟩
    have hend : shortFlag ++ ' ' :: i.word =
        ' ' :: ("run-schedule ".toList ++ (i.command.toList ++ '@' :: i.profile.toList)) := rfl
    have hcommand := Entry.IsCommand.mk (i := i) hc hfront hmid hq hq' .short
    simpa only [flagged, hend, ← hconfig, List.append_assoc, List.cons_append] using hcommand

namespace Job

/-- What tells a job apart. -/
def identity (j : Job) : Identity :=
  ⟨j.configFile, j.profile, j.command⟩

/-- What stands in the command column of a job in front of the flag. -/
def lead (j : Job) (user : String) : List Char :=
  (Entry.userText user).toList ++ ((Entry.workDirText j.workDir).toList ++
    (" ".intercalate (j.program :: j.args)).toList)

/-- The configuration file stands on a command line bare or in quotes. -/
theorem exists_fileWord_eq (j : Job) :
    ∃ q ∈ Entry.quoteLanguage, ∃ q' ∈ Entry.quoteLanguage,
      j.fileWord.toList = q ++ (j.configFile.toList ++ q') := by
  rw [fileWord]
  split
  · exact ⟨['"'], .inl rfl, ['"'], .inl rfl, by simp⟩
  · exact ⟨[], .inr rfl, [], .inr rfl, by simp⟩

/-- A command line begins with the program. -/
theorem program_prefix_words (j : Job) :
    j.program.toList <+: (" ".intercalate (j.program :: j.args)).toList := by
  rw [String.toList_intercalate]
  cases j.args with
  | nil => simp
  | cons a as => simp [List.intercalate_cons_cons]

/-- The program of a job stands in its column. -/
theorem program_infix_lead (j : Job) (user : String) : j.program.toList <:+: j.lead user :=
  List.infix_append_of_infix_right (List.infix_append_of_infix_right j.program_prefix_words.isInfix)

/-- It has the program with its arguments, then the flag with the file, and the identity at the
end. -/
theorem toList_commandLine (j : Job) :
    j.commandLine.toList = (" ".intercalate (j.program :: j.args)).toList ++
      ' ' :: flagged j.fileWord.toList j.identity.word := by
  have hconfig : " --config ".toList = ' ' :: configFlag := by decide
  have hshort : " run-schedule ".toList = shortFlag ++ [' '] := by decide
  simp only [commandLine, String.toList_append, hconfig, hshort]
  simp [flagged, Identity.word, identity]

end Job

/-! ## The entries of a job -/

/-- An entry of a job, at some event and with some user. -/
structure Entry.IsOf (e : Entry) (j : Job) : Prop where
  event : e.event.Reached
  identity : e.toIdentity = j.identity
  commandLine : e.commandLine = j.commandLine
  workDir : e.workDir = j.workDir

namespace Entry.IsOf

variable {e e' : Entry} {j j' : Job}

/-- So the entry of a job has a command line. -/
theorem commandLine_ne (he : e.IsOf j) : e.commandLine ≠ "" := by
  intro h
  have hlist := congrArg String.toList (he.commandLine.symm.trans h)
  simp [Job.commandLine] at hlist

/-- Its column ends like the command line. -/
theorem toList_column (he : e.IsOf j) :
    e.column.toList = (j.lead e.user ++ [' ']) ++ flagged j.fileWord.toList e.word := by
  rw [column_eq, he.commandLine, he.workDir, String.toList_append, String.toList_append,
    Job.toList_commandLine, he.identity]
  simp [Job.lead]

/-- The line of a job's entry does not end the section if its last word is a word. -/
theorem not_infix_line (he : e.IsOf j) (hline : '\n' ∉ e.column.toList) (hword : ' ' ∉ e.word) :
    ¬ OwnSection.endMarker <:+: e.line.toList := by
  have hcolumn : e.column.toList = (j.lead e.user ++ [' '] ++ configFlag ++ j.fileWord.toList ++
      shortFlag) ++ ' ' :: e.word := by
    simp [he.toList_column, flagged]
  exact not_infix_line_of_word hline hcolumn hword (by simp [Identity.word])

/-- The line of a job's entry without its line end. -/
theorem body_eq (he : e.IsOf j) :
    (timeFields e.event).toList ++ '\t' :: e.column.toList =
      ((timeFields e.event).toList ++ '\t' :: (j.lead e.user ++ [' '])) ++
        flagged j.fileWord.toList e.word := by
  simp [he.toList_column]

/-- The front of a job's line is that of a command if the program name stands in the command
column. -/
theorem isCommandFront_iff (he : e.IsOf j) :
    IsCommandFront ((timeFields e.event).toList ++ '\t' :: (j.lead e.user ++ [' '])) ↔
      "resticprofile".toList <:+: j.lead e.user := by
  constructor
  · generalize htext : (timeFields e.event).toList ++ '\t' :: (j.lead e.user ++ [' ']) = text
    rintro (@⟨c, front, mid, -, -, -⟩)
    have hinfix : "resticprofile".toList <:+: (timeFields e.event).toList ++
        '\t' :: (j.lead e.user ++ [' ']) := ⟨c :: front, mid, by simp [htext]⟩
    -- the name has neither a blank nor a tab, and its letters are not in time fields
    have htime : ¬ "resticprofile".toList <:+: (timeFields e.event).toList := by
      intro h
      obtain h | h := mem_timeFields (h.subset (by decide : 'r' ∈ "resticprofile".toList))
      · exact absurd h (by decide)
      · exact absurd h (by decide)
    have hnil : ¬ "resticprofile".toList <:+: [] := by decide
    rw [infix_append_cons_iff (by decide), infix_append_cons_iff (by decide)] at hinfix
    simpa only [htime, hnil, false_or, or_false] using hinfix
  · rintro ⟨a, b, hlead⟩
    obtain ⟨c, rest, hc, htime⟩ := exists_timeFields_eq_cons he.event
    have hshape : (timeFields e.event).toList ++ '\t' :: (j.lead e.user ++ [' ']) =
        c :: ((rest ++ '\t' :: a) ++ ("resticprofile".toList ++ (b ++ [' ']))) := by
      simp only [htime, ← hlead, List.append_assoc, List.cons_append]
    rw [hshape]
    refine .mk ?_ (by simp) (by simp)
    rintro rfl
    exact absurd hc (by decide)

/-- The file name in the line of a job's entry is that of the entry, perhaps in quotes. -/
theorem exists_fileWord_eq (he : e.IsOf j) :
    ∃ q ∈ quoteLanguage, ∃ q' ∈ quoteLanguage,
      j.fileWord.toList = q ++ (e.configFile.toList ++ q') := by
  have hfile : e.configFile = j.configFile := congrArg Identity.configFile he.identity
  rw [hfile]
  exact j.exists_fileWord_eq

/-- The flag does not stand in the word of the file, so the last flag is the one of the program. -/
theorem not_infix_fileWord (he : e.IsOf j) (ht : e.IsTellable) :
    ¬ configFlag <:+: j.fileWord.toList := by
  obtain ⟨q, hq, q', hq', hfile⟩ := he.exists_fileWord_eq
  rw [hfile]
  exact ht.not_infix_quoted hq hq'

/-- The line of a job's entry carries no identity but its own, and carries it if the program name
is in front of the flag. -/
theorem isCommand_iff (he : e.IsOf j) (ht : e.IsTellable) {i : Identity} (hi : i.IsTellable) :
    IsCommand i ((timeFields e.event).toList ++ '\t' :: e.column.toList) ↔
      i = e.toIdentity ∧ "resticprofile".toList <:+: j.lead e.user := by
  obtain ⟨p, hp, p', hp', hfile⟩ := he.exists_fileWord_eq
  rw [he.body_eq, isCommand_append_flagged_iff hi (he.not_infix_fileWord ht) ht.space_notMem_word
    (by simp [Identity.word]), he.isCommandFront_iff, and_comm]
  refine and_congr_left' ⟨?_, ?_⟩
  · rintro ⟨hword, q, hq, q', hq', hquoted⟩
    rw [hfile] at hquoted
    exact (ht.eq_of_word_eq hi hword hp hp' hq hq' hquoted).symm
  · rintro rfl
    exact ⟨rfl, p, hp, p', hp', hfile⟩

/-- Columns of jobs agree only for one identity. -/
theorem identity_eq_of_column_eq (he : e.IsOf j) (ht : e.IsTellable) (he' : e'.IsOf j')
    (ht' : e'.IsTellable) (h : e.column = e'.column) : e.toIdentity = e'.toIdentity := by
  obtain ⟨p, hp, p', hp', hfile⟩ := he.exists_fileWord_eq
  obtain ⟨q, hq, q', hq', hfile'⟩ := he'.exists_fileWord_eq
  have hcolumn := congrArg String.toList h
  rw [he.toList_column, he'.toList_column] at hcolumn
  obtain ⟨-, hquoted, hword⟩ := flagged_inj (he.not_infix_fileWord ht)
    (he'.not_infix_fileWord ht') ht.space_notMem_word ht'.space_notMem_word hcolumn
  rw [hfile, hfile'] at hquoted
  exact ht.eq_of_word_eq ht' hword hp hp' hq hq' hquoted

/-- **Which entries own the line of a job.** Those of the same identity, if the program name is in
front of the flag, and those with the same command column. -/
theorem owns_line_iff (he : e.IsOf j) (ht : e.IsTellable) (hsingle : e.IsSingleLine)
    (he' : e'.IsOf j') (ht' : e'.IsTellable) :
    e'.owns e.line.toList = true ↔
      (e'.toIdentity = e.toIdentity ∧ "resticprofile".toList <:+: j.lead e.user) ∨
        e'.column = e.column := by
  have hbody := newline_notMem_line hsingle.notMem_column
  have hcommand : e'.commandLine ≠ "" := he'.commandLine_ne
  rw [toList_line_eq_append, owns_append_newline hbody, he.isCommand_iff ht ht',
    append_mem_columnLanguage_iff he.event, String.toList_inj]
  simp only [hcommand, ne_eq, not_false_eq_true, true_and, eq_comm]

/-- An entry owns no line of a job with another identity. -/
theorem identity_eq_of_owns (he : e.IsOf j) (ht : e.IsTellable) (hsingle : e.IsSingleLine)
    (he' : e'.IsOf j') (ht' : e'.IsTellable) (h : e'.owns e.line.toList = true) :
    e'.toIdentity = e.toIdentity := by
  obtain ⟨hsame, -⟩ | hcolumn := (he.owns_line_iff ht hsingle he' ht').mp h
  · exact hsame
  · exact he'.identity_eq_of_column_eq ht' he ht hcolumn

end Entry.IsOf

/-- The jobs of the settings with each of their schedules. -/
def Settings.runs (s : Settings) : List (Job × String) :=
  s.jobs.flatMap fun j => j.schedules.map (j, ·)

/-- The entries of the settings are those of the jobs at each of their schedules, in order. -/
theorem Settings.entries_eq (s : Settings) :
    s.entries = s.runs.mapM fun r => r.1.scheduled s.crontab.user r.2 := by
  unfold entries runs
  generalize s.jobs = js
  induction js with
  | nil => rfl
  | cons j js ih =>
    rw [List.flatMap_cons, List.mapM_append, ← ih, List.mapM_map, List.mapM_cons]
    simp only [bind_assoc, pure_bind, List.flatten_cons]
    rfl

/-- A job gets an entry at a schedule that can be read. -/
theorem Job.scheduled_eq_ok_iff {j : Job} {userName : Option String} {schedule : String}
    {e : Entry} : j.scheduled userName schedule = .ok e ↔
      ∃ event, Event.parse schedule = .ok event ∧ e = j.entry event userName := by
  unfold scheduled
  cases Event.parse schedule with
  | ok event => simp [eq_comm]
  | error cause => simp

/-- The entries of all jobs come from one schedule of one job each. -/
theorem Settings.exists_isOf_of_mem_entries {s : Settings} {es : List Entry}
    (hes : s.entries = .ok es) {e : Entry} (he : e ∈ es) : ∃ j ∈ s.jobs, e.IsOf j := by
  rw [entries_eq] at hes
  obtain ⟨⟨j, schedule⟩, hrun, hscheduled⟩ := mem_of_mapM_eq_ok hes he
  obtain ⟨event, hevent, rfl⟩ := Job.scheduled_eq_ok_iff.mp hscheduled
  obtain ⟨j', hj, hmem⟩ := List.mem_flatMap.mp hrun
  obtain ⟨schedule', -, heq⟩ := List.mem_map.mp hmem
  obtain ⟨rfl, -⟩ := Prod.mk.inj heq
  exact ⟨j', hj, Event.parse_reached hevent, rfl, rfl, rfl⟩

/-- The entries of some settings: their identities can be told, and each has one line. -/
structure Settings.Makes (s : Settings) (es : List Entry) : Prop where
  entries : s.entries = .ok es
  tellable : ∀ e ∈ es, e.IsTellable
  singleLine : ∀ e ∈ es, e.IsSingleLine

namespace Settings.Makes

variable {s s' : Settings} {es es' : List Entry}

/-- The last word of a line has an at sign and so is not the last word of the end marker. -/
theorem isUnmarked (h : s.Makes es) : IsUnmarked es := by
  intro e he
  obtain ⟨j, -, hj⟩ := exists_isOf_of_mem_entries h.entries he
  exact hj.not_infix_line (h.singleLine e he).notMem_column (h.tellable e he).space_notMem_word

/-- Entries that own a line of a job have its identity. -/
theorem identity_eq_of_owns (h : s.Makes es) (h' : s'.Makes es') {e e' : Entry} (he : e ∈ es)
    (he' : e' ∈ es') (howns : e'.owns e.line.toList = true) : e'.toIdentity = e.toIdentity := by
  obtain ⟨j, -, hj⟩ := exists_isOf_of_mem_entries h.entries he
  obtain ⟨j', -, hj'⟩ := exists_isOf_of_mem_entries h'.entries he'
  exact hj.identity_eq_of_owns (h.tellable e he) (h.singleLine e he) hj' (h'.tellable e' he') howns

end Settings.Makes

end Timetable
