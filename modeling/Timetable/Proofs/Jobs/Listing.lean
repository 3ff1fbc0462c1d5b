import Timetable.Proofs.Cron.Listing
import Timetable.Proofs.Cron.Update
import Timetable.Proofs.Jobs.Entry

/-!
Installed jobs are listed.

The line of a job is read as it was written: its time fields, its user and its
working directory, its command line, and the identity in it. One thing cannot be
told from the line: where a working directory ends if the command line goes on
like the mark behind it. Apart from that, the section after an installation is
read as what was left in it, and then the entries of the jobs in their order.
-/

set_option autoImplicit false

namespace Timetable

open Text Cron OwnSection

/-- Behind its first character the mark of a working directory does not stand again, unless the
command goes on like it. -/
theorem not_infix_join_tail {command : List Char} (hnone : ¬ " && ".toList <:+: command)
    (hapart : ¬ "&& ".toList <+: command) :
    ¬ " && ".toList <:+: (" && ".toList ++ command).tail := by
  have htail : (" && ".toList ++ command).tail = '&' :: '&' :: ' ' :: command := rfl
  have hmark : " && ".toList = ' ' :: "&& ".toList := rfl
  have hne : (' ' : Char) ≠ '&' := by decide
  rw [htail, List.infix_cons_iff, List.infix_cons_iff, List.infix_cons_iff]
  simp only [hmark, List.cons_prefix_cons, hne, false_and, false_or, true_and]
  exact not_or.mpr ⟨hapart, hnone⟩

/-! ## Jobs whose lines can be read -/

/-- A job whose parts are what a line can tell: a file name without quotes that does not mention
the flag, a command and a profile that are words, a program that begins the command line and is set
off by blanks, and no line ends. -/
structure Job.IsReadable (j : Job) : Prop where
  file_ne : j.configFile ≠ ""
  unquoted : '"' ∉ j.configFile.toList
  noFlag : ¬ "--config".toList <:+: j.configFile.toList
  profile_ne : j.profile ≠ ""
  profile : ∀ c ∈ j.profile.toList, isBlank c = false ∧ c ≠ '@'
  command_ne : j.command ≠ ""
  command : ∀ c ∈ j.command.toList, isBlank c = false
  program_ne : j.program ≠ ""
  program : ∀ c ∈ j.program.toList.head?, isBlank c = false
  noTab : '\t' ∉ j.program.toList
  commandLine : '\n' ∉ j.commandLine.toList
  noJoin : ¬ " && ".toList <:+: j.commandLine.toList
  workDir : '\n' ∉ j.workDir.toList

/-- A command line that does not go on like the mark behind a working directory, if there is
one. -/
def Job.IsApart (j : Job) : Prop :=
  j.workDir = "" ∨ ¬ "&& ".toList <+: j.commandLine.toList

instance (j : Job) : Decidable j.IsApart :=
  inferInstanceAs (Decidable (_ ∨ _))

namespace Job.IsReadable

variable {j : Job}

/-- The identity of a readable job has no blanks, so it is one word on its command line. -/
theorem isBlank_of_mem_word (hj : j.IsReadable) {c : Char} (hc : c ∈ j.identity.word) :
    isBlank c = false := by
  obtain hc | hc := List.mem_append.mp hc
  · exact hj.command c hc
  · obtain rfl | hc := List.mem_cons.mp hc
    · decide
    · exact (hj.profile c hc).1

/-- In particular it has no space, where the reader stops. -/
theorem space_notMem_word (hj : j.IsReadable) : ' ' ∉ j.identity.word :=
  fun h => absurd (hj.isBlank_of_mem_word h) (by decide)

/-- The command line begins with the program, and a blank comes behind it. -/
theorem exists_eq_program_append (j : Job) :
    ∃ b, j.commandLine.toList = j.program.toList ++ ' ' :: b := by
  rw [Job.toList_commandLine, String.toList_intercalate]
  cases j.args with
  | nil => exact ⟨_, by simp; rfl⟩
  | cons a as => exact ⟨_, by simp [List.intercalate_cons_cons]; rfl⟩

/-! ## The identity -/

/-- The command line of a readable job begins with a character that is no blank. -/
theorem exists_lead_eq_cons (hj : j.IsReadable) :
    ∃ c rest, isBlank c = false ∧ (" ".intercalate (j.program :: j.args)).toList = c :: rest := by
  have hne : j.program.toList ≠ [] := fun h => hj.program_ne (String.toList_eq_nil_iff.mp h)
  obtain ⟨c, p, hp⟩ := List.exists_cons_of_ne_nil hne
  have hc : isBlank c = false := hj.program c (by rw [hp]; rfl)
  obtain ⟨rest, hwords⟩ := j.program_prefix_words
  exact ⟨c, p ++ rest, hc, by rw [← hwords, hp]; rfl⟩

/-- Profile and command are read from the last word. -/
theorem shortTail?_word (hj : j.IsReadable) :
    shortTail? ("run-schedule ".toList ++ j.identity.word) =
      some (j.profile.toList, j.command.toList) := by
  have hcommand : j.command.toList ≠ [] := fun h =>
    hj.command_ne (String.toList_eq_nil_iff.mp h)
  have hprofile : j.profile.toList ≠ [] := fun h =>
    hj.profile_ne (String.toList_eq_nil_iff.mp h)
  have hat : '@' ∉ j.profile.toList := fun h => absurd rfl (hj.profile _ h).2
  exact shortTail?_eq_some hcommand hprofile (fun c hc => hj.isBlank_of_mem_word hc) hat

/-- **The identity of a job is read from its command line.** -/
theorem identity?_commandLine (hj : j.IsReadable) :
    identity? shortTail? j.commandLine.toList = some j.identity := by
  obtain ⟨c, rest, hc, hlead⟩ := hj.exists_lead_eq_cons
  obtain ⟨q, hq, q', hq', hfile⟩ := j.exists_fileWord_eq
  have hne : j.configFile.toList ≠ [] := fun h => hj.file_ne (String.toList_eq_nil_iff.mp h)
  have hcommand : j.commandLine.toList = (c :: (rest ++ [' '])) ++ (flagMark ++ ' ' ::
      (q ++ (j.configFile.toList ++ (q' ++ ' ' :: ("run-schedule ".toList ++
        j.identity.word))))) := by
    have hflag : configFlag = flagMark ++ [' '] := by decide
    have hshort : shortFlag ++ ' ' :: j.identity.word =
        ' ' :: ("run-schedule ".toList ++ j.identity.word) := rfl
    rw [Job.toList_commandLine, hlead, flagged, hflag, hfile, hshort]
    simp
  have hname : (j.configFile.toList, "run-schedule ".toList ++ j.identity.word) ∈ configCuts
      (q ++ (j.configFile.toList ++ (q' ++ ' ' :: ("run-schedule ".toList ++ j.identity.word)))) :=
    mem_configCuts.mpr ⟨hne, hj.unquoted, q, hq, q', hq', rfl⟩
  have hends : EndsInWord j.identity.word j.commandLine.toList :=
    ⟨(c :: (rest ++ [' '])) ++ (flagMark ++ ' ' :: (q ++ (j.configFile.toList ++ (q' ++
      " run-schedule".toList)))), by rw [hcommand]; simp⟩
  -- something is read, and then it is what was meant
  have hreads : identity? shortTail? j.commandLine.toList ≠ none := by
    rw [hcommand]
    refine identity?_ne_none hc (by simp) hname ?_
    rw [hj.shortTail?_word]
    exact Option.some_ne_none _
  obtain ⟨i, hi⟩ := Option.ne_none_iff_exists'.mp hreads
  obtain ⟨hsame, hform⟩ := identity?_spec hne hj.unquoted hj.noFlag hq hq' hcommand
    (fun r t hr hread => hends.shortTail?_of_suffix hj.space_notMem_word hr hread)
    (List.suffix_refl _) hi
  have hparts := Option.some.inj (hj.shortTail?_word.symm.trans hform)
  obtain ⟨hprofile, hcommand'⟩ := Prod.mk.inj hparts
  obtain rfl : i = j.identity :=
    Identity.eq_of_toList_eq hsame hprofile.symm hcommand'.symm
  exact hi

/-! ## The parts of a line -/

/-- What comes behind the user begins with a word that no tab follows. -/
theorem exists_column_eq (hj : j.IsReadable) :
    ∃ a b, (Entry.workDirText j.workDir).toList ++ j.commandLine.toList = a ++ ' ' :: b ∧
      '\t' ∉ a ∧ ∃ c t, a = c :: t ∧ isBlank c = false := by
  obtain ⟨b, hb⟩ := exists_eq_program_append j
  rw [Entry.workDirText]
  split
  · have hne : j.program.toList ≠ [] := fun h => hj.program_ne (String.toList_eq_nil_iff.mp h)
    obtain ⟨c, p, hp⟩ := List.exists_cons_of_ne_nil hne
    exact ⟨j.program.toList, b, hb, hj.noTab, c, p, hp, hj.program c (by rw [hp]; rfl)⟩
  · exact ⟨"cd".toList, j.workDir.toList ++ (" && ".toList ++ j.commandLine.toList), by simp,
      by decide, 'c', ['d'], rfl, by decide⟩

/-- Reading the user column of what is written for a job: the first way to cut it has the user that
was written. -/
theorem exists_userCuts (hj : j.IsReadable) {user : String}
    (huser : ∀ c ∈ user.toList, isBlank c = false) (hcurrent : user ≠ Entry.currentUser) :
    ∃ more, userCuts ((Entry.userText user).toList ++
        ((Entry.workDirText j.workDir).toList ++ j.commandLine.toList)) =
      (user.toList, (Entry.workDirText j.workDir).toList ++ j.commandLine.toList) :: more := by
  obtain ⟨a, b, hshape, htab, c, t, rfl, hc⟩ := hj.exists_column_eq
  rw [hshape]
  obtain rfl | hne := eq_or_ne user ""
  · exact ⟨[], by simpa [Entry.userText] using userCuts_eq_singleton htab⟩
  · have hlist : user.toList ≠ [] := fun h => hne (String.toList_eq_nil_iff.mp h)
    have htext : (Entry.userText user).toList = user.toList ++ ['\t'] := by
      simp [Entry.userText, hne, hcurrent]
    obtain ⟨more, hcuts⟩ := exists_userCuts_eq_cons (s := c :: t ++ ' ' :: b) hlist huser
      (by rintro _ ⟨rfl⟩; exact hc)
    exact ⟨more, by rw [htext, List.append_assoc, List.singleton_append, hcuts]⟩

/-- Reading the change of directory: the first way to cut it has the directory that was written.
This is where `IsApart` is needed, because the reader takes as much as it can. -/
theorem exists_workDirCuts (hj : j.IsReadable) (hapart : j.IsApart) :
    ∃ more, workDirCuts ((Entry.workDirText j.workDir).toList ++ j.commandLine.toList) =
      (j.workDir.toList, j.commandLine.toList) :: more := by
  rw [Entry.workDirText]
  split
  · next hempty =>
    have hdir : j.workDir = "" := by simpa using hempty
    exact ⟨[], by simpa [hdir] using workDirCuts_eq_singleton hj.noJoin⟩
  · next hempty =>
    have hdir : j.workDir ≠ "" := by simpa using hempty
    have hlist : j.workDir.toList ≠ [] := fun h => hdir (String.toList_eq_nil_iff.mp h)
    have hlast := not_infix_join_tail hj.noJoin (hapart.resolve_left hdir)
    obtain ⟨more, hcuts⟩ := exists_workDirCuts_eq_cons hlist hlast
    exact ⟨more, by simpa using hcuts⟩

end Job.IsReadable

/-- An entry of a job that can be read, with a user that is a word or none. -/
structure Entry.IsReadable (e : Entry) (j : Job) : Prop extends e.IsOf j where
  job : j.IsReadable
  user : ∀ c ∈ e.user.toList, isBlank c = false
  named : e.user ≠ Entry.currentUser

namespace Entry.IsReadable

variable {e : Entry} {j : Job}

/-- The command column is the user, the change of directory and the command line, one behind
another. -/
theorem toList_column_eq (he : e.IsReadable j) :
    e.column.toList = (userText e.user).toList ++
      ((workDirText j.workDir).toList ++ j.commandLine.toList) := by
  rw [column_eq, he.commandLine, he.workDir, String.toList_append, String.toList_append]

/-- The same for the word of an entry, which is that of its job. -/
theorem isBlank_of_mem_word (he : e.IsReadable j) {c : Char} (hc : c ∈ e.word) :
    isBlank c = false := by
  rw [he.identity] at hc
  exact he.job.isBlank_of_mem_word hc

/-- An entry's word has no space, either. -/
theorem space_notMem_word (he : e.IsReadable j) : ' ' ∉ e.word :=
  fun h => absurd (he.isBlank_of_mem_word h) (by decide)

/-- A readable entry has no line end in any of its strings, so it is written as one line. -/
theorem isSingleLine (he : e.IsReadable j) : e.IsSingleLine := by
  have hword : '\n' ∉ e.word := fun h => absurd (he.isBlank_of_mem_word h) (by decide)
  have hfile : '\n' ∉ e.configFile.toList := by
    obtain ⟨q, -, q', -, hfile⟩ := he.exists_fileWord_eq
    have hline := he.job.commandLine
    rw [Job.toList_commandLine, flagged, hfile] at hline
    simp only [List.mem_append, List.mem_cons, not_or] at hline
    exact hline.2.2.2.1.2.1
  have huser : '\n' ∉ e.user.toList := fun h => absurd (he.user _ h) (by decide)
  -- the file stands quoted or bare on the command line, and the identity behind it
  simp only [IsSingleLine, strings, List.mem_cons, List.not_mem_nil, or_false, forall_eq_or_imp,
    forall_eq, he.commandLine, he.workDir]
  simp only [Identity.word, List.mem_append, List.mem_cons, not_or] at hword
  exact ⟨hfile, hword.2.2, hword.1, he.job.commandLine, he.job.workDir, huser⟩

/-- The command column begins with a word. -/
theorem isBlank_head_column (he : e.IsReadable j) :
    ∀ c ∈ e.column.toList.head?, isBlank c = false := by
  obtain ⟨a, b, hshape, -, c, t, rfl, hc⟩ := he.job.exists_column_eq
  rw [he.toList_column_eq, hshape, userText]
  -- the column begins with the user if one is written, and with the command otherwise
  split
  · next hwritten =>
    have hne : e.user.toList ≠ [] := by
      intro h
      simp [String.toList_eq_nil_iff.mp h] at hwritten
    obtain ⟨d, u, hd⟩ := List.exists_cons_of_ne_nil hne
    rw [String.toList_append, hd]
    rintro _ ⟨rfl⟩
    exact he.user d (by simp [hd])
  · rintro _ ⟨rfl⟩
    exact hc

/-- There is one way to cut the time fields off a written line: they end at the tab. -/
theorem timeCuts_line (he : e.IsReadable j) :
    timeCuts ((timeFields e.event).toList ++ '\t' :: e.column.toList) =
      [((timeFields e.event).toList, '\t' :: e.column.toList)] := by
  obtain ⟨f₁, f₂, f₃, f₄, f₅, ⟨h₁, h₂, h₃, h₄, h₅⟩, htext⟩ := exists_timeFields he.event
  rw [htext]
  simpa using timeCuts_append h₁ h₂ h₃ h₄ h₅ he.isBlank_head_column

/-- A written line is not taken for one of the long form. -/
theorem read?_longTail? (he : e.IsReadable j) :
    LineParts.read? longTail? ((timeFields e.event).toList ++ '\t' :: e.column.toList) = none := by
  have hends : EndsInWord e.word ((timeFields e.event).toList ++ '\t' :: e.column.toList) :=
    ⟨(timeFields e.event).toList ++ '\t' :: (j.lead e.user ++ [' '] ++ configFlag ++
      j.fileWord.toList ++ shortFlag), by simp [he.toList_column, flagged]⟩
  exact hends.read?_longTail?_eq_none he.space_notMem_word (by simp [Identity.word])

/-- A written line is read as the short form, with all parts as they were written. -/
theorem read?_shortTail? (he : e.IsReadable j) (hapart : j.IsApart) :
    LineParts.read? shortTail? ((timeFields e.event).toList ++ '\t' :: e.column.toList) =
      some ⟨(timeFields e.event).toList, e.user.toList, e.workDir.toList, e.commandLine.toList,
        e.toIdentity⟩ := by
  obtain ⟨users, husers⟩ := he.job.exists_userCuts he.user he.named
  obtain ⟨dirs, hdirs⟩ := he.job.exists_workDirCuts hapart
  rw [← he.toList_column_eq] at husers
  have htab : ('\t' :: e.column.toList).dropWhile (· == '\t') = e.column.toList := by
    rw [List.dropWhile_cons_of_pos (by rfl), dropWhile_tab_eq_self he.isBlank_head_column]
  rw [LineParts.read?, he.timeCuts_line, he.workDir, he.commandLine, he.identity]
  simp only [List.findSome?_cons, htab, husers, hdirs, he.job.identity?_commandLine,
    Option.map_some]

/-- **The line of a job is read as it was written.** -/
theorem exists_readLine (he : e.IsReadable j) (hapart : j.IsApart) :
    ∃ r, readLine ((timeFields e.event).toList ++ '\t' :: e.column.toList) = .ok (some r) ∧
      r.IsReadOf e := by
  have hline : ((timeFields e.event).toList ++ '\t' :: e.column.toList).contains '\n' = false := by
    simpa using newline_notMem_line he.isSingleLine.notMem_column
  obtain ⟨event, hevent, hread⟩ := exists_readFields_timeFields he.event
  rw [readLine, LineParts.of?, hline, he.read?_longTail?, he.read?_shortTail? hapart]
  simp only [Bool.false_eq_true, if_false, Option.none_or, hevent]
  refine ⟨_, rfl, rfl, hread, ?_, ?_, ?_⟩
  all_goals exact String.ofList_toList

/-- The command column ends with the last character of the profile. -/
theorem exists_column_eq_concat (he : e.IsReadable j) :
    ∃ x c, e.column.toList = x ++ [c] ∧ isBlank c = false := by
  have hword : e.word ≠ [] := by simp [Identity.word]
  have hlast := he.isBlank_of_mem_word (List.getLast_mem hword)
  refine ⟨j.lead e.user ++ [' '] ++ configFlag ++ j.fileWord.toList ++ shortFlag ++ ' ' ::
    e.word.dropLast, e.word.getLast hword, ?_, hlast⟩
  rw [List.append_assoc, List.cons_append, List.dropLast_append_getLast]
  simp [he.toList_column, flagged]

/-- **A written line has one entry**, and it is read as it was written. -/
theorem exists_lineEntries_eq (he : e.IsReadable j) (hapart : j.IsApart) :
    ∃ r, lineEntries ((timeFields e.event).toList ++ '\t' :: e.column.toList) = [r] ∧
      r.IsReadOf e := by
  obtain ⟨r, hread, hr⟩ := he.exists_readLine hapart
  obtain ⟨x, c, hcolumn, hc⟩ := he.exists_column_eq_concat
  exact ⟨r, lineEntries_eq he.event hcolumn hc hread, hr⟩

end Entry.IsReadable

/-! ## The section after an installation -/

/-- The section of a crontab into which entries have been put is read as what was left in it, and
then as these entries, in their order. -/
def Cron.ListsBack (es : List Entry) (t : List Char) : Prop :=
  ∃ o rs, find? (update es true t).1 = some o ∧
    readSection o.body = readSection (Entry.removeAll es (ofText t).body).1 ++ rs ∧
    List.Forall₂ Entry.IsReadOf rs es

/-- Written lines are read as their entries, one by one. -/
theorem forall₂_readSection {es : List Entry}
    (hes : ∀ e ∈ es, ∃ j, e.IsReadable j ∧ j.IsApart) :
    List.Forall₂ Entry.IsReadOf (readSection (Entry.linesOf es).toList) es := by
  have hsingle : ∀ e ∈ es, e.IsSingleLine := fun e he => by
    obtain ⟨j, hj, -⟩ := hes e he
    exact hj.isSingleLine
  rw [readSection_linesOf hsingle]
  clear hsingle
  -- line by line, because each line is read by itself
  induction es with
  | nil => exact .nil
  | cons e es ih =>
    obtain ⟨j, hj, hapart⟩ := hes e (by simp)
    obtain ⟨r, hr, hread⟩ := hj.exists_lineEntries_eq hapart
    rw [List.flatMap_cons, hr, List.singleton_append]
    exact .cons hread (ih fun e' he' => hes e' (by simp [he']))

namespace Settings

variable {s : Settings} {es : List Entry}

/-- **Installed jobs are listed.** After an update with the entries of jobs that can be read, the
section lists what it listed of the lines that were left, and then every entry, if no command line
goes on like the mark behind its working directory. -/
theorem listsBack (hes : s.entries = .ok es) (hjobs : ∀ j ∈ s.jobs, j.IsReadable ∧ j.IsApart)
    (husers : ∀ e ∈ es, (∀ c ∈ e.user.toList, isBlank c = false) ∧ e.user ≠ Entry.currentUser)
    {t : List Char} (ht : IsTidy t) : ListsBack es t := by
  have hreadable : ∀ e ∈ es, ∃ j, e.IsReadable j ∧ j.IsApart := by
    intro e he
    obtain ⟨j, hmem, hj⟩ := exists_isOf_of_mem_entries hes he
    exact ⟨j, ⟨hj, (hjobs j hmem).1, (husers e he).1, (husers e he).2⟩, (hjobs j hmem).2⟩
  have hun : IsUnmarked es := fun e he => by
    obtain ⟨j, hj, -⟩ := hreadable e he
    exact hj.not_infix_line hj.isSingleLine.notMem_column hj.space_notMem_word
  exact ⟨_, _, find?_update hun true ht.isProper,
    readSection_append (endsLine_removeAll es ht.endsLine) _, forall₂_readSection hreadable⟩

/-- A job with a file name in quotes, flags, a working directory, a user and two schedules. -/
def nightly : Settings :=
  { scheduler := "crontab:tab"
    jobs := [{ configFile := "my profiles.toml", profile := "home", command := "backup",
               program := "nice resticprofile", args := ["--no-ansi"], workDir := "/srv && x",
               user := "root", schedules := ["*:5", "Mon..Fri 12:30"] }] }

def nightlyEntries : List Entry :=
  [{ minute := .ofList [5], second := .ofList [0] },
    { weekday := .ofList [1, 2, 3, 4, 5], hour := .ofList [12], minute := .ofList [30],
      second := .ofList [0] }].map fun event =>
    { configFile := "my profiles.toml", profile := "home", command := "backup", event,
      commandLine :=
        "nice resticprofile --no-ansi --config \"my profiles.toml\" run-schedule backup@home"
      workDir := "/srv && x", user := "root" }

/-- Both schedules are listed. -/
theorem listsBack_nightly : ListsBack nightlyEntries [] := by
  have hjobs : ∀ j ∈ nightly.jobs, j.IsReadable ∧ j.IsApart := by
    simp only [nightly, List.mem_singleton, forall_eq]
    exact ⟨by constructor <;> decide +kernel, by decide⟩
  have hes : nightly.entries = .ok nightlyEntries := by decide
  exact listsBack hes hjobs (by decide) (.inl (by decide))

/-- A job whose command line goes on like the mark behind the working directory. -/
def joined : Settings :=
  { scheduler := "crontab:tab"
    jobs := [{ configFile := "c", profile := "p", command := "k", program := "&& x",
               workDir := "d", schedules := ["*:5"] }] }

def joinedEntry : Entry :=
  { configFile := "c", profile := "p", command := "k",
    event := { minute := .ofList [5], second := .ofList [0] },
    commandLine := "&& x --config c run-schedule k@p", workDir := "d" }

/-- Such a job is listed with the beginning of its command line as a part of the directory. -/
theorem listsBack_joined :
    joined.entries = .ok [joinedEntry] ∧ (∀ j ∈ joined.jobs, j.IsReadable) ∧
      joinedEntry.user = "" ∧ IsTidy [] ∧ ¬ ListsBack [joinedEntry] [] := by
  have hreadable : ∀ j ∈ joined.jobs, j.IsReadable := by
    simp only [joined, List.mem_singleton, forall_eq]
    constructor <;> decide
  -- the reader takes the first word of the command line for the end of the directory
  have hlisted : (find? (update [joinedEntry] true []).1).map (readSection ·.body) =
      some [{ joinedEntry with
        workDir := "d &&", commandLine := "x --config c run-schedule k@p" }] := by decide
  refine ⟨by decide, hreadable, rfl, .inl (by decide), ?_⟩
  rintro ⟨o, rs, hfind, hread, hall⟩
  have hold : readSection (Entry.removeAll [joinedEntry] (ofText []).body).1 = [] := by
    decide
  rw [hfind, Option.map_some, hread, hold, List.nil_append] at hlisted
  obtain rfl := Option.some.inj hlisted
  obtain ⟨hfirst, -⟩ := List.forall₂_cons.mp hall
  exact absurd hfirst.workDir (by decide)

end Settings

end Timetable
