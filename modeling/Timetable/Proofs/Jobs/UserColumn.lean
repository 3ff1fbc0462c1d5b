import Timetable.Proofs.Cron.UserColumn
import Timetable.Proofs.Jobs.Entry

/-!
The user column in the lines of jobs.

The command of a job begins with its program, or with the change into its working
directory. Either way a single blank stands behind the first word, if what comes
next does not begin with a blank itself. So the columns of the lines of jobs can be
counted, and what is written is recognised: lines that all have users have a user
column, and lines without any have none.
-/

set_option autoImplicit false

namespace Timetable

open Text Cron

/-- A job whose parts are set off by single blanks: its program is a word, none of its flags is
empty, and neither a flag nor the working directory begins with a blank. -/
structure Job.IsSpaced (j : Job) : Prop where
  program : IsWord j.program.toList
  args : ∀ a ∈ j.args, a ≠ "" ∧ IsFlush a.toList
  workDir : IsFlush j.workDir.toList

namespace Job.IsSpaced

variable {j : Job}

/-- Behind the first of some words there is a single blank, and behind that the next one. -/
theorem exists_words_eq (program a : String) (as : List String) :
    ∃ s, (" ".intercalate (program :: a :: as)).toList =
      program.toList ++ ' ' :: (a.toList ++ s) := by
  rw [String.toList_intercalate]
  cases as with
  | nil => exact ⟨[], by simp [List.intercalate_cons_cons]⟩
  | cons b bs => exact ⟨_, by simp [List.intercalate_cons_cons]; rfl⟩

/-- Behind the program there is a single blank. -/
theorem exists_commandLine_eq (hj : j.IsSpaced) :
    ∃ s, IsFlush s ∧ j.commandLine.toList = j.program.toList ++ ' ' :: s := by
  rw [Job.toList_commandLine]
  -- what follows the program is its first flag, or the one for the configuration file
  cases hargs : j.args with
  | nil =>
    have hflag : IsFlush configFlag := by decide
    refine ⟨flagged j.fileWord.toList j.identity.word, hflag.append (by decide) _, ?_⟩
    simp
  | cons a as =>
    obtain ⟨hne, hflush⟩ := hj.args a (by simp [hargs])
    obtain ⟨s, hwords⟩ := exists_words_eq j.program a as
    refine ⟨a.toList ++ (s ++ ' ' :: flagged j.fileWord.toList j.identity.word),
      hflush.append (by simpa using hne) _, ?_⟩
    rw [hwords]
    simp

end Job.IsSpaced

namespace Entry.IsOf

variable {e : Entry} {j : Job}

/-- The entries of a job are set off like the job. -/
theorem isSpaced (he : e.IsOf j) (hj : j.IsSpaced) : e.IsSpaced := by
  rw [Entry.IsSpaced, commandText, he.workDir, he.commandLine, String.toList_append]
  by_cases hdir : j.workDir = ""
  · obtain ⟨s, hs, hcommand⟩ := hj.exists_commandLine_eq
    refine ⟨j.program.toList, s, hj.program, hs, ?_⟩
    simp [workDirText, hdir, hcommand]
  -- with a working directory the first word is `cd`
  · have hcd : IsWord "cd".toList := ⟨by decide, by decide⟩
    have hspace : "cd ".toList = "cd".toList ++ [' '] := by decide
    refine ⟨"cd".toList, j.workDir.toList ++ (" && ".toList ++ j.commandLine.toList), hcd,
      hj.workDir.append (by simpa using hdir) _, ?_⟩
    simp [workDirText, hdir, hspace]

/-- So their lines are counted for what they are. -/
theorem isCounted (he : e.IsOf j) (hj : j.IsSpaced) (hsingle : e.IsSingleLine)
    (huser : e.user = "" ∨ Entry.IsColumnName e.user) : e.IsCounted :=
  ⟨he.event, hsingle, huser, he.isSpaced hj⟩

end Entry.IsOf

namespace Job

variable {es : List Entry} {t : List Char}

/-- **The user column is recognised in what is written.** The lines of jobs, with the markers around
them or without, have a user column exactly if more than three entries in four have a user. So they
have one if all entries have users, and none if no entry has. -/
theorem hasUserColumn_linesOf (hne : es ≠ [])
    (hes : ∀ e ∈ es, e.IsSingleLine ∧ (e.user = "" ∨ Entry.IsColumnName e.user) ∧
      ∃ j, e.IsOf j ∧ j.IsSpaced)
    (ht : t = (Entry.linesOf es).toList ∨
      t = OwnSection.startMarker ++ (Entry.linesOf es).toList ++ OwnSection.endMarker) :
    (hasUserColumn t = true ↔ 3 * es.length < 4 * es.countP (·.hasUser)) ∧
      ((∀ e ∈ es, e.hasUser = true) → hasUserColumn t = true) ∧
      ((∀ e ∈ es, e.hasUser = false) → hasUserColumn t = false) := by
  have hcounted : ∀ e ∈ es, e.IsCounted := by
    intro e he
    obtain ⟨hsingle, huser, j, hj, hspaced⟩ := hes e he
    exact hj.isCounted hspaced hsingle huser
  have hverdict := Entry.hasUserColumn_linesOf_iff hcounted ht
  refine ⟨hverdict, fun hall => ?_, fun hnone => ?_⟩
  -- if all have users, four times their number is more than three times
  · have hlength : 0 < es.length := List.length_pos_iff.mpr hne
    rw [hverdict, List.countP_eq_length.mpr hall]
    omega
  · have hcount : es.countP (·.hasUser) = 0 :=
      List.countP_eq_zero.mpr fun e he => by simp [hnone e he]
    rw [Bool.eq_false_iff, ne_eq, hverdict, hcount]
    omega

/-- A job with a flag and one with a working directory: with a user for each, and without users. -/
theorem hasUserColumn_linesOf_pair :
    let job (user : String) : Job :=
      { configFile := "a b", profile := "home", command := "backup", args := ["-v"], user }
    let job' (user : String) : Job :=
      { configFile := "c", profile := "work", command := "check", workDir := "/my data", user }
    let es (user : String) : List Entry :=
      [(job user).entry .anytime none, (job' user).entry .anytime none]
    hasUserColumn (OwnSection.startMarker ++ (Entry.linesOf (es "root")).toList ++
        OwnSection.endMarker) = true ∧
      hasUserColumn (Entry.linesOf (es "")).toList = false := by
  intro job job' es
  have hprogram : IsWord "resticprofile".toList := ⟨by decide, by decide⟩
  have hflags : ∀ a ∈ ["-v"], a ≠ "" ∧ IsFlush a.toList := by decide
  have hdir : IsFlush "/my data".toList := by decide
  have hjob (user : String) : (job user).IsSpaced := ⟨hprogram, hflags, nofun⟩
  have hjob' (user : String) : (job' user).IsSpaced := ⟨hprogram, nofun, hdir⟩
  have hplain : ∀ user ∈ ["root", ""], ∀ e ∈ es user,
      e.IsSingleLine ∧ (e.user = "" ∨ Entry.IsColumnName e.user) := by
    decide
  have hes : ∀ user ∈ ["root", ""], ∀ e ∈ es user,
      e.IsSingleLine ∧ (e.user = "" ∨ Entry.IsColumnName e.user) ∧
        ∃ j, e.IsOf j ∧ j.IsSpaced := by
    intro user huser e he
    obtain ⟨hsingle, hname⟩ := hplain user huser e he
    refine ⟨hsingle, hname, ?_⟩
    obtain rfl | he := List.mem_cons.mp he
    · exact ⟨job user, ⟨Event.reached_anytime, rfl, rfl, rfl⟩, hjob user⟩
    · obtain rfl := List.mem_singleton.mp he
      exact ⟨job' user, ⟨Event.reached_anytime, rfl, rfl, rfl⟩, hjob' user⟩
  obtain ⟨-, hall, -⟩ := hasUserColumn_linesOf (by simp [es]) (hes "root" (by decide)) (.inr rfl)
  obtain ⟨-, -, hnone⟩ := hasUserColumn_linesOf (by simp [es]) (hes "" (by decide)) (.inl rfl)
  exact ⟨hall (by decide), hnone (by decide)⟩

end Job

end Timetable
