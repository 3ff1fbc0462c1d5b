import Mathlib.Data.List.TakeWhile
import Timetable.Proofs.Cron.Listing
import Timetable.Proofs.Cron.Ownership

/-!
Comments and removal.

For the reader of a section and for the daemon a line is a comment if its first
character that is no blank is a number sign. Removal looks at the very first
character of a line only. So a comment that begins with its number sign stays,
and one that is indented stays unless a command behind the number sign carries
the identity of the entry: the indentation is taken for the time fields of a job.
-/

set_option autoImplicit false

namespace Timetable

open Text Cron

/-! ## What a comment is -/

/-- A commented-out line: the first character that is no blank is a number sign. -/
def IsComment (l : List Char) : Prop :=
  (trimStart l).head? = some '#'

instance (l : List Char) : Decidable (IsComment l) :=
  inferInstanceAs (Decidable ((trimStart l).head? = some '#'))

/-- A comment is some indentation, a number sign, and the text behind it. -/
theorem isComment_iff {l : List Char} :
    IsComment l ↔ ∃ ind x, (∀ c ∈ ind, isBlank c = true) ∧ l = ind ++ '#' :: x := by
  unfold IsComment trimStart
  constructor
  · intro h
    obtain ⟨x, hx⟩ := List.head?_eq_some_iff.mp h
    refine ⟨l.takeWhile isBlank, x, fun c hc => List.mem_takeWhile_imp hc, ?_⟩
    rw [← hx, List.takeWhile_append_dropWhile]
  · rintro ⟨ind, x, hind, rfl⟩
    rw [List.dropWhile_append_of_pos hind, List.dropWhile_cons_of_neg (by decide)]
    rfl

/-- A line end does not make a comment of a line. -/
theorem isComment_append_newline_iff {w : List Char} : IsComment (w ++ ['\n']) ↔ IsComment w := by
  unfold IsComment trimStart
  rw [List.dropWhile_append]
  split
  · next h => simp [List.isEmpty_iff.mp h, isBlank]
  · next h =>
    rw [List.isEmpty_iff] at h
    rw [List.head?_append_of_ne_nil _ h]

/-- The number sign that begins a comment is not taken for a trailing blank. -/
theorem trim_of_isComment {l : List Char} (h : IsComment l) : ∃ x, trim l = '#' :: x := by
  obtain ⟨x, hx⟩ := List.head?_eq_some_iff.mp h
  unfold trim trimEnd
  rw [hx, List.reverse_cons, List.dropWhile_append]
  split
  · exact ⟨[], rfl⟩
  · exact ⟨_, by rw [List.reverse_append]; rfl⟩

/-- **The reader passes over comments**, indented or not. -/
theorem lineEntries_of_isComment {l : List Char} (h : IsComment l) : lineEntries l = [] := by
  obtain ⟨x, hx⟩ := trim_of_isComment h
  unfold lineEntries
  rw [hx]
  exact if_pos rfl

namespace Entry

variable {e : Entry} {i : Identity}

/-! ## Comments that are owned -/

/-- A text without the first letter of the program can be put in front of a command that carries
an identity, and taken away again. -/
theorem carries_append_iff {s x : List Char} (hs : 'r' ∉ s) : Carries i (s ++ x) ↔ Carries i x := by
  constructor
  · generalize hw : s ++ x = w
    intro h
    cases h with
    | @mk front mid q q' form hmid hq hq' hform =>
      rcases List.append_eq_append_iff.mp hw with ⟨k, rfl, rfl⟩ | ⟨k, rfl, hk⟩
      · exact .mk hmid hq hq' hform
      -- the program would begin within the text in front
      · rcases k with _ | ⟨c, k⟩
        · rw [List.nil_append] at hk
          rw [← hk]
          exact @Carries.mk i [] mid q q' form hmid hq hq' hform
        · obtain ⟨rfl, -⟩ := List.cons.inj hk
          exact absurd (List.mem_append_right front List.mem_cons_self) hs
  · intro h
    cases h with
    | mk hmid hq hq' hform =>
      rw [← List.append_assoc]
      exact .mk hmid hq hq' hform

/-- The command column of an entry stands behind time fields, which begin the line. -/
theorem exists_cons_of_mem_columnLanguage {w : List Char} (h : w ∈ e.columnLanguage) :
    ∃ c r, isTimeChar c = true ∧ w = c :: r := by
  rcases h with ⟨f, ⟨hne, hf⟩, r, -, rfl⟩
  obtain ⟨c, f, rfl⟩ := List.exists_cons_of_ne_nil hne
  exact ⟨c, f ++ r, hf c List.mem_cons_self, rfl⟩

/-- A comment does not have the command column of an entry: neither a blank nor a number sign
begins a time field. -/
theorem notMem_columnLanguage_of_isComment {w : List Char} (h : IsComment w) :
    w ∉ e.columnLanguage := by
  intro hcolumn
  obtain ⟨c, r, hc, rfl⟩ := exists_cons_of_mem_columnLanguage hcolumn
  unfold IsComment trimStart at h
  rw [List.dropWhile_cons_of_neg (by simp [isBlank_of_isTimeChar hc])] at h
  obtain rfl : c = '#' := by simpa using h
  exact absurd hc (by decide)

/-- A line that begins with a number sign is no command. -/
theorem not_isCommand_hash {x : List Char} : ¬ IsCommand i ('#' :: x) := by
  generalize hw : '#' :: x = w
  intro h
  cases h with
  | mk hc => exact hc (List.cons.inj hw).1.symm

/-- A comment is a command for removal if it is indented and carries the identity behind its
number sign. -/
theorem isCommand_comment_iff {ind x : List Char} (hind : ∀ c ∈ ind, isBlank c = true) :
    IsCommand i (ind ++ '#' :: x) ↔ ind ≠ [] ∧ Carries i x := by
  have hblank {c : Char} (hc : c ∈ ind) : c ≠ '#' ∧ c ≠ 'r' := by
    constructor <;> rintro rfl <;> exact absurd (hind _ hc) (by decide)
  -- the number sign is the first, the second or a later character
  rcases ind with _ | ⟨c, _ | ⟨d, ind⟩⟩
  · simp [not_isCommand_hash]
  · rw [List.singleton_append, isCommand_cons_cons_iff]
    simp [hblank]
  · have hr : 'r' ∉ ind ++ ['#'] := by
      rw [List.mem_append, not_or]
      exact ⟨fun h => (hblank (by simp [h])).2 rfl, by decide⟩
    rw [List.cons_append, List.cons_append, isCommand_cons_cons_iff, List.append_cons,
      carries_append_iff hr]
    simp [hblank]

/-- **What removal does to comments.** Removal leaves out the lines that the entry owns. A comment
is one of them exactly if it is indented and carries the identity of the entry behind its number
sign. -/
theorem remove_comments (he : e.IsSingleLine) (t : List Char) :
    (e.remove t).1 = ((lines t).filter (!e.owns ·)).flatten ∧
      ∀ l ∈ lines t, IsComment l → (e.owns l = true ↔
        ∃ ind x, ind ≠ [] ∧ (∀ c ∈ ind, isBlank c = true) ∧ l = ind ++ '#' :: x ++ ['\n'] ∧
          Carries e.toIdentity x) := by
  refine ⟨by rw [remove_eq he], fun l hl hcomment => ?_⟩
  have hline := (isLines_lines t).line l hl
  constructor
  · intro howns
    obtain ⟨w, rfl, hw⟩ := hline.eq_append_newline (newline_suffix_of_owns hline howns)
    rw [isComment_append_newline_iff] at hcomment
    obtain ⟨ind, x, hind, rfl⟩ := isComment_iff.mp hcomment
    rcases (owns_append_newline hw).mp howns with hcommand | ⟨-, hcolumn⟩
    · obtain ⟨hne, hx⟩ := (isCommand_comment_iff hind).mp hcommand
      exact ⟨ind, x, hne, hind, rfl, hx⟩
    · exact absurd hcolumn (notMem_columnLanguage_of_isComment hcomment)
  · rintro ⟨ind, x, hne, hind, rfl, hx⟩
    have hcommand := (isCommand_comment_iff hind).mpr ⟨hne, hx⟩
    have hw : '\n' ∉ ind ++ '#' :: x := by
      have hfront := hline.2
      rwa [List.dropLast_concat] at hfront
    exact (owns_append_newline hw).mpr (.inl hcommand)

/-- A comment that begins with its number sign stays, and the job behind it goes. -/
theorem remove_comments_first_column :
    let e : Entry :=
      { configFile := "c", profile := "home", command := "backup", event := {}
        commandLine := "resticprofile --config c run-schedule backup@home" }
    let comment := "#00 00 * * *\tresticprofile --config c run-schedule backup@home\n".toList
    let job := "00 12 * * *\tresticprofile --config c run-schedule backup@home\n".toList
    e.IsSingleLine ∧ e.remove (comment ++ job) = (comment, 1) ∧ e.owns comment = false := by
  intro e comment job
  have he : e.IsSingleLine := by decide
  refine ⟨he, by decide, ?_⟩
  obtain ⟨-, hcomments⟩ := remove_comments he (comment ++ job)
  have howned := hcomments comment (by decide) (by decide)
  rw [← Bool.not_eq_true, howned]
  rintro ⟨ind, x, hne, hind, heq, -⟩
  -- the first character is the number sign, so there is no indentation
  obtain ⟨c, ind, rfl⟩ := List.exists_cons_of_ne_nil hne
  obtain ⟨rfl, -⟩ := List.cons.inj heq
  exact absurd (hind '#' List.mem_cons_self) (by decide)

/-- An indented comment is taken for the line of a job. -/
theorem remove_comments_indented :
    let e : Entry :=
      { configFile := "c", profile := "home", command := "backup", event := {}
        commandLine := "resticprofile --config c run-schedule backup@home" }
    let comment := " # 00 00 * * *\tresticprofile --config c run-schedule backup@home\n".toList
    e.IsSingleLine ∧ IsComment comment ∧ readSection comment = [] ∧
      e.remove comment = ([], 1) := by
  decide

end Entry

end Timetable
