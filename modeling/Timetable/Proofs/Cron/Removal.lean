import Timetable.Proofs.Cron.TimeFields
import Timetable.Proofs.Text.Line
import Timetable.Proofs.Text.Pattern

/-!
What removal leaves of a text.

Whatever the strings of an entry are, removal leaves out lines of a text and
keeps the others in their order. If the strings have no line ends, a match is one
line, and whether a line goes depends on nothing but that line: the entry owns
it or not. So removal is a filter on the lines of a text, and several entries
together leave out the lines that one of them owns, in whatever order they are
asked. A written line is owned by its entry.
-/

set_option autoImplicit false

namespace Timetable

namespace Entry

open Text Text.Pattern Cron

/-- Whether a line belongs to an entry. -/
def owns (e : Entry) (l : List Char) : Bool :=
  !(e.linePattern l).isEmpty

/-- The strings that an entry is written with. -/
def strings (e : Entry) : List String :=
  [e.configFile, e.profile, e.command, e.commandLine, e.workDir, e.user]

/-- An entry whose strings have no line ends. -/
def IsSingleLine (e : Entry) : Prop :=
  ∀ s ∈ e.strings, '\n' ∉ s.toList

instance (e : Entry) : Decidable e.IsSingleLine :=
  inferInstanceAs (Decidable (∀ s ∈ e.strings, '\n' ∉ s.toList))

/-! ## The language of an entry's lines -/

/-- Texts of at least one character and without line ends. -/
def stretch : Language Char :=
  {w | w ≠ [] ∧ ∀ c ∈ w, isInLine c = true}

/-- A quote, or nothing. -/
def quoteLanguage : Language Char :=
  {['"']} + 1

/-- What stands behind the configuration file in a command that carries an identity. -/
def formLanguage (i : Identity) : Language Char :=
  {"--name ".toList} * ({i.profile.toList} * ((stretch + 1) * ({" ".toList} *
      {i.command.toList}))) +
    {"run-schedule ".toList} * ({i.command.toList} * ({"@".toList} * {i.profile.toList}))

/-- Texts of an uncommented command that carries an identity. -/
def commandLanguage (i : Identity) : Language Char :=
  let first : Language Char := {w | ∃ c, (isInLine c && c != '#') = true ∧ w = [c]}
  first * (stretch * ({"resticprofile".toList} * (stretch * ({"--config ".toList} *
    (quoteLanguage * ({i.configFile.toList} * (quoteLanguage * ({" ".toList} *
      formLanguage i))))))))

/-- The first pattern finds the words of `commandLanguage`, and leaves the rest. -/
theorem fits_commandPattern (i : Identity) : (commandPattern i).Fits (commandLanguage i) := by
  -- the pattern is a sequence, and each part of it fits its own words
  have hquote : optionalQuote.Fits _ := (fits_word ['"']).optional
  have hlong : (longForm i).Fits _ :=
    (fits_word "--name ".toList).andThen <| (fits_word i.profile.toList).andThen <|
      (fits_many isInLine).optional.andThen <| (fits_word " ".toList).andThen <|
      fits_word i.command.toList
  have hshort : (shortForm i).Fits _ :=
    (fits_word "run-schedule ".toList).andThen <| (fits_word i.command.toList).andThen <|
      (fits_word "@".toList).andThen <| fits_word i.profile.toList
  exact (fits_one _).andThen <| (fits_many isInLine).andThen <|
    (fits_word "resticprofile".toList).andThen <| (fits_many isInLine).andThen <|
    (fits_word "--config ".toList).andThen <| hquote.andThen <|
    (fits_word i.configFile.toList).andThen <| hquote.andThen <|
    (fits_word " ".toList).andThen <| hlong.orElse hshort

/-- Texts of five time fields, a tab and the command column of an entry. -/
def columnLanguage (e : Entry) : Language Char :=
  let field : Language Char := {w | w ≠ [] ∧ ∀ c ∈ w, isTimeChar c = true}
  let next : Language Char := {" ".toList} * field
  field * (next * (next * (next * (next * ({"\t".toList} * {e.column.toList})))))

/-- The second pattern finds the words of `columnLanguage`; it is left out for an entry without a
command line. -/
theorem fits_columnPattern {e : Entry} (h : e.commandLine ≠ "") :
    e.columnPattern.Fits e.columnLanguage := by
  have hempty : ¬ e.commandLine.isEmpty = true := by simpa using h
  have hfield := fits_many isTimeChar
  have hnext := (fits_word " ".toList).andThen hfield
  rw [columnPattern, if_neg hempty]
  exact hfield.andThen <| hnext.andThen <| hnext.andThen <| hnext.andThen <| hnext.andThen <|
    (fits_word "\t".toList).andThen <| fits_word e.column.toList

/-- What an entry fits: one of its commands, or its column behind time fields, and a line end. -/
theorem mem_linePattern {e : Entry} {s r : List Char} :
    r ∈ e.linePattern s ↔
      ∃ w, (w ∈ commandLanguage e.toIdentity ∨ (e.commandLine ≠ "" ∧ w ∈ e.columnLanguage)) ∧
        s = w ++ '\n' :: r := by
  -- without a command line the second pattern finds nothing at all
  have hcolumn (t : List Char) :
      t ∈ e.columnPattern s ↔ ∃ w, (e.commandLine ≠ "" ∧ w ∈ e.columnLanguage) ∧ s = w ++ t := by
    by_cases h : e.commandLine = ""
    · simp [columnPattern, h, Pattern.fail]
    · simpa [h] using fits_columnPattern h s t
  have hnewline : "\n".toList ++ r = '\n' :: r := rfl
  rw [linePattern]
  refine Iff.trans (mem_andThen (a := commandPattern e.toIdentity <|> e.columnPattern)
    (b := literal "\n")) ?_
  simp only [literal, mem_word, hnewline, exists_eq_right]
  refine Iff.trans (mem_orElse (a := commandPattern e.toIdentity) (b := e.columnPattern)) ?_
  rw [fits_commandPattern e.toIdentity s, hcolumn, ← exists_or]
  exact exists_congr fun w => or_and_right.symm

/-- What remains behind a match stands behind a line end. -/
theorem exists_eq_append_of_mem_linePattern {e : Entry} {s r : List Char}
    (h : r ∈ e.linePattern s) : ∃ w, s = w ++ '\n' :: r := by
  obtain ⟨w, -, hs⟩ := mem_linePattern.mp h
  exact ⟨w, hs⟩

/-! ## Written lines -/

/-- What is written for a user. -/
def userText (user : String) : String :=
  if !user.isEmpty && user != currentUser then user ++ "\t" else ""

/-- What is written for a working directory. -/
def workDirText (dir : String) : String :=
  if dir.isEmpty then "" else "cd " ++ dir ++ " && "

/-- The column has three parts, of which the first two may be empty. -/
theorem column_eq (e : Entry) :
    e.column = userText e.user ++ (workDirText e.workDir ++ e.commandLine) := by
  simp only [column, hasUser, needsUser, userText, workDirText, String.append_assoc, bne]
  rfl

/-- A written line has the time fields, a tab, the column and a line end. -/
theorem toList_line (e : Entry) :
    e.line.toList = (timeFields e.event).toList ++ '\t' :: (e.column.toList ++ ['\n']) := by
  simp [line]

/-- The line of an entry, cut in front of its line end. -/
theorem toList_line_eq_append (e : Entry) :
    e.line.toList = ((timeFields e.event).toList ++ '\t' :: e.column.toList) ++ ['\n'] := by
  simp [toList_line]

/-- There is no line end in it before the last character, if there is none in the column. -/
theorem newline_notMem_line {e : Entry} (h : '\n' ∉ e.column.toList) :
    '\n' ∉ (timeFields e.event).toList ++ '\t' :: e.column.toList := by
  simp [newline_notMem_timeFields, h]

/-- The line of an entry has its line end, whatever the strings are. -/
theorem newline_suffix_line (e : Entry) : ['\n'] <:+ e.line.toList := by
  rw [toList_line_eq_append]
  exact List.suffix_append _ _

/-- The text of an event's fields, a tab and the command column of an entry. -/
theorem append_column_mem_columnLanguage (e : Entry) {event : Event} (h : event.Reached) :
    (timeFields event).toList ++ '\t' :: e.column.toList ∈ e.columnLanguage := by
  obtain ⟨f₁, f₂, f₃, f₄, f₅, ⟨h₁, h₂, h₃, h₄, h₅⟩, htime⟩ := exists_timeFields h
  have field {f : List Char} (hf : IsTimeField f) :
      f ∈ ({w | w ≠ [] ∧ ∀ c ∈ w, isTimeChar c = true} : Language Char) :=
    ⟨hf.ne_nil, hf.all⟩
  have next {f : List Char} (hf : IsTimeField f) := Language.append_mem_mul
    (show " ".toList ∈ ({" ".toList} : Language Char) from rfl) (field hf)
  have hcolumn := Language.append_mem_mul
    (show "\t".toList ∈ ({"\t".toList} : Language Char) from rfl)
    (show e.column.toList ∈ ({e.column.toList} : Language Char) from rfl)
  -- five fields with spaces between them, then the tab and the column
  have hall := Language.append_mem_mul (field h₁) <| Language.append_mem_mul (next h₂) <|
    Language.append_mem_mul (next h₃) <| Language.append_mem_mul (next h₄) <|
    Language.append_mem_mul (next h₅) hcolumn
  simpa [columnLanguage, htime] using hall

/-- **An entry owns its line.** -/
theorem owns_line {e : Entry} (he : e.event.Reached) (h : e.commandLine ≠ "") :
    e.owns e.line.toList = true := by
  -- the column pattern takes all of the line but its end, and nothing remains behind that
  have hrest : [] ∈ e.linePattern e.line.toList := by
    have hcolumn : ['\n'] ∈ e.columnPattern e.line.toList :=
      (fits_columnPattern h _ _).mpr
        ⟨_, e.append_column_mem_columnLanguage he, by simp [toList_line]⟩
    exact mem_andThen.mpr ⟨['\n'], mem_orElse.mpr (.inr hcolumn), mem_word.mpr (by simp)⟩
  simpa [owns] using List.ne_nil_of_mem hrest

namespace IsSingleLine

variable {e : Entry}

/-- The column of an entry whose strings have no line end has none. -/
theorem notMem_column (he : e.IsSingleLine) : '\n' ∉ e.column.toList := by
  simp only [IsSingleLine, strings, List.mem_cons, List.not_mem_nil, or_false, forall_eq_or_imp,
    forall_eq] at he
  obtain ⟨-, -, -, hcommand, hdir, huser⟩ := he
  have huserText : '\n' ∉ (userText e.user).toList := by
    rw [userText]
    split <;> simp [huser]
  have hdirText : '\n' ∉ (workDirText e.workDir).toList := by
    rw [workDirText]
    split <;> simp [hdir]
  simp [column_eq, huserText, hdirText, hcommand]

/-- So a match spans one line. -/
theorem reach_eq (he : e.IsSingleLine) : e.reach = 1 := by
  have hcolumn := he.notMem_column
  simp only [IsSingleLine, strings, List.mem_cons, List.not_mem_nil, or_false, forall_eq_or_imp,
    forall_eq] at he
  obtain ⟨hfile, hprofile, hcommand, -⟩ := he
  simp [reach, List.count_eq_zero, hfile, hprofile, hcommand, hcolumn]

/-- The line of an entry is a line. -/
theorem isLine_line (he : e.IsSingleLine) : IsLine e.line.toList := by
  rw [toList_line_eq_append]
  exact isLine_append_newline (newline_notMem_line he.notMem_column)

end IsSingleLine

/-- The lines of entries stand one behind another, without anything between them. -/
theorem toList_linesOf (es : List Entry) :
    (linesOf es).toList = (es.map (·.line.toList)).flatten := by
  simp [linesOf, String.toList_join, List.flatMap_def, Function.comp_def]

/-- The lines of single-line entries are lines in the order of a text. -/
theorem isLines_map_line {es : List Entry} (hes : ∀ e ∈ es, e.IsSingleLine) :
    IsLines (es.map (·.line.toList)) := by
  constructor
  · intro l hl
    obtain ⟨e, he, rfl⟩ := List.mem_map.mp hl
    exact (hes e he).isLine_line
  · refine List.pairwise_of_forall_mem_list fun l hl _ _ => ?_
    obtain ⟨e, -, rfl⟩ := List.mem_map.mp hl
    exact e.newline_suffix_line

/-! ## Removal in general -/

/-- Removal keeps some of the lines, in their order. -/
theorem removeFrom_sublist (e : Entry) (kept : List (List Char)) (count skip : Nat)
    (ls : List (List Char)) :
    ∃ ks, ks.Sublist ls ∧ (removeFrom e kept count skip ls).1 = kept.reverse ++ ks := by
  -- a line is skipped, or begins a match and goes, or is kept
  induction ls generalizing kept count skip with
  | nil => exact ⟨[], List.Sublist.refl [], by simp [removeFrom]⟩
  | cons l ls ih =>
    cases skip with
    | succ n =>
      obtain ⟨ks, hks, h⟩ := ih kept count n
      exact ⟨ks, hks.cons l, by simpa [removeFrom] using h⟩
    | zero =>
      cases hspan : e.span? (l :: ls) with
      | some n =>
        obtain ⟨ks, hks, h⟩ := ih kept (count + 1) (n - 1)
        exact ⟨ks, hks.cons l, by simpa [removeFrom, hspan] using h⟩
      | none =>
        obtain ⟨ks, hks, h⟩ := ih (l :: kept) count 0
        exact ⟨l :: ks, hks.cons_cons l, by simpa [removeFrom, hspan] using h⟩

/-- Removing an entry leaves whole lines of the text, in their order. -/
theorem remove_sublist (e : Entry) (t : List Char) :
    ∃ ks : List (List Char), ks.Sublist (lines t) ∧ (e.remove t).1 = ks.flatten := by
  obtain ⟨ks, hks, h⟩ := removeFrom_sublist e [] 0 0 (lines t)
  exact ⟨ks, hks, by simpa [remove] using congrArg List.flatten h⟩

/-- Entries are removed one after another, and what goes is added up. -/
theorem removeAll_cons (e : Entry) (es : List Entry) (t : List Char) :
    removeAll (e :: es) t =
      ((removeAll es (e.remove t).1).1, (e.remove t).2 + (removeAll es (e.remove t).1).2) := by
  let step (p : List Char × Nat) (e : Entry) : List Char × Nat :=
    ((e.remove p.1).1, p.2 + (e.remove p.1).2)
  have hfold (es : List Entry) (t : List Char) : removeAll es t = es.foldl step (t, 0) := rfl
  -- a count that is there already is added to
  have key (es : List Entry) (p : List Char × Nat) :
      es.foldl step p = ((es.foldl step (p.1, 0)).1, p.2 + (es.foldl step (p.1, 0)).2) := by
    induction es generalizing p with
    | nil => simp
    | cons e es ih =>
      rw [List.foldl_cons, List.foldl_cons, ih, ih (step (p.1, 0) e)]
      simp [step, Nat.add_assoc]
  have hfirst : step (t, 0) e = e.remove t := by simp [step]
  rw [hfold, List.foldl_cons, hfirst, key, hfold]

/-- There is nothing to take out of an empty text. -/
theorem removeAll_nil (es : List Entry) : removeAll es [] = ([], 0) := by
  induction es with
  | nil => rfl
  | cons e es ih =>
    have hremove : e.remove [] = ([], 0) := by simp [remove, removeFrom]
    simp [removeAll_cons, hremove, ih]

/-- Removing all of them leaves whole lines as well. -/
theorem removeAll_sublist (es : List Entry) (t : List Char) :
    ∃ ks : List (List Char), ks.Sublist (lines t) ∧ (removeAll es t).1 = ks.flatten := by
  induction es generalizing t with
  | nil => exact ⟨lines t, List.Sublist.refl _, by simp [removeAll, flatten_lines]⟩
  | cons e es ih =>
    obtain ⟨ks, hks, h⟩ := remove_sublist e t
    -- the lines of what is kept are the kept lines
    obtain ⟨js, hjs, h'⟩ := ih (e.remove t).1
    rw [h, lines_flatten ((isLines_lines t).sublist hks)] at hjs
    exact ⟨js, hjs.trans hks, by rw [removeAll_cons, h']⟩

/-! ## Removal of single lines -/

/-- A match of a single-line entry is one line. -/
theorem span?_eq {e : Entry} (he : e.IsSingleLine) {l : List Char} (hl : IsLine l)
    (ls : List (List Char)) : e.span? (l :: ls) = if e.owns l then some 1 else none := by
  have hwindow : ((l :: ls).take e.reach).flatten = l := by simp [he.reach_eq]
  simp only [span?, hwindow, owns]
  split
  · next hp => simp [hp]
  -- what remains behind the match is behind the line end, and that is the end of the line
  · next r rs hp =>
    obtain ⟨w, rfl⟩ := exists_eq_append_of_mem_linePattern (r := r) (by rw [hp]; simp)
    obtain rfl : r = [] := by
      by_contra hne
      exact hl.2 (by simp [List.dropLast_append_of_ne_nil, List.dropLast_cons_of_ne_nil hne])
    have hw : '\n' ∉ w := by simpa using hl.2
    simp [hp, List.count_eq_zero.mpr hw]

/-- The loop over the lines keeps those that the entry does not own and counts the others. No line
is skipped, because a match spans one line. -/
theorem removeFrom_eq {e : Entry} (he : e.IsSingleLine) (kept : List (List Char)) (count : Nat)
    {ls : List (List Char)} (hls : ∀ l ∈ ls, IsLine l) :
    removeFrom e kept count 0 ls =
      (kept.reverse ++ ls.filter (!e.owns ·), count + ls.countP e.owns) := by
  induction ls generalizing kept count with
  | nil => simp [removeFrom]
  | cons l ls ih =>
    have hspan := span?_eq he (hls l (by simp)) ls
    have hrest : ∀ l ∈ ls, IsLine l := fun l' h' => hls l' (by simp [h'])
    by_cases hown : e.owns l = true
    · rw [if_pos hown] at hspan
      simp [removeFrom, hspan, ih kept (count + 1) hrest, hown]
      omega
    · rw [if_neg hown] at hspan
      simp [removeFrom, hspan, ih (l :: kept) count hrest, hown]

/-- Removal leaves out the lines that the entry owns. -/
theorem remove_eq {e : Entry} (he : e.IsSingleLine) (t : List Char) :
    e.remove t = (((lines t).filter (!e.owns ·)).flatten, (lines t).countP e.owns) := by
  simp [remove, removeFrom_eq he [] 0 (isLines_lines t).line]

/-- **Removal as a filter.** Single-line entries together leave out the lines that one of them
owns, and their number is counted. -/
theorem removeAll_eq {es : List Entry} (hes : ∀ e ∈ es, e.IsSingleLine) (t : List Char) :
    removeAll es t =
      (((lines t).filter fun l => !es.any (·.owns l)).flatten,
        (lines t).countP fun l => es.any (·.owns l)) := by
  induction es generalizing t with
  | nil => simp [removeAll, flatten_lines]
  | cons e es ih =>
    have hkept : lines (e.remove t).1 = (lines t).filter (!e.owns ·) := by
      rw [remove_eq (hes e (by simp))]
      exact lines_flatten ((isLines_lines t).sublist List.filter_sublist)
    rw [removeAll_cons, ih (fun e' he' => hes e' (by simp [he'])) (e.remove t).1, hkept,
      remove_eq (hes e (by simp)), List.filter_filter]
    have hfilter : ∀ l : List Char, (!es.any (·.owns l) && !e.owns l) =
        !(e :: es).any (·.owns l) := by
      intro l
      simp [Bool.and_comm]
    -- a line that the first entry owns is counted there and gone before the others are asked
    have hcount := List.countP_eq_countP_filter_add (lines t)
      (fun l => (e :: es).any (·.owns l)) e.owns
    rw [List.countP_filter, List.countP_filter] at hcount
    simp only [hfilter, Prod.mk.injEq, true_and]
    rw [hcount, List.countP_filter]
    congr 1
    · exact List.countP_congr fun l _ => by simp +contextual
    · exact List.countP_congr fun l _ => by simp +contextual

end Entry

end Timetable
