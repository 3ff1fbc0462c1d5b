import Timetable.Cron.Section
import Timetable.Cron.UserColumn
import Timetable.Proofs.Cron.Fields
import Timetable.Proofs.Cron.Removal

/-!
The columns of written lines.

A line that is written has its times in five words and a tab behind them. If a
user follows, a tab sets it off from the command, so there is a column more. If
the command follows at once, its first word is taken for a user only when more than
one blank stands behind it. So for commands whose first word has a single blank
behind it the count of the columns is right, line by line: every line is an entry,
and it has a user column exactly if its entry has a user. The marker lines are
neither headings nor entries.
-/

set_option autoImplicit false

namespace Timetable

open Text

namespace Cron

/-! ## Words and gaps -/

/-- A word: no blanks in it, and not empty. -/
abbrev IsWord (w : List Char) : Prop :=
  IsMadeOf (!isBlank ·) w

/-- A text that does not begin with a blank. -/
def IsFlush (s : List Char) : Prop :=
  ∀ c ∈ s.head?, isBlank c = false

variable {w s : List Char}

/-- A time field is a word, so the columns of a line are its words. -/
theorem IsTimeField.isWord {f : List Char} (h : IsTimeField f) : IsWord f :=
  h.mono fun _ hc => by simp [isBlank_of_isTimeChar hc]

instance (s : List Char) : Decidable (IsFlush s) :=
  inferInstanceAs (Decidable (∀ c ∈ s.head?, isBlank c = false))

/-- What begins flush still does with more behind it. -/
theorem IsFlush.append (hw : IsFlush w) (hne : w ≠ []) (s : List Char) : IsFlush (w ++ s) := by
  obtain ⟨c, w, rfl⟩ := List.exists_cons_of_ne_nil hne
  exact hw

/-- A text that begins with a word begins flush. -/
theorem isFlush_append (hw : IsWord w) (s : List Char) : IsFlush (w ++ s) := by
  refine IsFlush.append (fun c hc => ?_) hw.ne_nil s
  simpa using hw.all c (List.mem_of_mem_head? hc)

/-- Nothing is trimmed off a text that begins flush. -/
theorem IsFlush.trimStart_eq (hs : IsFlush s) : trimStart s = s := by
  cases s with
  | nil => rfl
  | cons c s => exact List.dropWhile_cons_of_neg (by simpa using hs c rfl)

/-- There are no blanks in front of it. -/
theorem IsFlush.takeWhile_eq_nil (hs : IsFlush s) : s.takeWhile isBlank = [] := by
  cases s with
  | nil => rfl
  | cons c s => exact List.takeWhile_cons_of_neg (by simpa using hs c rfl)

/-- A word ends at the blank behind it. -/
theorem behindWord?_append (hw : IsWord w) {c : Char} (hc : isBlank c = true) :
    behindWord? (w ++ c :: s) = some (c :: s) := by
  obtain ⟨d, w, rfl⟩ := List.exists_cons_of_ne_nil hw.ne_nil
  have hd : isBlank d = false := by simpa using hw.all d List.mem_cons_self
  have hdrop : (w ++ c :: s).dropWhile (!isBlank ·) = c :: s := by
    rw [List.dropWhile_append_of_pos fun x hx => hw.all x (List.mem_cons_of_mem _ hx)]
    exact List.dropWhile_cons_of_neg (by simp [hc])
  rw [List.cons_append, behindWord?, hd, hdrop]
  rfl

/-- A word and the blank behind it are dropped, up to the next word. -/
theorem dropWord?_append (hw : IsWord w) (hs : IsFlush s) : dropWord? (w ++ ' ' :: s) = some s := by
  have hspace : isBlank ' ' = true := by decide
  rw [dropWord?, behindWord?_append hw hspace, Option.bind_some, dropBlanks?, if_pos hspace,
    hs.trimStart_eq]

/-- The five fields of a line are five words. -/
theorem behindFiveWords?_timeFields {e : Event} (he : e.Reached) (s : List Char) :
    behindFiveWords? ((timeFields e).toList ++ '\t' :: s) = some ('\t' :: s) := by
  obtain ⟨f₁, f₂, f₃, f₄, f₅, ⟨h₁, h₂, h₃, h₄, h₅⟩, htime⟩ := exists_timeFields he
  have htab : isBlank '\t' = true := by decide
  simp only [htime, List.append_assoc, List.cons_append, behindFiveWords?]
  rw [dropWord?_append h₁.isWord (isFlush_append h₂.isWord _), Option.bind_eq_bind,
    Option.bind_some, dropWord?_append h₂.isWord (isFlush_append h₃.isWord _), Option.bind_some,
    dropWord?_append h₃.isWord (isFlush_append h₄.isWord _), Option.bind_some,
    dropWord?_append h₄.isWord (isFlush_append h₅.isWord _), Option.bind_some,
    behindWord?_append h₅.isWord htab]

/-- A tab sets columns apart. -/
theorem dropGap?_tab (hs : IsFlush s) : dropGap? ('\t' :: s) = some s := by
  have htab : isBlank '\t' = true := by decide
  have hgap : ('\t' :: s).takeWhile isBlank = ['\t'] := by
    rw [List.takeWhile_cons_of_pos htab, hs.takeWhile_eq_nil]
  have htrim : trimStart ('\t' :: s) = s := by
    rw [trimStart, List.dropWhile_cons_of_pos htab]
    exact hs.trimStart_eq
  rw [dropGap?, hgap, htrim]
  rfl

/-- A single blank does not. -/
theorem dropGap?_space (hs : IsFlush s) : dropGap? (' ' :: s) = none := by
  have hgap : (' ' :: s).takeWhile isBlank = [' '] := by
    rw [List.takeWhile_cons_of_pos (by decide), hs.takeWhile_eq_nil]
  rw [dropGap?, hgap]
  rfl

/-! ## What the columns are -/

/-- Behind a single blank there is no command. -/
theorem hasCommand_space (hs : IsFlush s) : hasCommand (' ' :: s) = false := by
  rw [hasCommand, dropGap?_space hs]

/-- Behind the tab of a written line there is a command. -/
theorem hasCommand_tab (hne : s ≠ []) (hs : IsFlush s) : hasCommand ('\t' :: s) = true := by
  obtain ⟨c, s, rfl⟩ := List.exists_cons_of_ne_nil hne
  rw [hasCommand, dropGap?_tab hs]

/-- A name with tabs on both sides is a user. -/
theorem columns?_of_user {name : List Char} (hname : IsWord name) (hne : s ≠ []) (hs : IsFlush s) :
    columns? ('\t' :: (name ++ '\t' :: s)) = some true := by
  have htab : isBlank '\t' = true := by decide
  have huser : hasUserAndCommand ('\t' :: (name ++ '\t' :: s)) = true := by
    rw [hasUserAndCommand, dropGap?_tab (isFlush_append hname _), Option.bind_some,
      behindWord?_append hname htab]
    exact hasCommand_tab hne hs
  rw [columns?, if_pos huser]

/-- The first word of a command is no user if a single blank stands behind it. -/
theorem columns?_of_command (hw : IsWord w) (hs : IsFlush s) :
    columns? ('\t' :: (w ++ ' ' :: s)) = some false := by
  have hspace : isBlank ' ' = true := by decide
  have huser : hasUserAndCommand ('\t' :: (w ++ ' ' :: s)) = false := by
    rw [hasUserAndCommand, dropGap?_tab (isFlush_append hw _), Option.bind_some,
      behindWord?_append hw hspace]
    exact hasCommand_space hs
  have hcommand := hasCommand_tab (s := w ++ ' ' :: s) (by simp) (isFlush_append hw _)
  rw [columns?, huser, if_neg Bool.false_ne_true, if_pos hcommand]

/-- A heading begins with a number sign. -/
theorem heading?_cons {c : Char} (hc : c ≠ '#') (s : List Char) : heading? (c :: s) = none := by
  have hprefix : ['#'].isPrefixOf? (c :: s) = none := by simp [List.isPrefixOf?, Ne.symm hc]
  rw [heading?, behindStars?, hprefix]
  rfl

/-- A line with time fields is an entry with the columns that stand behind them. -/
theorem entry?_timeFields {e : Event} (he : e.Reached) {b : Bool}
    (hcolumns : columns? ('\t' :: s) = some b) :
    entry? ((timeFields e).toList ++ '\t' :: s) = some b := by
  have hflush : IsFlush ((timeFields e).toList ++ '\t' :: s) := by
    obtain ⟨c, rest, hc, htime⟩ := exists_timeFields_eq_cons he
    simpa [IsFlush, htime] using isBlank_of_isTimeChar hc
  rw [ entry?, hflush.trimStart_eq, behindFiveWords?_timeFields he, Option.bind_some, hcolumns,
    Option.some_or]

/-- A line with time fields is no heading of columns. -/
theorem heading?_timeFields {e : Event} (he : e.Reached) (s : List Char) :
    heading? ((timeFields e).toList ++ '\t' :: s) = none := by
  obtain ⟨c, rest, hc, htime⟩ := exists_timeFields_eq_cons he
  rw [htime, List.cons_append]
  refine heading?_cons (fun h => ?_) _
  rw [h] at hc
  exact absurd hc (by decide)

/-! ## The count -/

/-- The count of the lines of a text on top of what has been counted already. -/
def columnCount (k : ColumnCount) (text : List Char) : ColumnCount :=
  (text.splitOn '\n').foldl ColumnCount.add k

/-- The verdict is that of the count over the whole text. -/
theorem hasUserColumn_eq (text : List Char) :
    hasUserColumn text = (columnCount {} text).verdict :=
  rfl

/-- The count goes on line by line. -/
theorem columnCount_line {a : List Char} (ha : '\n' ∉ a) (k : ColumnCount) (b : List Char) :
    columnCount k (a ++ '\n' :: b) = columnCount (k.add a) b := by
  rw [columnCount, splitOn_append_cons ha, List.foldl_cons]
  rfl

/-- No lines change nothing. -/
theorem columnCount_nil (k : ColumnCount) : columnCount k [] = k :=
  rfl

/-- A marker line is neither a heading nor an entry. -/
theorem columnCount_startMarker (k : ColumnCount) (b : List Char) :
    columnCount k (OwnSection.startMarker ++ b) = columnCount k b := by
  have hmarker : OwnSection.startMarker = OwnSection.startMarker.dropLast ++ ['\n'] := by decide
  -- the marker begins with a number sign, but no stars follow
  have hadd : k.add OwnSection.startMarker.dropLast = k := by
    rw [ColumnCount.add, (by decide : heading? OwnSection.startMarker.dropLast = none),
      (by decide : entry? OwnSection.startMarker.dropLast = none)]
  rw [hmarker, List.append_assoc, List.singleton_append, columnCount_line (by decide), hadd]

/-- The end marker is a comment, and it is not counted. -/
theorem columnCount_endMarker (k : ColumnCount) : columnCount k OwnSection.endMarker = k := by
  have hmarker : OwnSection.endMarker = OwnSection.endMarker.dropLast ++ ['\n'] := by decide
  have hadd : k.add OwnSection.endMarker.dropLast = k := by
    rw [ColumnCount.add, (by decide : heading? OwnSection.endMarker.dropLast = none),
      (by decide : entry? OwnSection.endMarker.dropLast = none)]
  rw [hmarker, columnCount_line (by decide), hadd, columnCount_nil]

end Cron

namespace Entry

open Cron

variable {e : Entry}

/-- What the line of an entry has behind the user: the command, in its working directory. -/
def commandText (e : Entry) : List Char :=
  (workDirText e.workDir ++ e.commandLine).toList

/-- A column is the user and what stands behind it. -/
theorem toList_column (e : Entry) :
    e.column.toList = (userText e.user).toList ++ e.commandText := by
  rw [column_eq, String.toList_append, commandText]

/-- An entry whose command has a single blank behind its first word. -/
def IsSpaced (e : Entry) : Prop :=
  ∃ w s, IsWord w ∧ IsFlush s ∧ e.commandText = w ++ ' ' :: s

/-- A name that can stand in a user column: a word, and not the one for the current user. -/
structure IsColumnName (name : String) : Prop where
  word : IsWord name.toList
  notCurrent : name ≠ currentUser

instance (name : String) : Decidable (IsColumnName name) :=
  decidable_of_iff ((name.toList ≠ [] ∧ ∀ c ∈ name.toList, (!isBlank c) = true) ∧
      name ≠ currentUser)
    ⟨fun h => ⟨⟨h.1.1, h.1.2⟩, h.2⟩, fun h => ⟨⟨h.word.ne_nil, h.word.all⟩, h.notCurrent⟩⟩

/-- An empty name would be no column at all. -/
theorem IsColumnName.ne_empty {name : String} (h : IsColumnName name) : name ≠ "" := by
  simpa using h.word.ne_nil

/-- A name that can stand in a column is written with a tab behind it. -/
theorem IsColumnName.userText_eq {name : String} (h : IsColumnName name) :
    userText name = name ++ "\t" := by
  simp [userText, h.ne_empty, h.notCurrent]

/-- **The columns of a line** that is written are those that its entry has. -/
theorem columns?_column (huser : e.user = "" ∨ IsColumnName e.user) (hcommand : e.IsSpaced) :
    columns? ('\t' :: e.column.toList) = some e.hasUser := by
  obtain ⟨w, s, hw, hs, htext⟩ := hcommand
  rw [toList_column, htext]
  -- without a user the first word is that of the command
  obtain hnone | hname := huser
  · have hempty : userText e.user = "" := by simp [userText, hnone]
    have hhas : e.hasUser = false := by simp [hasUser, hnone]
    rw [hempty, hhas]
    exact columns?_of_command hw hs
  · have hhas : e.hasUser = true := by simp [hasUser, hname.ne_empty]
    rw [hname.userText_eq, hhas, String.toList_append, List.append_assoc]
    exact columns?_of_user hname.word (by simp) (isFlush_append hw _)

/-- A line that is written is counted as an entry, with its user if there is one. -/
theorem add_line (he : e.event.Reached) (huser : e.user = "" ∨ IsColumnName e.user)
    (hcommand : e.IsSpaced) (k : ColumnCount) :
    k.add ((timeFields e.event).toList ++ '\t' :: e.column.toList) =
      { k with entries := k.entries + 1, userEntries := k.userEntries + e.hasUser.toNat } := by
  -- the fields are no heading, so the line is looked at as an entry
  have hentry := entry?_timeFields he (columns?_column huser hcommand)
  rw [ColumnCount.add, heading?_timeFields he, hentry]

/-- An entry whose line is counted for what it is. -/
structure IsCounted (e : Entry) : Prop where
  reached : e.event.Reached
  singleLine : e.IsSingleLine
  user : e.user = "" ∨ IsColumnName e.user
  spaced : e.IsSpaced

/-- **The count of written lines**: all of them are entries, and those whose entries have users have
user columns. -/
theorem columnCount_linesOf {es : List Entry} (hes : ∀ e ∈ es, e.IsCounted) (k : ColumnCount)
    (b : List Char) :
    columnCount k ((linesOf es).toList ++ b) =
      columnCount { k with
        entries := k.entries + es.length
        userEntries := k.userEntries + es.countP (·.hasUser) } b := by
  rw [toList_linesOf]
  -- line by line, with what has been counted so far
  induction es generalizing k with
  | nil => rfl
  | cons e es ih =>
    have he := hes e List.mem_cons_self
    have hrest := ih fun e' h => hes e' (List.mem_cons_of_mem e h)
    have hbody := newline_notMem_line he.singleLine.notMem_column
    have hentries : k.entries + 1 + es.length = k.entries + (es.length + 1) := by omega
    -- what the first line adds is counted in front of what the others add
    have husers : k.userEntries + e.hasUser.toNat + es.countP (·.hasUser) =
        k.userEntries + (e :: es).countP (·.hasUser) := by
      cases huser : e.hasUser with
      | false => simp [huser]
      | true =>
        simp only [Bool.toNat_true, List.countP_cons, huser, if_true]
        omega
    rw [List.map_cons, List.flatten_cons, toList_line_eq_append, List.append_assoc,
      List.append_assoc, List.singleton_append, columnCount_line hbody,
      add_line he.reached he.user he.spaced, hrest, List.length_cons, hentries, husers]

/-- The lines of entries have the verdict of their users, also between the markers: there is a user
column if more than three entries in four have a user. -/
theorem hasUserColumn_linesOf_iff {es : List Entry} (hes : ∀ e ∈ es, e.IsCounted) {t : List Char}
    (ht : t = (linesOf es).toList ∨
      t = OwnSection.startMarker ++ (linesOf es).toList ++ OwnSection.endMarker) :
    hasUserColumn t = true ↔ 3 * es.length < 4 * es.countP (·.hasUser) := by
  have hcount : columnCount {} t =
      { entries := es.length, userEntries := es.countP (·.hasUser) } := by
    obtain rfl | rfl := ht
    · have h := columnCount_linesOf hes {} []
      rw [List.append_nil, columnCount_nil] at h
      simpa using h
    · rw [List.append_assoc, columnCount_startMarker, columnCount_linesOf hes,
        columnCount_endMarker]
      simp
  rw [hasUserColumn_eq, hcount]
  simp [ColumnCount.verdict]

end Entry

end Timetable
