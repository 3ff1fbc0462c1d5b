import Timetable.Text.Blank
import Timetable.Text.Cut

/-!
Whether a crontab has a user column.

The crontab of the system names a user between the times and the command. A
comment line that heads the columns tells so, if there is one. Otherwise the
entries are counted: a line has a column more when its times are followed by a
word that stands off on both sides, by a tab or by two blanks or more.

The definitions follow `detect_needs_user_column` and the patterns `HEADER_LINE`
and `ENTRY_LINE`. The comparison with `USER_COLUMN_THRESHOLD` is made on whole
numbers.
-/

set_option autoImplicit false

namespace Timetable.Cron

open Text

/-! ## Heading lines -/

/-- What remains behind one blank or more. -/
def dropBlanks? (s : List Char) : Option (List Char) :=
  match s with
  | c :: t => if isBlank c then some (trimStart t) else none
  | [] => none

/-- What remains behind a star. -/
def dropStar? (s : List Char) : Option (List Char) :=
  ['*'].isPrefixOf? s

/-- What remains of a line behind a number sign and five stars with blanks between them. -/
def behindStars? (line : List Char) : Option (List Char) := do
  let s ← ['#'].isPrefixOf? line
  let s ← dropStar? (trimStart s)
  let s ← (dropBlanks? s).bind dropStar?
  let s ← (dropBlanks? s).bind dropStar?
  let s ← (dropBlanks? s).bind dropStar?
  (dropBlanks? s).bind dropStar?

/-- Whether a text starts with the title of the command column. -/
def isCommandTitle (s : List Char) : Bool :=
  "command".toList.isPrefixOf s || "cmd".toList.isPrefixOf s

/-- Whether the title of the command column stands somewhere behind a blank. -/
def mentionsCommandTitle : List Char → Bool
  | [] => false
  | c :: t => (isBlank c && isCommandTitle t) || mentionsCommandTitle t

/-- Whether a line heads the columns and, if it does, whether there is one for the user. -/
def heading? (line : List Char) : Option Bool := do
  let s ← behindStars? line
  let s ← dropBlanks? s
  match "user".toList.isPrefixOf? s with
  | some rest => if mentionsCommandTitle rest then some true else none
  | none => if isCommandTitle s then some false else none

/-! ## Entry lines -/

/-- What remains behind a word. -/
def behindWord? (s : List Char) : Option (List Char) :=
  match s with
  | c :: t => if isBlank c then none else some (t.dropWhile (!isBlank ·))
  | [] => none

/-- What remains behind a word and the blanks that must follow it. -/
def dropWord? (s : List Char) : Option (List Char) :=
  (behindWord? s).bind dropBlanks?

/-- What remains behind five words. -/
def behindFiveWords? (s : List Char) : Option (List Char) := do
  let s ← dropWord? s
  let s ← dropWord? s
  let s ← dropWord? s
  let s ← dropWord? s
  behindWord? s

/-- What remains behind a name for a time, such as `@daily`. -/
def behindTimeName? (s : List Char) : Option (List Char) :=
  match s with
  | '@' :: t =>
    let name := t.takeWhile (!isBlank ·)
    if !name.isEmpty && name.all Char.isLower then some (t.dropWhile (!isBlank ·)) else none
  | _ => none

/-- What remains behind blanks that set columns apart: a single tab, or two blanks or more. -/
def dropGap? (s : List Char) : Option (List Char) :=
  let gap := s.takeWhile isBlank
  if gap == ['\t'] || 2 ≤ gap.length then some (trimStart s) else none

/-- Whether something stands behind a gap. -/
def hasCommand (s : List Char) : Bool :=
  match dropGap? s with
  | some (_ :: _) => true
  | _ => false

/-- Whether a word and a command stand behind gaps. -/
def hasUserAndCommand (s : List Char) : Bool :=
  match (dropGap? s).bind behindWord? with
  | some rest => hasCommand rest
  | none => false

/-- What the text behind the times tells of the columns: whether there is one for the user. -/
def columns? (s : List Char) : Option Bool :=
  if hasUserAndCommand s then some true
  else if hasCommand s then some false
  else none

/-- Whether a line is an entry and, if it is, whether it has a column for the user. -/
def entry? (line : List Char) : Option Bool :=
  let s := trimStart line
  -- a name for a time is tried only where no columns follow five words
  ((behindFiveWords? s).bind columns?).or ((behindTimeName? s).bind columns?)

/-! ## The verdict -/

/-- How many headings and entries a crontab has, and how many of them have a user. -/
structure ColumnCount where
  headings : Nat := 0
  userHeadings : Nat := 0
  entries : Nat := 0
  userEntries : Nat := 0
  deriving DecidableEq, Repr

namespace ColumnCount

/-- Counts one more line. A line that is a heading is no entry. -/
def add (k : ColumnCount) (line : List Char) : ColumnCount :=
  match heading? line with
  | some user =>
    { k with headings := k.headings + 1, userHeadings := k.userHeadings + user.toNat }
  | none =>
    match entry? line with
    | some user => { k with entries := k.entries + 1, userEntries := k.userEntries + user.toNat }
    | none => k

/-- Whether the counts speak for a user column. With headings, all of them must name it, or some
and some entry must have it; without, more than three entries in four must have it. -/
def verdict (k : ColumnCount) : Bool :=
  if 0 < k.headings then
    -- headings that disagree are settled by the entries
    k.userHeadings == k.headings || (0 < k.userHeadings && 0 < k.userEntries)
  else 3 * k.entries < 4 * k.userEntries

end ColumnCount

/-- Whether a crontab has a user column. -/
def hasUserColumn (crontab : List Char) : Bool :=
  ((crontab.splitOn '\n').foldl ColumnCount.add {}).verdict

end Timetable.Cron
