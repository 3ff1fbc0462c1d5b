/-!
Cutting a text at a mark, into lines, and replacing one word by another.

All functions work on the characters of a text. A mark is a list of characters;
`cutAt?` cuts at its first place and `cuts` gives every place, the last first,
which is the order in which a greedy reader tries them. `lines` keeps the line
ends, so that the lines of a text put together are the text again.
-/

set_option autoImplicit false

namespace Timetable.Text

/-- The parts of a text before and after the first place where `mark` stands;
`passed` holds, in reverse, what has been read already. -/
def cutFrom (mark : List Char) (passed : List Char) (s : List Char) :
    Option (List Char × List Char) :=
  match mark.isPrefixOf? s with
  | some rest => some (passed.reverse, rest)
  | none =>
    match s with
    | [] => none
    | c :: t => cutFrom mark (c :: passed) t

/-- The parts of a text before and after the first place where `mark` stands. -/
def cutAt? (mark s : List Char) : Option (List Char × List Char) :=
  cutFrom mark [] s

/-- Adds to `found` the cuts of the text at every place of `mark`, later ones in front. -/
def cutsFrom (mark : List Char) (passed : List Char) (found : List (List Char × List Char)) :
    List Char → List (List Char × List Char)
  | [] => found
  | c :: t =>
    match mark.isPrefixOf? (c :: t) with
    -- the search goes on one character further, so places may overlap
    | some rest => cutsFrom mark (c :: passed) ((passed.reverse, rest) :: found) t
    | none => cutsFrom mark (c :: passed) found t

/-- Every way to cut a text at a nonempty mark, the last place first. -/
def cuts (mark s : List Char) : List (List Char × List Char) :=
  cutsFrom mark [] [] s

/-- The lines of a text, each with its line end; a last line without one is kept as it is. -/
def lines (s : List Char) : List (List Char) :=
  let parts := s.splitOn '\n'
  parts.dropLast.map (· ++ ['\n']) ++ parts.getLast?.toList.filter (!·.isEmpty)

/-- The lines of a text put together are the text. -/
theorem flatten_lines (s : List Char) : (lines s).flatten = s := by
  have key : ∀ parts : List (List Char), parts ≠ [] →
      (parts.dropLast.map (· ++ ['\n']) ++ parts.getLast?.toList.filter (!·.isEmpty)).flatten
        = ['\n'].intercalate parts := by
    intro parts
    induction parts with
    | nil => intro h; exact absurd rfl h
    | cons p ps ih =>
      intro _
      cases ps with
      | nil => cases p <;> simp
      | cons q qs =>
        have := ih (by simp)
        simp only [List.dropLast_cons_cons, List.map_cons, List.cons_append,
          List.flatten_cons, List.getLast?_cons_cons, List.intercalate_cons_cons] at this ⊢
        rw [this]
  have := key (s.splitOn '\n') (by simp [List.splitOn, List.splitOnP_ne_nil])
  rw [List.intercalate_splitOn] at this
  exact this

/-- Replaces `mark` by `other` from left to right; the first `skip` characters are part of a
place already replaced. -/
def replaceFrom (mark other : List Char) (skip : Nat) : List Char → List Char
  | [] => []
  | c :: t =>
    match skip with
    | n + 1 => replaceFrom mark other n t
    | 0 =>
      if mark.isPrefixOf (c :: t) then other ++ replaceFrom mark other (mark.length - 1) t
      else c :: replaceFrom mark other 0 t

/-- A text with `other` in every place of a nonempty `mark`. -/
def replace (mark other s : List Char) : List Char :=
  replaceFrom mark other 0 s

end Timetable.Text
