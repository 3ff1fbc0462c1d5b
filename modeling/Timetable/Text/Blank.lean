/-!
Blank characters, and the two ways a text is freed of them.

A blank is a character with the Unicode property White_Space: the controls from
tab to carriage return, the space, and the spaces and line separators of the
later blocks. Every reader of this library that skips or splits at blanks uses
this one class, so a text may be indented with a no-break space as well as with
a tab.
-/

set_option autoImplicit false

namespace Timetable.Text

/-- Whether a character has the property White_Space. -/
def isBlank (c : Char) : Bool :=
  let n := c.toNat
  if n < 0x80 then n == 0x20 || (9 ≤ n && n ≤ 13)
  else
    n == 0x85 || n == 0xA0 || n == 0x1680 || (0x2000 ≤ n && n ≤ 0x200A) || n == 0x2028 ||
      n == 0x2029 || n == 0x202F || n == 0x205F || n == 0x3000

/-- A text without its leading blanks. -/
def trimStart (s : List Char) : List Char :=
  s.dropWhile isBlank

/-- A text without its trailing blanks. -/
def trimEnd (s : List Char) : List Char :=
  (s.reverse.dropWhile isBlank).reverse

/-- A text without the blanks at either end. -/
def trim (s : List Char) : List Char :=
  trimEnd (trimStart s)

/-- The maximal blank-free stretches of a text, in order. -/
def words (s : List Char) : List (List Char) :=
  (s.splitOnP isBlank).filter (!·.isEmpty)

/-- A word holds no blank, so reading it again gives it alone. -/
theorem words_of_blankFree {s : List Char} (hs : s ≠ []) (h : ∀ c ∈ s, isBlank c = false) :
    words s = [s] := by
  have : s.splitOnP isBlank = [s] := List.splitOnP_eq_singleton (by simpa using h)
  simp [words, this, hs]

end Timetable.Text
