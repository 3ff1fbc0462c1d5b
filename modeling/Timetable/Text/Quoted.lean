import Timetable.Text.Invisible

/-!
Quoted texts, as error messages show them.

A quoted text stands between double quotes. The quote and the backslash get a
backslash in front, tab, line end, carriage return and null are written by a
letter, and a character that cannot be shown is written by its hexadecimal code
point in braces. Everything else, the apostrophe included, stands as it is.
-/

set_option autoImplicit false

namespace Timetable.Text

/-- The code point of a character, hexadecimal in braces. -/
def codePointEscape (c : Char) : List Char :=
  ['\\', 'u', '\x7b'] ++ Nat.toDigits 16 c.toNat ++ ['\x7d']

/-- One character as it stands inside a quoted text. -/
def quotedChar (c : Char) : List Char :=
  match c with
  | '"' => ['\\', '"']
  | '\\' => ['\\', '\\']
  | '\t' => ['\\', 't']
  | '\n' => ['\\', 'n']
  | '\r' => ['\\', 'r']
  | '\x00' => ['\\', '0']
  | c => if isInvisible c then codePointEscape c else [c]

/-- A text between double quotes, with what cannot stand there escaped. -/
def quoted (s : String) : String :=
  String.ofList (['"'] ++ s.toList.flatMap quotedChar ++ ['"'])

end Timetable.Text
