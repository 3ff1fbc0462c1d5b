/-!
Numbers of 32 bits, as texts.

A numeral is a nonempty run of ASCII digits, with one optional plus sign in
front. It is read from the left, and the first fault decides what the reader
reports: a character that is no digit, or a value that has left the 32 bits. Numbers are
written in decimal, padded to two digits where a clock or a calendar shows them.
-/

set_option autoImplicit false

namespace Timetable.Text

/-- One more than the greatest number of 32 bits. -/
def wordLimit : Nat := 0x100000000

/-- Why a text is no numeral. -/
inductive NumeralError where
  | empty
  | invalidDigit
  | tooLarge
  deriving DecidableEq, Repr, Inhabited

/-- The wording of a numeral's fault. -/
def NumeralError.message : NumeralError → String
  | .empty => "cannot parse integer from empty string"
  | .invalidDigit => "invalid digit found in string"
  | .tooLarge => "number too large to fit in target type"

/-- Reads the remaining digits of a numeral whose digits so far are worth `n`. -/
def readDigits (n : Nat) : List Char → Except NumeralError Nat
  | [] => .ok n
  | c :: cs =>
    if c.isDigit then
      -- the limit is looked at after each digit
      let m := 10 * n + (c.toNat - '0'.toNat)
      if m < wordLimit then readDigits m cs else .error .tooLarge
    else .error .invalidDigit

/-- Reads a numeral of 32 bits. -/
def readNumeral : List Char → Except NumeralError Nat
  | [] => .error .empty
  | ['+'] => .error .invalidDigit
  | '+' :: cs => readDigits 0 cs
  | cs => readDigits 0 cs

/-- A number in decimal. -/
def decimal (n : Nat) : List Char :=
  Nat.toDigits 10 n

/-- A number in decimal, with a zero in front of a single digit. -/
def twoDigits (n : Nat) : List Char :=
  if n < 10 then '0' :: decimal n else decimal n

/-- What is read is a number of 32 bits. -/
theorem readDigits_lt {n m : Nat} {cs : List Char} (hn : n < wordLimit)
    (h : readDigits n cs = .ok m) : m < wordLimit := by
  induction cs generalizing n with
  | nil => simp only [readDigits, Except.ok.injEq] at h; omega
  | cons c cs ih =>
    simp only [readDigits] at h
    split at h
    · split at h
      · next hm => exact ih hm h
      · cases h
    · cases h

end Timetable.Text
