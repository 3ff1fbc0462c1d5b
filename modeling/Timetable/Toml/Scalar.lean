import Timetable.Json.Basic

/-!
Numbers, truth values and times of a TOML document.

Such a value ends where a character follows that cannot belong to it, and it is
then checked as a whole. Its worth is not computed: a number is kept as it is
written, and a time becomes a record of its own kind, so that neither is taken
for a text.
-/

set_option autoImplicit false

namespace Timetable.Toml

/-! ## Numbers -/

/-- The digits of a text with lone underscores between them, if it is nothing else. -/
def digitGroups? (isDigit : Char → Bool) (s : List Char) : Option (List Char) :=
  let groups := s.splitOn '_'
  if groups.all fun g => !g.isEmpty && g.all isDigit then some groups.flatten else none

/-- A text without its sign, and whether the sign is a minus. -/
def dropSign (s : List Char) : Bool × List Char :=
  match s with
  | '+' :: t => (false, t)
  | '-' :: t => (true, t)
  | _ => (false, s)

/-- Whether a character is a digit of a base. -/
def isBaseDigit (base : Nat) (c : Char) : Bool :=
  if base = 16 then c.isDigit || ('a' ≤ c && c ≤ 'f') || ('A' ≤ c && c ≤ 'F')
  else '0' ≤ c && c.toNat < '0'.toNat + base

/-- The worth of a digit. -/
def digitWorth (c : Char) : Nat :=
  if c.isDigit then c.toNat - '0'.toNat else c.toLower.toNat - 'a'.toNat + 10

/-- The worth of some digits. -/
def worth (base : Nat) (ds : List Char) : Nat :=
  ds.foldl (fun n c => n * base + digitWorth c) 0

/-- Whether the digits of a whole number have no needless zero in front. -/
def hasNoLeadingZero (ds : List Char) : Bool :=
  match ds with
  | '0' :: _ :: _ => false
  | _ => true

/-- Whether a text is a whole number in another base than ten, with its prefix. -/
def isBased (s : List Char) : Bool :=
  match s with
  | '0' :: mark :: t =>
    let base := match mark with
      | 'x' => 16
      | 'o' => 8
      | 'b' => 2
      | _ => 0
    if base = 0 then false
    else
      match digitGroups? (isBaseDigit base) t with
      | some ds => worth base ds < 0x8000000000000000
      | none => false
  | _ => false

/-- Whether a text is a whole number of 64 bits. -/
def isInteger (s : List Char) : Bool :=
  isBased s ||
    match dropSign s with
    | (negative, t) =>
      match digitGroups? Char.isDigit t with
      | some ds =>
        -- the negative numbers go one further than the positive ones
        hasNoLeadingZero t &&
          (worth 10 ds < 0x8000000000000000 || (negative && worth 10 ds == 0x8000000000000000))
      | none => false

/-- Whether a text is an exponent, behind its letter. -/
def isExponent (s : List Char) : Bool :=
  (digitGroups? Char.isDigit (dropSign s).2).isSome

/-- Whether a text is a number with a fraction, an exponent or both, or one of the two words that
stand for no finite number. -/
def isFloat (s : List Char) : Bool :=
  let t := (dropSign s).2
  if t == "inf".toList || t == "nan".toList then true
  else
    let isE (c : Char) := c == 'e' || c == 'E'
    let mantissa := t.takeWhile (!isE ·)
    let whole := mantissa.takeWhile (· != '.')
    let wholeFits := (digitGroups? Char.isDigit whole).isSome && hasNoLeadingZero whole
    let fractionFits :=
      match mantissa.dropWhile (· != '.') with
      | [] => true
      | _ :: fraction => (digitGroups? Char.isDigit fraction).isSome
    let exponentFits :=
      match t.dropWhile (!isE ·) with
      -- without an exponent there must be a point
      | [] => mantissa.contains '.'
      | _ :: exponent => isExponent exponent
    wholeFits && fractionFits && exponentFits

/-! ## Times -/

/-- Reads a number of exactly two digits. -/
def twoDigits? : List Char → Option (Nat × List Char)
  | a :: b :: t => if a.isDigit && b.isDigit then some (worth 10 [a, b], t) else none
  | _ => none

/-- What remains behind a given character. -/
def drop? (c : Char) : List Char → Option (List Char)
  | d :: t => if c == d then some t else none
  | [] => none

/-- The number of days of a month. -/
def monthLength (year month : Nat) : Nat :=
  if month = 2 then
    if (year % 4 = 0 ∧ year % 100 ≠ 0) ∨ year % 400 = 0 then 29 else 28
  else if month = 4 ∨ month = 6 ∨ month = 9 ∨ month = 11 then 30
  else 31

/-- What remains behind a date. -/
def behindDate? (s : List Char) : Option (List Char) := do
  let (century, s) ← twoDigits? s
  let (year, s) ← twoDigits? s
  let (month, s) ← twoDigits? (← drop? '-' s)
  let (day, s) ← twoDigits? (← drop? '-' s)
  if 1 ≤ month ∧ month ≤ 12 ∧ 1 ≤ day ∧ day ≤ monthLength (century * 100 + year) month then some s
  else none

/-- What remains behind a time of day. -/
def behindClock? (s : List Char) : Option (List Char) := do
  let (hour, s) ← twoDigits? s
  let (minute, s) ← twoDigits? (← drop? ':' s)
  let (second, s) ← twoDigits? (← drop? ':' s)
  -- a leap second is allowed
  if 23 < hour ∨ 59 < minute ∨ 60 < second then none
  else
    match s with
    | '.' :: t =>
      if (t.takeWhile Char.isDigit).isEmpty then none else some (t.dropWhile Char.isDigit)
    | _ => some s

/-- Whether a text is nothing or the offset of a time zone. -/
def isZone (s : List Char) : Bool :=
  match s with
  | [] => true
  | ['Z'] | ['z'] => true
  | c :: t =>
    (c == '+' || c == '-') &&
      match (do
        let (hour, t) ← twoDigits? t
        let (minute, t) ← twoDigits? (← drop? ':' t)
        return (hour, minute, t) : Option (Nat × Nat × List Char)) with
      | some (hour, minute, []) => hour ≤ 23 && minute ≤ 59
      | _ => false

/-- Whether a text is a date, a time of day, or a date and a time with or without a zone. -/
def isTime (s : List Char) : Bool :=
  match behindDate? s with
  | some [] => true
  | some (c :: t) =>
    (c == 'T' || c == 't' || c == ' ') &&
      match behindClock? t with
      | some zone => isZone zone
      | none => false
  | none =>
    match behindClock? s with
    | some [] => true
    | _ => false

/-! ## All together -/

/-- A character of a number, a truth value or a time, blanks apart. -/
def isScalarChar (c : Char) : Bool :=
  c.isAlphanum || c == '+' || c == '-' || c == '_' || c == '.' || c == ':'

/-- Takes the characters of a number, a truth value or a time off a text. A date and a time of
day may have a blank between them. -/
def takeScalar (s : List Char) : List Char × List Char :=
  let first := s.takeWhile isScalarChar
  let rest := s.dropWhile isScalarChar
  match rest with
  | ' ' :: t =>
    if behindDate? first == some [] && (twoDigits? t).isSome then
      (first ++ ' ' :: t.takeWhile isScalarChar, t.dropWhile isScalarChar)
    else (first, rest)
  | _ => (first, rest)

/-- Reads a number, a truth value or a time. -/
def readScalar? (s : List Char) : Option (Json × List Char) :=
  let (token, rest) := takeScalar s
  if token == "true".toList then some (.bool true, rest)
  else if token == "false".toList then some (.bool false, rest)
  else if isInteger token || isFloat token then some (.number (String.ofList token), rest)
  else if isTime token then some (.record [("time", .text (String.ofList token))], rest)
  else none

end Timetable.Toml
