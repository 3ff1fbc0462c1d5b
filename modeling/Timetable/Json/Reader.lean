import Timetable.Json.Basic

/-!
Reading JSON.

The reader takes the grammar at its word: no blanks but the four of the grammar,
no leading zeros, no control characters in strings, nothing behind the value but
blanks. Each step consumes a character at least, so the number of characters
bounds the number of steps.
-/

set_option autoImplicit false

namespace Timetable

namespace Json

/-- A blank between the parts of a document. -/
def isSpace (c : Char) : Bool :=
  c == ' ' || c == '\n' || c == '\t' || c == '\r'

/-- A text without its leading blanks. -/
def skipSpace (s : List Char) : List Char :=
  s.dropWhile isSpace

/-! ## Strings -/

/-- The value of a hexadecimal digit. -/
def hexDigit? (c : Char) : Option Nat :=
  if c.isDigit then some (c.toNat - '0'.toNat)
  else if 'a' ≤ c && c ≤ 'f' then some (c.toNat - 'a'.toNat + 10)
  else if 'A' ≤ c && c ≤ 'F' then some (c.toNat - 'A'.toNat + 10)
  else none

/-- Reads the four hexadecimal digits of a code unit. -/
def readUnit? : List Char → Option (Nat × List Char)
  | a :: b :: c :: d :: t => do
    let a ← hexDigit? a
    let b ← hexDigit? b
    let c ← hexDigit? c
    let d ← hexDigit? d
    return (((a * 16 + b) * 16 + c) * 16 + d, t)
  | _ => none

/-- The character of a short escape. -/
def shortEscape? : Char → Option Char
  | '"' => some '"'
  | '\\' => some '\\'
  | '/' => some '/'
  | 'b' => some '\x08'
  | 'f' => some '\x0c'
  | 'n' => some '\n'
  | 'r' => some '\r'
  | 't' => some '\t'
  | _ => none

/-- Whether a code unit is the first half of a pair. -/
def isHighSurrogate (u : Nat) : Bool :=
  0xD800 ≤ u && u < 0xDC00

/-- Whether a code unit is the second half of a pair. -/
def isLowSurrogate (u : Nat) : Bool :=
  0xDC00 ≤ u && u < 0xE000

/-- Reads the character of a code unit, with the second half behind the first half of a pair. An
unpaired half is no character. -/
def readEscapedUnit? (s : List Char) : Option (Option Char × List Char) := do
  let (u, rest) ← readUnit? s
  if isHighSurrogate u then
    match rest with
    | '\\' :: 'u' :: t =>
      match readUnit? t with
      | some (v, t') =>
        -- two halves make one character beyond the first 65536
        if isLowSurrogate v then
          return (some (Char.ofNat (0x10000 + (u - 0xD800) * 0x400 + (v - 0xDC00))), t')
        else return (none, rest)
      | none => none
    | _ => return (none, rest)
  -- a second half without the first
  else if isLowSurrogate u then return (none, rest)
  else return (some (Char.ofNat u), rest)

/-- Reads the rest of a string behind its opening quote. `done` holds the characters so far, the
last in front, unless one of them was none. -/
def readString? (fuel : Nat) (done : Option (List Char)) (s : List Char) :
    Option (Option String × List Char) :=
  match fuel with
  | 0 => none
  | fuel + 1 =>
    match s with
    | [] => none
    | '"' :: t => some (done.map fun cs => String.ofList cs.reverse, t)
    | '\\' :: 'u' :: t => do
      let (c, t) ← readEscapedUnit? t
      -- a half that is alone leaves the string without a text, but it is read on
      readString? fuel (do return (← c) :: (← done)) t
    | '\\' :: e :: t => do
      let c ← shortEscape? e
      readString? fuel (done.map (c :: ·)) t
    | c :: t => if c.toNat < 0x20 then none else readString? fuel (done.map (c :: ·)) t

/-! ## Numbers -/

/-- Takes one digit or more off a text. -/
def digits? (s : List Char) : Option (List Char × List Char) :=
  let ds := s.takeWhile Char.isDigit
  if ds.isEmpty then none else some (ds, s.dropWhile Char.isDigit)

/-- Takes an optional fraction off a text. -/
def fraction? (s : List Char) : Option (List Char × List Char) :=
  match s with
  | '.' :: t => (digits? t).map fun (ds, rest) => ('.' :: ds, rest)
  | _ => some ([], s)

/-- Takes an optional exponent off a text. -/
def exponent? (s : List Char) : Option (List Char × List Char) :=
  match s with
  | e :: t =>
    if e == 'e' || e == 'E' then
      match t with
      | '+' :: t => (digits? t).map fun (ds, rest) => (e :: '+' :: ds, rest)
      | '-' :: t => (digits? t).map fun (ds, rest) => (e :: '-' :: ds, rest)
      | _ => (digits? t).map fun (ds, rest) => (e :: ds, rest)
    else some ([], s)
  | [] => some ([], s)

/-- Reads a number. -/
def readNumber? (s : List Char) : Option (Json × List Char) := do
  let (sign, s) := match s with
    | '-' :: t => (['-'], t)
    | _ => ([], s)
  -- a zero in front is the whole part
  let (whole, s) ← match s with
    | '0' :: t => some (['0'], t)
    | _ => digits? s
  let (fraction, s) ← fraction? s
  let (exponent, s) ← exponent? s
  return (number (String.ofList (sign ++ whole ++ fraction ++ exponent)), s)

/-! ## Values -/

mutual

/-- Reads a value at the start of a text. -/
def readValue? (fuel : Nat) (s : List Char) : Option (Json × List Char) :=
  match fuel with
  | 0 => none
  | fuel + 1 =>
    match s with
    | 'n' :: 'u' :: 'l' :: 'l' :: t => some (null, t)
    | 't' :: 'r' :: 'u' :: 'e' :: t => some (bool true, t)
    | 'f' :: 'a' :: 'l' :: 's' :: 'e' :: t => some (bool false, t)
    | '"' :: t => (readString? fuel (some []) t).map fun (text, rest) => (string text, rest)
    | '[' :: t =>
      match skipSpace t with
      | ']' :: rest => some (array [], rest)
      | t => readItems? fuel [] t
    | '\x7b' :: t =>
      match skipSpace t with
      | '\x7d' :: rest => some (object [], rest)
      | t => readMembers? fuel [] t
    | _ => readNumber? s

/-- Reads the items of an array from one of them on. -/
def readItems? (fuel : Nat) (done : List Json) (s : List Char) : Option (Json × List Char) :=
  match fuel with
  | 0 => none
  | fuel + 1 =>
    match readValue? fuel (skipSpace s) with
    | none => none
    | some (v, rest) =>
      match skipSpace rest with
      | ',' :: t => readItems? fuel (v :: done) t
      | ']' :: t => some (array (v :: done).reverse, t)
      | _ => none

/-- Reads the members of an object from one of them on. -/
def readMembers? (fuel : Nat) (done : List (Option String × Json)) (s : List Char) :
    Option (Json × List Char) :=
  match fuel with
  | 0 => none
  | fuel + 1 =>
    match skipSpace s with
    | '"' :: t =>
      match readString? fuel (some []) t with
      | none => none
      | some (key, rest) =>
        match skipSpace rest with
        | ':' :: t =>
          match readValue? fuel (skipSpace t) with
          | none => none
          | some (v, rest) =>
            match skipSpace rest with
            | ',' :: t => readMembers? fuel ((key, v) :: done) t
            | '\x7d' :: t => some (object ((key, v) :: done).reverse, t)
            | _ => none
        | _ => none
    | _ => none

end

/-- Reads a document: one value with nothing but blanks around it. -/
def read? (s : String) : Option Json :=
  let cs := s.toList
  match readValue? (2 * cs.length + 2) (skipSpace cs) with
  | some (v, rest) => if (skipSpace rest).isEmpty then some v else none
  | none => none

end Json

end Timetable
