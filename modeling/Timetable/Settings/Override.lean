import Timetable.Json.Basic
import Timetable.Text.Blank
import Timetable.Text.Numeral
import Timetable.Toml.Reader

/-!
Settings in the environment.

A variable whose name starts with `CALSCHED_`, in any letter case, sets the field
that the rest of its name leads to, one step for each word between underscores or
points.
Its value is a number, a truth value, a quoted text, a list or a dictionary if it
reads as one, and otherwise the text that it is.
-/

set_option autoImplicit false

namespace Timetable.Override

open Text

/-! ## Values -/

/-- A blank around values. -/
def isGap (c : Char) : Bool :=
  c == ' ' || c == '\t' || c == '\n' || c == '\r' || c == '\x0c'

/-- A text without its leading blanks. -/
def skipGap (s : List Char) : List Char :=
  s.dropWhile isGap

/-- A character that ends a plain value. -/
def isSeparator (c : Char) : Bool :=
  c == ',' || c == '\x7b' || c == '\x7d' || c == '[' || c == ']'

/-- A character of a key without quotes. -/
def isKeyChar (c : Char) : Bool :=
  c.isAlphanum || c == '_' || c == '-'

/-- Whether a text is a whole number of 64 bits. -/
def isInteger (s : List Char) : Bool :=
  let (negative, ds) := match s with
    | '+' :: t => (false, t)
    | '-' :: t => (true, t)
    | _ => (false, s)
  !ds.isEmpty && ds.all Char.isDigit &&
    -- signed or unsigned, whichever the sign asks for
    (if negative then Toml.worth 10 ds ≤ 0x8000000000000000
      else Toml.worth 10 ds < 0x10000000000000000)

/-- Whether a text is a number with a point: digits on at least one side of it, and perhaps an
exponent. -/
def isDecimal (s : List Char) : Bool :=
  let t := (Toml.dropSign s).2
  let isE (c : Char) := c == 'e' || c == 'E'
  let mantissa := t.takeWhile (!isE ·)
  let whole := mantissa.takeWhile (· != '.')
  let exponentFits :=
    match t.dropWhile (!isE ·) with
    | [] => true
    | _ :: exponent =>
      let ds := (Toml.dropSign exponent).2
      !ds.isEmpty && ds.all Char.isDigit
  match mantissa.dropWhile (· != '.') with
  | _ :: fraction =>
    whole.all Char.isDigit && fraction.all Char.isDigit && !(whole ++ fraction).isEmpty &&
      exponentFits
  | [] => false

/-- A plain value: a number if it reads as one, and otherwise a text. -/
def plain (s : List Char) : Json :=
  if isDecimal s || isInteger s then .number (String.ofList s) else .text (String.ofList s)

/-- Reads the rest of a quoted text behind its opening quote. -/
def readQuoted? (fuel : Nat) (s : List Char) : Option (String × List Char) :=
  Toml.readLineText? '"' fuel [] s

/-- Reads a key. -/
def readKey? (fuel : Nat) (s : List Char) : Option (String × List Char) :=
  match s with
  | '"' :: t => readQuoted? fuel t
  | _ =>
    match s.takeWhile isKeyChar with
    | [] => none
    | k => some (String.ofList k, s.dropWhile isKeyChar)

mutual

/-- Reads a value with the blanks around it. -/
def readValue? (fuel : Nat) (s : List Char) : Option (Json × List Char) :=
  match fuel with
  | 0 => none
  | fuel + 1 =>
    let result :=
      match skipGap s with
      | 't' :: 'r' :: 'u' :: 'e' :: t => some (.bool true, t)
      | 'f' :: 'a' :: 'l' :: 's' :: 'e' :: t => some (.bool false, t)
      | '\x7b' :: t => readPairs? fuel [] t
      | '[' :: t => readItems? fuel [] t
      | '"' :: t => (readQuoted? fuel t).map fun (text, rest) => (.text text, rest)
      | '\'' :: c :: '\'' :: t => some (.text c.toString, t)
      | '\'' :: _ => none
      | t => some (plain (trim (t.takeWhile (!isSeparator ·))), t.dropWhile (!isSeparator ·))
    match result with
    | some (v, rest) => some (v, skipGap rest)
    | none => none

/-- Reads the rest of a list. Its end stands right behind an item, a comma or the opening bracket;
with a blank in between, an empty text is an item of its own. -/
def readItems? (fuel : Nat) (done : List Json) (s : List Char) : Option (Json × List Char) :=
  match fuel with
  | 0 => none
  | fuel + 1 =>
    match s with
    | ']' :: t => some (.array done.reverse, t)
    | t =>
      match readValue? fuel t with
      | some (v, ',' :: rest) => readItems? fuel (v :: done) rest
      | some (v, ']' :: rest) => some (.array (v :: done).reverse, rest)
      | _ => none

/-- Reads the rest of a dictionary. Its end stands right behind a value, a comma or the opening
brace. A key that stands there again has its last value. -/
def readPairs? (fuel : Nat) (done : List (Option String × Json)) (s : List Char) :
    Option (Json × List Char) :=
  match fuel with
  | 0 => none
  | fuel + 1 =>
    match s with
    | '\x7d' :: t => some (.object done, t)
    | t =>
      match readKey? fuel (skipGap t) with
      | none => none
      | some (key, rest) =>
        match skipGap rest with
        | '=' :: t =>
          match readValue? fuel t with
          | some (v, ',' :: rest) => readPairs? fuel (replaceKey key v done) rest
          | some (v, '\x7d' :: rest) => some (.object (replaceKey key v done), rest)
          | _ => none
        | _ => none
where
  /-- The members with another value for a key. -/
  replaceKey (key : String) (v : Json) (done : List (Option String × Json)) :
      List (Option String × Json) :=
    done.filter (·.1 != some key) ++ [(some key, v)]

end

/-- The value of a variable. -/
def value (s : String) : Json :=
  let cs := s.toList
  match readValue? (2 * cs.length + 2) cs with
  | some (v, []) => v
  | _ => .text s

/-! ## Names -/

/-- What the names of the variables start with. -/
def namePrefix : String := "CALSCHED_"

/-- A character between two steps of a name. -/
def isStepEnd (c : Char) : Bool :=
  c == '_' || c == '.'

/-- The steps of a variable's name to the field that it sets. The variable that names the file of
the settings sets none, and neither does one with an empty step. -/
def path? (name : String) : Option (List String) :=
  let cs := (trim name.toList).map Char.toLower
  match (namePrefix.toList.map Char.toLower).isPrefixOf? cs with
  | some rest =>
    -- it names the file of the settings and is none of them
    if rest == "config".toList then none
    else
      let steps := (trim rest).splitOnP isStepEnd
      if steps.any List.isEmpty then none else some (steps.map String.ofList)
  | none => none

/-- A value behind some steps. -/
def nest (v : Json) : List String → Json
  | [] => v
  | k :: ks => .record [(k, nest v ks)]

/-! ## Merging -/

mutual

/-- Two values merged: objects member by member, and otherwise the second one wins. -/
def merge (v w : Json) : Json :=
  match v, w with
  -- only objects are merged, and a list is replaced as a whole
  | .object ms, .object ns => .object (mergeMembers ms ns)
  | _, w => w

/-- The members of two objects merged, those of the first in front. -/
def mergeMembers (ms ns : List (Option String × Json)) : List (Option String × Json) :=
  match ms with
  | [] => ns
  | (k, v) :: ms =>
    match ns.lookup k with
    | some w => (k, merge v w) :: mergeMembers ms (ns.filter (·.1 != k))
    | none => (k, v) :: mergeMembers ms ns

end

/-- The settings of the environment. Among variables that set the same field, the last one wins. -/
def settings (environment : List (String × String)) : Json :=
  environment.foldl
    (fun v (name, s) =>
      match path? name with
      | some path => merge v (nest (value s) path)
      | none => v)
    (.object [])

/-- Settings with those of the environment in place of them. -/
def apply (environment : List (String × String)) (v : Json) : Json :=
  merge v (settings environment)

end Timetable.Override
