import Timetable.Json.Reader
import Timetable.Toml.Scalar
import Timetable.Toml.Table

/-!
Reading TOML documents.

A document is a sequence of lines: blank ones and comments, headers, and keys
with values. A value may run over several lines if it is an array or a text
between triple quotes. The result is the JSON value of the same structure.
-/

set_option autoImplicit false

namespace Timetable.Toml

open Json (readUnit? isHighSurrogate isLowSurrogate)

/-! ## Blanks, comments and line ends -/

/-- A blank within a line. -/
def isGap (c : Char) : Bool :=
  c == ' ' || c == '\t'

/-- A text without its leading blanks. -/
def skipGap (s : List Char) : List Char :=
  s.dropWhile isGap

/-- A character that may stand in comments and texts. -/
def isPlain (c : Char) : Bool :=
  c == '\t' || (0x20 ≤ c.toNat && c.toNat != 0x7F)

/-- What remains behind a line end. -/
def lineEnd? : List Char → Option (List Char)
  | '\n' :: t => some t
  | '\r' :: '\n' :: t => some t
  | _ => none

/-- A text without a leading comment. -/
def skipComment (s : List Char) : List Char :=
  match s with
  | '#' :: t => t.dropWhile isPlain
  | _ => s

/-- What remains behind the rest of a line on which nothing follows but a comment. -/
def restOfLine? (s : List Char) : Option (List Char) :=
  match skipComment (skipGap s) with
  | [] => some []
  | t => lineEnd? t

/-- A text without the blanks, comments and line ends in front. -/
def skipLines (fuel : Nat) (s : List Char) : List Char :=
  match fuel with
  | 0 => s
  | fuel + 1 =>
    -- a line of blanks, or one with a comment only
    let t := skipComment (skipGap s)
    match lineEnd? t with
    | some rest => skipLines fuel rest
    | none => t

/-! ## Texts -/

/-- Reads the code point of a long escape: eight hexadecimal digits. -/
def readLongUnit? (s : List Char) : Option (Nat × List Char) := do
  let (high, s) ← readUnit? s
  let (low, s) ← readUnit? s
  return (high * 0x10000 + low, s)

/-- The character of a code point, if it is one. -/
def charOf? (n : Nat) : Option Char :=
  if n < 0x110000 ∧ !isHighSurrogate n ∧ !isLowSurrogate n then some (Char.ofNat n) else none

/-- Reads an escape behind its backslash. -/
def readEscape? (s : List Char) : Option (Char × List Char) :=
  match s with
  | 'u' :: t => do
    let (n, t) ← readUnit? t
    return (← charOf? n, t)
  | 'U' :: t => do
    let (n, t) ← readLongUnit? t
    return (← charOf? n, t)
  | 'b' :: t => some ('\x08', t)
  | 't' :: t => some ('\t', t)
  | 'n' :: t => some ('\n', t)
  | 'f' :: t => some ('\x0c', t)
  | 'r' :: t => some ('\r', t)
  | '"' :: t => some ('"', t)
  | '\\' :: t => some ('\\', t)
  | _ => none

/-- Reads the rest of a text on one line behind its opening quote. Escapes count in a text between
double quotes only. -/
def readLineText? (quote : Char) (fuel : Nat) (done : List Char) (s : List Char) :
    Option (String × List Char) :=
  match fuel with
  | 0 => none
  | fuel + 1 =>
    match s with
    | [] => none
    | c :: t =>
      if c == quote then some (String.ofList done.reverse, t)
      else if c == '\\' && quote == '"' then do
        let (e, t) ← readEscape? t
        readLineText? quote fuel (e :: done) t
      else if isPlain c then readLineText? quote fuel (c :: done) t
      else none

/-- What remains behind a backslash that ends its line: all blanks and line ends up to the next
character. -/
def behindLineEscape? (s : List Char) : Option (List Char) := do
  let t ← lineEnd? (skipGap s)
  return t.dropWhile fun c => isGap c || c == '\n' || c == '\r'

/-- Takes three quotes that close a text off its end; up to two more belong to the text. -/
def closing? (quote : Char) (done : List Char) (s : List Char) : Option (String × List Char) :=
  let n := (s.takeWhile (· == quote)).length
  if n < 3 then none
  else
    -- five quotes in a row are two of the text and the three that close it
    let extra := min (n - 3) 2
    some (String.ofList (List.replicate extra quote ++ done).reverse, s.drop (3 + extra))

/-- Reads the rest of a text between triple quotes behind the opening ones. -/
def readBlockText? (quote : Char) (fuel : Nat) (done : List Char) (s : List Char) :
    Option (String × List Char) :=
  match fuel with
  | 0 => none
  | fuel + 1 =>
    match closing? quote done s with
    | some r => some r
    | none =>
      match lineEnd? s with
      | some t => readBlockText? quote fuel ('\n' :: done) t
      | none =>
        match s with
        | [] => none
        | c :: t =>
          if c == '\\' && quote == '"' then
            match behindLineEscape? t with
            | some t => readBlockText? quote fuel done t
            | none => do
              let (e, t) ← readEscape? t
              readBlockText? quote fuel (e :: done) t
          else if isPlain c then readBlockText? quote fuel (c :: done) t
          else none

/-- Reads a text on one line. -/
def readQuoted? (fuel : Nat) (s : List Char) : Option (String × List Char) :=
  match s with
  | c :: t => if c == '"' || c == '\'' then readLineText? c fuel [] t else none
  | [] => none

/-- Reads a text. A line end right behind triple quotes does not belong to it. -/
def readText? (fuel : Nat) (s : List Char) : Option (String × List Char) :=
  match s with
  | a :: b :: c :: t =>
    if a == b && b == c && (a == '"' || a == '\'') then
      readBlockText? a fuel [] ((lineEnd? t).getD t)
    else readQuoted? fuel s
  | _ => readQuoted? fuel s

/-! ## Keys -/

/-- A character of a key without quotes. -/
def isKeyChar (c : Char) : Bool :=
  c.isAlphanum || c == '-' || c == '_'

/-- Reads one part of a key. -/
def readKeyPart? (fuel : Nat) (s : List Char) : Option (String × List Char) :=
  match s with
  | '"' :: _ | '\'' :: _ => readQuoted? fuel s
  | _ =>
    match s.takeWhile isKeyChar with
    | [] => none
    | k => some (String.ofList k, s.dropWhile isKeyChar)

/-- Reads a key of one part or several with points between, and the blanks behind it. `done`
holds the parts so far, the last in front. -/
def readKey? (fuel : Nat) (done : List String) (s : List Char) : Option (List String × List Char) :=
  match fuel with
  | 0 => none
  | fuel + 1 => do
    let (k, rest) ← readKeyPart? fuel (skipGap s)
    match skipGap rest with
    | '.' :: t => readKey? fuel (k :: done) t
    | t => return ((k :: done).reverse, t)

/-! ## Values -/

mutual

/-- Reads a value. -/
def readValue? (fuel : Nat) (s : List Char) : Option (Json × List Char) :=
  match fuel with
  | 0 => none
  | fuel + 1 =>
    match s with
    | '"' :: _ | '\'' :: _ => (readText? fuel s).map fun (text, rest) => (.text text, rest)
    | '[' :: t => readItems? fuel [] t
    | '\x7b' :: t =>
      match skipGap t with
      | '\x7d' :: rest => some (.object [], rest)
      | t => readPairs? fuel [] t
    | _ => readScalar? s

/-- Reads the rest of an array. -/
def readItems? (fuel : Nat) (done : List Json) (s : List Char) : Option (Json × List Char) :=
  match fuel with
  | 0 => none
  | fuel + 1 =>
    match skipLines fuel s with
    | ']' :: t => some (.array done.reverse, t)
    | t =>
      match readValue? fuel t with
      | none => none
      | some (v, rest) =>
        match skipLines fuel rest with
        | ',' :: t => readItems? fuel (v :: done) t
        | ']' :: t => some (.array (v :: done).reverse, t)
        | _ => none

/-- Reads the rest of a table on one line from one of its keys on. -/
def readPairs? (fuel : Nat) (members : Members) (s : List Char) : Option (Json × List Char) :=
  match fuel with
  | 0 => none
  | fuel + 1 =>
    match readKey? fuel [] s with
    | some (key, '=' :: t) =>
      match readValue? fuel (skipGap t) with
      | none => none
      | some (v, rest) =>
        match Members.addValue? members key v with
        | none => none
        | some members =>
          match skipGap rest with
          | ',' :: t => readPairs? fuel members t
          | '\x7d' :: t => some (Node.finish (.table .header members), t)
          | _ => none
    | _ => none

end

/-! ## Documents -/

/-- Reads the path of a header behind its opening brackets. -/
def readHeader? (fuel : Nat) (closing : List Char) (s : List Char) :
    Option (List String × List Char) := do
  let (path, rest) ← readKey? fuel [] s
  return (path, ← closing.isPrefixOf? rest)

/-- Reads a key with its value into the open table. -/
def readPair? (fuel : Nat) (d : Draft) (s : List Char) : Option (Draft × List Char) := do
  let (key, rest) ← readKey? fuel [] s
  let (v, rest) ← readValue? fuel (skipGap (← drop? '=' rest))
  return (← d.add? key v, rest)

/-- Reads a header, or a key with its value. -/
def readStatement? (fuel : Nat) (d : Draft) (s : List Char) : Option (Draft × List Char) :=
  match s with
  | '[' :: '[' :: t => do
    let (path, rest) ← readHeader? fuel [']', ']'] t
    return (← d.open? true path, rest)
  | '[' :: t => do
    let (path, rest) ← readHeader? fuel [']'] t
    return (← d.open? false path, rest)
  | _ => readPair? fuel d s

/-- Reads the lines of a document. -/
def readLines? (fuel : Nat) (d : Draft) (s : List Char) : Option Draft :=
  match fuel with
  | 0 => none
  | fuel + 1 =>
    match skipLines fuel s with
    | [] => some d
    | t => do
      let (d, rest) ← readStatement? fuel d t
      readLines? fuel d (← restOfLine? rest)

/-- Reads a document. A byte order mark in front is passed over. -/
def read? (text : String) : Option Json := do
  let s := text.toList
  let s := (['\uFEFF'].isPrefixOf? s).getD s
  let d ← readLines? (2 * s.length + 2) {} s
  return Node.finish (.table .header d.root)

end Timetable.Toml
