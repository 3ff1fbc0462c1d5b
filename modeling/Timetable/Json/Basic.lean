/-!
JSON values and their text.

A number is kept as it is written, because nothing here calculates with the
numbers of a document. A string may contain half of a surrogate pair, which is
no character; such a string can be passed over but not used, so it is kept as
the absence of a text.
-/

set_option autoImplicit false

namespace Timetable

/-- A JSON value. -/
inductive Json where
  | null
  | bool (value : Bool)
  | number (literal : String)
  | string (text : Option String)
  | array (items : List Json)
  | object (members : List (Option String × Json))
  deriving Inhabited

namespace Json

/-- A string with a text. -/
def text (s : String) : Json := string (some s)

/-- A natural number. -/
def nat (n : Nat) : Json := number (toString n)

/-- An integer. -/
def int (n : Int) : Json := number (toString n)

/-- An object whose keys have texts. -/
def record (members : List (String × Json)) : Json :=
  object (members.map fun (k, v) => (some k, v))

/-- The member of an object. -/
def member? (key : String) : Json → Option Json
  | object members => members.lookup (some key)
  | _ => none

/-! ## Writing -/

/-- A character in a JSON string. -/
def escaped (c : Char) : String :=
  match c with
  | '"' => "\\\""
  | '\\' => "\\\\"
  | '\n' => "\\n"
  | '\r' => "\\r"
  | '\t' => "\\t"
  | '\x08' => "\\b"
  | '\x0c' => "\\f"
  | c =>
    if c.toNat < 0x20 then
      "\\u00" ++ String.ofList [Nat.digitChar (c.toNat / 16), Nat.digitChar (c.toNat % 16)]
    else c.toString

/-- A string in quotes. -/
def quote (s : String) : String :=
  s.foldl (fun out c => out ++ escaped c) "\"" ++ "\""

/-- How the parts of a document are set off from each other. -/
structure Layout where
  /-- What stands after a bracket or comma, and before a closing bracket, at a depth. -/
  lineBreak : Nat → String
  /-- What stands between a key and its value. -/
  colon : String

/-- Everything on one line, without blanks. -/
def Layout.compact : Layout := ⟨fun _ => "", ":"⟩

/-- One item on each line, indented by two blanks for each depth. -/
def Layout.indented : Layout :=
  ⟨fun depth => "\n" ++ String.ofList (List.replicate (2 * depth) ' '), ": "⟩

/-- Items in brackets. -/
def bracketed (l : Layout) (depth : Nat) (opening closing : String) (items : List String) :
    String :=
  if items.isEmpty then opening ++ closing
  else
    opening ++ l.lineBreak (depth + 1) ++ ("," ++ l.lineBreak (depth + 1)).intercalate items ++
      l.lineBreak depth ++ closing

mutual

/-- The text of a value that stands at a depth. -/
def writeAt (l : Layout) (depth : Nat) : Json → String
  | null => "null"
  | bool b => if b then "true" else "false"
  | number literal => literal
  | string s => quote (s.getD "")
  | array items => bracketed l depth "[" "]" (writeItems l (depth + 1) items)
  | object members => bracketed l depth "\x7b" "\x7d" (writeMembers l (depth + 1) members)

/-- The texts of the items of an array. -/
def writeItems (l : Layout) (depth : Nat) : List Json → List String
  | [] => []
  | v :: vs => writeAt l depth v :: writeItems l depth vs

/-- The texts of the members of an object. -/
def writeMembers (l : Layout) (depth : Nat) : List (Option String × Json) → List String
  | [] => []
  | (k, v) :: ms => (quote (k.getD "") ++ l.colon ++ writeAt l depth v) :: writeMembers l depth ms

end

/-- The text of a value in a layout. -/
def write (l : Layout) (v : Json) : String :=
  writeAt l 0 v

end Json

end Timetable
