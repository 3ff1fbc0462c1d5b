import Timetable.Selection.Basic
import Timetable.Text.Blank
import Timetable.Text.Cut
import Timetable.Text.Quoted

/-!
Lists of numbers and ranges, as they are written in a calendar field.

An item is a number or two numbers with two points between. Items are separated
by commas and may have blanks around them; an empty item and a lone star stand
for nothing. A list is read completely before anything is inserted, so a text
with a malformed item changes nothing. Insertion then goes from left to right and
keeps what came before a number that the domain refuses.

The definitions follow `parse_items` and `add_item`.
-/

set_option autoImplicit false

namespace Timetable

open Text

/-- The wording of a refused insertion. -/
def SelectionError.message : SelectionError → String
  | .outOfRange value domain =>
    "Value outside of range: " ++ toString value ++ " is not within " ++ toString domain.lo ++ ".."
      ++ toString domain.hi
  | .invalidToken token cause => "Invalid value " ++ quoted token ++ ": " ++ cause.message
  | .tooWide => "attempt to add with overflow"

/-- An item of a list. -/
inductive Item where
  | number (value : Nat)
  | range (first last : Nat)
  deriving DecidableEq, Repr

namespace Item

/-- Reads a number with blanks around it; an error quotes the text with its blanks. -/
def readNumber (token : List Char) : Except SelectionError Nat :=
  match readNumeral (trim token) with
  | .ok n => .ok n
  | .error e => .error (.invalidToken (String.ofList token) e)

/-- Reads an item; of two bad ends the first is reported. -/
def read (token : List Char) : Except SelectionError Item :=
  match cutAt? ['.', '.'] token with
  -- only the first two points separate, and what is behind them must be a number
  | some (first, last) => do
    let a ← readNumber first
    let b ← readNumber last
    return range a b
  | none => do
    let a ← readNumber token
    return number a

/-- The texts of the items of a list, without those that stand for nothing. -/
def tokens (list : List Char) : List (List Char) :=
  ((list.splitOn ',').map trim).filter fun t => !t.isEmpty && t != ['*']

/-- Reads the items of a list. -/
def readList (list : List Char) : Except SelectionError (List Item) :=
  (tokens list).mapM read

/-- An item with a function applied to its numbers. -/
def map (f : Nat → Nat) : Item → Item
  | number n => number (f n)
  | range a b => range (f a) (f b)

end Item

namespace Selection

variable {d : Domain}

/-- Inserts the numbers of an item. -/
def insertItem (s : Selection d) : Item → Except SelectionError (Selection d)
  | .number n => s.insert n
  | .range a b => s.insertRange a b

/-- Inserts the numbers of an item of a cyclic field: a range with its ends in the wrong order
runs through the end of the domain and goes on at its start. -/
def insertCyclic (s : Selection d) : Item → Except SelectionError (Selection d)
  | .range a b =>
    if b < a then do
      -- if `a` is above the domain, this range is in the wrong order too, and `a` is not looked at
      let s' ← s.insertRange a d.hi
      s'.insertRange d.lo b
    else s.insertRange a b
  | item => s.insertItem item

/-- Inserts items one after another. The result is the selection reached and, if an item was
refused, why; the items before that one stay in. -/
def insertAll (s : Selection d) : List Item → Selection d × Except SelectionError Unit
  | [] => (s, .ok ())
  | item :: items =>
    match s.insertItem item with
    | .ok s' => s'.insertAll items
    | .error e => (s, .error e)

/-- Reads a list and inserts its items. -/
def insertText (s : Selection d) (list : List Char) : Selection d × Except SelectionError Unit :=
  match Item.readList list with
  | .ok items => s.insertAll items
  | .error e => (s, .error e)

end Selection

end Timetable
