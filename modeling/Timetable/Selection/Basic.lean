import Timetable.Text.Numeral

/-!
What one calendar field selects.

A field ranges over a domain of consecutive numbers. A selection over a domain
is in one of three states: nothing has been inserted, and the field takes any
number; one number has been inserted; or more than one insertion has happened,
and one flag for each number of the domain says whether it is in. The state only
goes forward, and it counts insertions and not numbers: the same number inserted
twice leaves a set of one.

The members of a selection, in ascending order, are the view through which the
operations are described.

The definitions follow `Value` and its `Slot`, with `add_value`, `add_range`,
`contains` and `matches`.
-/

set_option autoImplicit false

namespace Timetable

open Text (NumeralError wordLimit)

/-- The numbers from `lo` to `hi`, both included. Nothing keeps `lo` below `hi`; a domain with
its ends crossed holds no number. -/
structure Domain where
  lo : Nat
  hi : Nat
  deriving DecidableEq, Repr

namespace Domain

/-- Whether a number lies in the domain. -/
def holds (d : Domain) (n : Nat) : Bool :=
  d.lo ≤ n && n ≤ d.hi

/-- How many numbers a domain holds, when its ends are in order. -/
def width (d : Domain) : Nat :=
  d.hi - d.lo + 1

end Domain

/-- Why a number or a list of numbers is not taken into a selection. -/
inductive SelectionError where
  /-- The number is not in the domain. -/
  | outOfRange (value : Nat) (domain : Domain)
  /-- The text of a list item is no numeral. -/
  | invalidToken (token : String) (cause : NumeralError)
  /-- The domain has more numbers than a word of 32 bits can count. -/
  | tooWide
  deriving DecidableEq, Repr

/-- A selection of numbers of a domain. -/
inductive Selection (d : Domain) where
  /-- Nothing has been inserted, so every number is taken. -/
  | any
  /-- One insertion has happened. -/
  | one (value : Nat)
  /-- More than one insertion has happened; `flags` has one flag for each number, from `lo` on. -/
  | many (flags : Array Bool)
  deriving DecidableEq, Repr

namespace Selection

variable {d : Domain}

/-- Whether something has been inserted. -/
def isPopulated : Selection d → Bool
  | any => false
  | _ => true

/-- The number of a selection into which exactly one was inserted. -/
def single? : Selection d → Option Nat
  | one n => some n
  | _ => none

/-- Flags over a domain for the numbers of a list. -/
def flagsOf (d : Domain) (ns : List Nat) : Array Bool :=
  ns.foldl (fun flags n => flags.setIfInBounds (n - d.lo) true) (Array.replicate d.width false)

/-- Inserts a number. A number outside the domain is refused, and so is any number when the
domain is too wide to have flags; a refusal changes nothing. -/
def insert (s : Selection d) (n : Nat) : Except SelectionError (Selection d) :=
  if !d.holds n then .error (.outOfRange n d)
  else if wordLimit ≤ d.width then .error .tooWide
  else
    match s with
    | any => .ok (one n)
    -- the second insertion makes flags, also if it is of the same number
    | one m => .ok (many (flagsOf d [m, n]))
    | many flags => .ok (many (flags.setIfInBounds (n - d.lo) true))

/-- Inserts the numbers from `first` to `last`. Ends in the wrong order name no number, so
nothing is inserted and nothing is checked. -/
def insertRange (s : Selection d) (first last : Nat) : Except SelectionError (Selection d) :=
  -- this comes before the ends are looked at
  if last < first then .ok s
  else if !d.holds first then .error (.outOfRange first d)
  else if !d.holds last then .error (.outOfRange last d)
  else (List.range' first (last + 1 - first)).foldlM insert s

/-- Inserts those numbers of a list that the domain takes. -/
def ofList (ns : List Nat) : Selection d :=
  ns.foldl (fun s n => ((s.insert n).toOption).getD s) any

/-- Whether a number has been inserted. -/
def contains (s : Selection d) (n : Nat) : Bool :=
  match s with
  | any => false
  | one m => m == n
  -- below `lo` there is no flag, and a truncated difference would find the first one
  | many flags => d.lo ≤ n && flags.getD (n - d.lo) false

/-- Whether a number is selected: an empty selection takes every number. -/
def admits (s : Selection d) (n : Nat) : Bool :=
  !s.isPopulated || s.contains n

/-- The numbers inserted, in ascending order. -/
def members : Selection d → List Nat
  | any => []
  | one n => [n]
  | many flags =>
    ((List.range flags.size).filter fun i => flags.getD i false).map (d.lo + ·)

@[simp] theorem admits_any (n : Nat) : (any : Selection d).admits n = true := rfl

@[simp] theorem members_any : (any : Selection d).members = [] := rfl

@[simp] theorem members_one (n : Nat) : (one n : Selection d).members = [n] := rfl

end Selection

end Timetable
