import Timetable.Selection.Basic

/-!
Selections as runs of consecutive numbers, and their text.

The members of a selection fall into maximal runs. A run of three or more makes
the whole text a list of runs, each written by its ends; without one the members
are listed one by one. How a number is written is for the caller to say, because
weekdays are written by name.

The definitions follow `ranges`, `has_contiguous_range`,
`has_long_contiguous_range` and `write_with`.
-/

set_option autoImplicit false

namespace Timetable

/-- The consecutive numbers from `first` to `last`, both included. -/
structure Run where
  first : Nat
  last : Nat
  deriving DecidableEq, Repr

namespace Run

/-- How many numbers a run has. -/
def length (r : Run) : Nat :=
  r.last - r.first + 1

/-- Whether a run is a lone number. -/
def isLone (r : Run) : Bool :=
  r.first == r.last

/-- Puts a number in front of runs whose numbers are all greater: it joins the first run if it
stands right below it. -/
def extend (n : Nat) : List Run → List Run
  | [] => [⟨n, n⟩]
  | r :: rs => if n + 1 = r.first then ⟨n, r.last⟩ :: rs else ⟨n, n⟩ :: r :: rs

/-- The maximal runs of an ascending list. -/
def ofMembers (ns : List Nat) : List Run :=
  ns.foldr extend []

/-- The numbers of a run. -/
def toList (r : Run) : List Nat :=
  List.range' r.first r.length

end Run

namespace Selection

variable {d : Domain}

/-- The maximal runs of the members. -/
def runs (s : Selection d) : List Run :=
  Run.ofMembers s.members

/-- Whether some two members are neighbours. -/
def hasPair (s : Selection d) : Bool :=
  s.runs.any (2 ≤ ·.length)

/-- Whether some three members are consecutive. -/
def hasTriple (s : Selection d) : Bool :=
  s.runs.any (3 ≤ ·.length)

/-- The text of a selection, its numbers written by `label`. -/
def textWith (label : Nat → String) (s : Selection d) : String :=
  if !s.isPopulated then "*"
  else
    let parts :=
      -- a pair is written as a range only beside a longer run
      if s.hasTriple then
        s.runs.map fun r =>
          if r.isLone then label r.first else label r.first ++ ".." ++ label r.last
      else s.members.map label
    ",".intercalate parts

/-- The text of a selection, its numbers in two digits. -/
def text (s : Selection d) : String :=
  s.textWith fun n => String.ofList (Text.twoDigits n)

end Selection

end Timetable
