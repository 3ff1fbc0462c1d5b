import Timetable.Json.Basic

/-!
The tables of a TOML document.

A document fills one table, and its headers and dotted keys say where in it a
value goes. Whether a table may still grow depends on how it came about, so a
table under construction remembers this. What is finished is a JSON value of the
same structure.
-/

set_option autoImplicit false

namespace Timetable.Toml

/-- How a table came about. -/
inductive Origin where
  /-- A header names it, or it is the table of the document. -/
  | header
  /-- The header of a table below it names it on the way. -/
  | passed
  /-- A dotted key names it. -/
  | dotted
  deriving DecidableEq, Repr

/-- What a key of a table under construction leads to. -/
inductive Node where
  /-- A finished value. -/
  | value (v : Json)
  | table (origin : Origin) (members : List (String × Node))
  /-- An array of tables, the last one in front. -/
  | tables (items : List (List (String × Node)))
  deriving Inhabited

/-- The members of a table under construction. -/
abbrev Members := List (String × Node)

namespace Members

/-- The table with another node for a key, at the place of the one it may have had. -/
def put (key : String) (node : Node) : Members → Members
  | [] => [(key, node)]
  | (k, n) :: ms => if k = key then (k, node) :: ms else (k, n) :: put key node ms

/-- Adds a value under a dotted key. The tables on the way must be open for dotted keys, and the
last of them must have come about by one. -/
def addValue? (ms : Members) (key : List String) (v : Json) : Option Members :=
  match key with
  | [] => none
  | [k] =>
    if (ms.lookup k).isSome then none
    else some (ms ++ [(k, .value v)])
  | k :: ks =>
    match ms.lookup k with
    | none => do
      let inner ← addValue? [] ks v
      return ms ++ [(k, .table .dotted inner)]
    | some (.table origin inner) =>
      -- a table that has a header of its own is closed to dotted keys
      if origin = .header then none
      -- a value goes only into a table that a dotted key has made
      else if ks.length = 1 ∧ origin ≠ .dotted then none
      else do
        let inner ← addValue? inner ks v
        return put k (.table origin inner) ms
    | some (.tables (inner :: items)) =>
      if ks.length = 1 then none
      else do
        let inner ← addValue? inner ks v
        return put k (.tables (inner :: items)) ms
    | some _ => none

/-- Applies a change to the table that a header's path leads to. Missing tables on the way come
about by it; of an array of tables the last one is meant. -/
def changeAt? (ms : Members) (path : List String) (change : Members → Option Members) :
    Option Members :=
  match path with
  | [] => change ms
  | k :: ks =>
    match ms.lookup k with
    | none => do
      let inner ← changeAt? [] ks change
      return ms ++ [(k, .table .passed inner)]
    | some (.table origin inner) => do
      let inner ← changeAt? inner ks change
      return put k (.table origin inner) ms
    | some (.tables (inner :: items)) => do
      let inner ← changeAt? inner ks change
      return put k (.tables (inner :: items)) ms
    | some _ => none

/-- Opens the table of a header. It must not have been opened before. -/
def openTable? (key : String) (ms : Members) : Option Members :=
  match ms.lookup key with
  | none => some (ms ++ [(key, .table .header [])])
  -- a table that was only passed may still get a header of its own
  | some (.table .passed inner) => some (put key (.table .header inner) ms)
  | some _ => none

/-- Opens one more table of an array of tables. -/
def openItem? (key : String) (ms : Members) : Option Members :=
  match ms.lookup key with
  | none => some (ms ++ [(key, .tables [[]])])
  | some (.tables items) => some (put key (.tables ([] :: items)) ms)
  | some _ => none

end Members

/-- A document under construction: its table, and the path of the table that is open. -/
structure Draft where
  root : Members := []
  path : List String := []

namespace Draft

/-- Adds a value to the open table. -/
def add? (d : Draft) (key : List String) (v : Json) : Option Draft := do
  let root ← Members.changeAt? d.root d.path fun ms => Members.addValue? ms key v
  return { d with root }

/-- Opens the table of a header, or one more table of an array of tables. -/
def open? (d : Draft) (isItem : Bool) (path : List String) : Option Draft :=
  match path.getLast? with
  | none => none
  | some key => do
    let opening := if isItem then Members.openItem? key else Members.openTable? key
    let root ← Members.changeAt? d.root path.dropLast opening
    return ⟨root, path⟩

end Draft

mutual

/-- The value of a finished node. -/
def Node.finish : Node → Json
  | .value v => v
  | .table _ members => .object (finishMembers members)
  | .tables items => .array (finishTables items).reverse

/-- The values of the members of a finished table. -/
def finishMembers : List (String × Node) → List (Option String × Json)
  | [] => []
  | (k, n) :: ms => (some k, n.finish) :: finishMembers ms

/-- The values of finished tables. -/
def finishTables : List (List (String × Node)) → List Json
  | [] => []
  | ms :: rest => .object (finishMembers ms) :: finishTables rest

end

end Timetable.Toml
