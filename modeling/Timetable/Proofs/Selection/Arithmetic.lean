import Timetable.Proofs.Selection.History
import Timetable.Proofs.Selection.Token

/-!
The arithmetic of selections.

A selection is computed in words of 32 bits. A sum that is no word, a difference
below zero and an index without a flag would each stop the program, and what was
done up to then would stay done. Here the operations are written step by step with
every such place in them. None of them is ever reached in a selection that
operations lead to, but for one: a domain of all words has one number more than a
word can count, so the first number that is inserted there stops the program. Apart
from that, the operations give what they give without words, and what an insertion
leaves when it is refused is what it found.
-/

set_option autoImplicit false

namespace Timetable

open Text (wordLimit)

/-! ## Words -/

namespace Word

/-- The sum of two words, if it is a word. -/
def add? (a b : Nat) : Option Nat :=
  if a + b < wordLimit then some (a + b) else none

/-- The difference of two words, if it is not below zero. -/
def sub? (a b : Nat) : Option Nat :=
  if b ≤ a then some (a - b) else none

/-- A sum that is a word is computed. -/
theorem add?_eq_some {a b : Nat} (h : a + b < wordLimit) : add? a b = some (a + b) :=
  if_pos h

/-- A difference is computed where it is not negative. -/
theorem sub?_eq_some {a b : Nat} (h : b ≤ a) : sub? a b = some (a - b) :=
  if_pos h

end Word

/-- How many numbers a domain holds. -/
def Domain.width? (d : Domain) : Option Nat := do
  let difference ← Word.sub? d.hi d.lo
  Word.add? difference 1

/-- How many numbers a run has. -/
def Run.length? (r : Run) : Option Nat := do
  let difference ← Word.sub? r.last r.first
  Word.add? difference 1

/-- Adds a number to runs of smaller numbers, of which the greatest stands in front. -/
def Run.append? : List Run → Nat → Option (List Run)
  | [], n => some [⟨n, n⟩]
  | r :: rs, n => do
    let next ← Word.add? r.last 1
    if next = n then return ⟨r.first, n⟩ :: rs
    else return ⟨n, n⟩ :: r :: rs

namespace Selection

variable {d : Domain}

/-! ## Insertions -/

/-- What an insertion leaves: the selection after it, and why it was refused if it was. -/
abbrev Outcome (d : Domain) : Type :=
  Selection d × Except SelectionError Unit

/-- Switches on a flag that there is. -/
def setFlag? (flags : Array Bool) (i : Nat) : Option (Array Bool) :=
  if i < flags.size then some (flags.setIfInBounds i true) else none

/-- Inserts a number, in words. The numbers of the domain are counted whether flags are made or
not. -/
def insert? (s : Selection d) (n : Nat) : Option (Outcome d) :=
  if !d.holds n then some (s, .error (.outOfRange n d))
  else do
    let width ← d.width?
    match s with
    | any => return (one n, .ok ())
    | one m =>
      let i ← Word.sub? m d.lo
      let flags ← setFlag? (Array.replicate width false) i
      let j ← Word.sub? n d.lo
      let flags ← setFlag? flags j
      return (many flags, .ok ())
    | many flags =>
      let j ← Word.sub? n d.lo
      let flags ← setFlag? flags j
      return (many flags, .ok ())

/-- Insertions one after another up to the first that is refused. Those before it stay. -/
def inOrder? {α : Type} (step : Selection d → α → Option (Outcome d)) (s : Selection d) :
    List α → Option (Outcome d)
  | [] => some (s, .ok ())
  | a :: as =>
    match step s a with
    | none => none
    | some (s', .error e) => some (s', .error e)
    | some (s', .ok ()) => s'.inOrder? step as

/-- Inserts the numbers from `first` to `last`, in words. -/
def insertRange? (s : Selection d) (first last : Nat) : Option (Outcome d) :=
  if last < first then some (s, .ok ())
  else if !d.holds first then some (s, .error (.outOfRange first d))
  else if !d.holds last then some (s, .error (.outOfRange last d))
  else s.inOrder? insert? (List.range' first (last + 1 - first))

/-- Inserts the numbers of an item, in words. -/
def insertItem? (s : Selection d) : Item → Option (Outcome d)
  | .number n => s.insert? n
  | .range a b => s.insertRange? a b

/-- Reads a list and inserts its items, in words. -/
def insertText? (s : Selection d) (list : List Char) : Option (Outcome d) :=
  match Item.readList list with
  | .ok items => s.inOrder? insertItem? items
  | .error e => some (s, .error e)

/-- A call, in words. -/
def perform? (s : Selection d) : Call → Option (Outcome d)
  | .insert n => s.insert? n
  | .insertRange a b => s.insertRange? a b
  | .insertText l => s.insertText? l

/-! ## Views -/

/-- The numbers inserted, in words: a number is the first of the domain and the index of its flag,
of which 32 bits are taken. -/
def members? : Selection d → Option (List Nat)
  | any => some []
  | one n => some [n]
  | many flags =>
    ((List.range flags.size).filter fun i => flags.getD i false).mapM fun i =>
      Word.add? d.lo (i % wordLimit)

/-- The runs of the members, in words, each number added to the runs of those before. -/
def runs? (s : Selection d) : Option (List Run) := do
  let members ← s.members?
  let runs ← members.foldlM Run.append? []
  return runs.reverse

/-- Whether there is a run of so many numbers, in words. -/
def hasRun? (count : Nat) (s : Selection d) : Option Bool := do
  let runs ← s.runs?
  runs.anyM fun r => do
    let length ← r.length?
    return count ≤ length

/-- The text of a selection, in words. -/
def text? (s : Selection d) : Option String :=
  let label (n : Nat) : String := String.ofList (Text.twoDigits n)
  if !s.isPopulated then some "*"
  else do
    if ← s.hasRun? 3 then
      let runs ← s.runs?
      return ",".intercalate (runs.map fun r =>
        if r.isLone then label r.first else label r.first ++ ".." ++ label r.last)
    else
      let members ← s.members?
      return ",".intercalate (members.map label)

/-! ## What insertions come to -/

/-- What comes of an insertion that is taken or refused as a whole. -/
def attempt (s : Selection d) : Except SelectionError (Selection d) → Outcome d
  | .ok s' => (s', .ok ())
  | .error e => (s, .error e)

/-- What comes of a call. -/
def perform (s : Selection d) : Call → Outcome d
  | .insert n => s.attempt (s.insert n)
  | .insertRange a b => s.attempt (s.insertRange a b)
  | .insertText l => s.insertText l

/-- An outcome, unless the domain had to be counted and is too wide for it. -/
def Outcome.unlessTooWide : Outcome d → Option (Outcome d)
  | (_, .error .tooWide) => none
  | o => some o

/-- Performing a call gives the selection that the call leaves. -/
theorem perform_fst (s : Selection d) (c : Call) : (s.perform c).1 = s.after c := by
  cases c with
  | insert n =>
    simp only [perform, after]
    cases s.insert n <;> rfl
  | insertRange a b =>
    simp only [perform, after]
    cases s.insertRange a b <;> rfl
  | insertText l => rfl

/-- The width of a domain is computed unless it is that of all words, for which it is one too
many. -/
theorem width?_eq (h : d.lo ≤ d.hi) :
    d.width? = if d.width < wordLimit then some d.width else none := by
  rw [Domain.width?, Word.sub?_eq_some h]
  rfl

variable {s : Selection d} {n : Nat}

/-! ## One number -/

/-- A number outside of the domain is refused before any arithmetic is done. -/
theorem insert?_eq_error (hn : ¬ d.holds n = true) :
    s.insert? n = some (s, .error (.outOfRange n d)) := by
  simp [insert?, hn]

/-- A domain of all words cannot be counted, so no number is inserted there. -/
theorem insert?_eq_none (hn : d.holds n = true) (hd : wordLimit ≤ d.width) :
    s.insert? n = none := by
  have hbounds := holds_iff.mp hn
  have hwidth : d.width? = none := by
    rw [width?_eq (by omega), if_neg (Nat.not_lt.mpr hd)]
  simp [insert?, hn, hwidth]

/-- A number of the domain is refused by `insert` if the width does not fit into a word; the checked
computation has no result there. -/
theorem insert_eq_tooWide (hn : d.holds n = true) (hd : wordLimit ≤ d.width) :
    s.insert n = .error .tooWide := by
  simp [insert, hn, hd]

/-- A number of a smaller domain has a flag, and so has a number that has been inserted. -/
theorem Reached.insert?_eq_ok (hs : s.Reached) (hn : d.holds n = true) (hd : d.width < wordLimit) :
    ∃ s', s.insert n = .ok s' ∧ s.insert? n = some (s', .ok ()) := by
  have hsub : ∀ {m}, d.holds m = true → Word.sub? m d.lo = some (m - d.lo) :=
    fun hm => Word.sub?_eq_some (holds_iff.mp hm).1
  have hwidth : d.width? = some d.width := by
    have hbounds := holds_iff.mp hn
    rw [width?_eq (by omega), if_pos hd]
  have hcount : ¬ wordLimit ≤ d.width := by omega
  -- the first number is stored by itself, the second one makes flags, and later ones set a flag
  cases s with
  | any => exact ⟨one n, by simp [Selection.insert, hn, hcount], by simp [insert?, hn, hwidth]⟩
  | one m =>
    have hm : d.holds m = true := hs.holds (by simp)
    refine ⟨many (flagsOf d [m, n]), by simp [Selection.insert, hn, hcount], ?_⟩
    simp [insert?, hn, hwidth, hsub hn, hsub hm, setFlag?, sub_lt_width hn, sub_lt_width hm,
      flagsOf]
  | many flags =>
    -- the index of the flag is in bounds, because a reached selection has flags for the whole
    -- domain
    have hsize : flags.size = d.width := hs.hasFlag.1
    refine ⟨many (flags.setIfInBounds (n - d.lo) true), insert_many hd hn flags, ?_⟩
    simp [insert?, hn, hwidth, hsub hn, setFlag?, sub_lt_width hn, hsize]

/-- **A number is inserted in words** as it is inserted, unless the domain is too wide. -/
theorem Reached.insert?_eq (hs : s.Reached) (n : Nat) :
    s.insert? n = Outcome.unlessTooWide (s.attempt (s.insert n)) := by
  by_cases hn : d.holds n = true
  · by_cases hd : d.width < wordLimit
    · obtain ⟨s', h, h'⟩ := hs.insert?_eq_ok hn hd
      rw [h, h']
      rfl
    · have hwide : wordLimit ≤ d.width := Nat.le_of_not_lt hd
      rw [insert?_eq_none hn hwide, insert_eq_tooWide hn hwide]
      rfl
  · rw [insert?_eq_error hn, insert_eq_error hn]
    rfl

/-! ## Rows of insertions -/

/-- Numbers of a domain are all inserted, if the first of them is. -/
theorem Reached.inOrder?_insert?_eq_ok (hs : s.Reached) (hd : d.width < wordLimit) {ns : List Nat}
    (hns : ∀ n ∈ ns, d.holds n = true) :
    ∃ s', ns.foldlM Selection.insert s = .ok s' ∧ s.inOrder? insert? ns = some (s', .ok ()) := by
  induction ns generalizing s with
  | nil => exact ⟨s, rfl, rfl⟩
  | cons n ns ih =>
    obtain ⟨s₁, h₁, h₁'⟩ := hs.insert?_eq_ok (hns n (by simp)) hd
    obtain ⟨s', h, h'⟩ := ih (hs.insert h₁) fun m hm => hns m (by simp [hm])
    refine ⟨s', ?_, ?_⟩
    · rw [List.foldlM_cons, h₁]
      exact h
    · rw [inOrder?, h₁']
      exact h'

/-- **A row of numbers of the domain** is inserted or stops with the first, so no part of it
stays. -/
theorem Reached.inOrder?_insert?_eq (hs : s.Reached) {ns : List Nat}
    (hns : ∀ n ∈ ns, d.holds n = true) :
    s.inOrder? insert? ns = Outcome.unlessTooWide (s.attempt (ns.foldlM Selection.insert s)) := by
  by_cases hd : d.width < wordLimit
  · obtain ⟨s', h, h'⟩ := hs.inOrder?_insert?_eq_ok hd hns
    rw [h, h']
    rfl
  · have hwide : wordLimit ≤ d.width := Nat.le_of_not_lt hd
    -- Nothing is left behind by a row that stops, since it stops with its first number.
    cases ns with
    | nil => rfl
    | cons n ns =>
      have hn : d.holds n = true := hns n (by simp)
      rw [List.foldlM_cons, insert_eq_tooWide hn hwide, inOrder?, insert?_eq_none hn hwide]
      rfl

/-- The same for ranges: the numbers are inserted one by one. -/
theorem Reached.insertRange?_eq (hs : s.Reached) (a b : Nat) :
    s.insertRange? a b = Outcome.unlessTooWide (s.attempt (s.insertRange a b)) := by
  rw [insertRange?, Selection.insertRange]
  by_cases hlt : b < a
  · rw [if_pos hlt, if_pos hlt]
    rfl
  by_cases ha : d.holds a = true
  · by_cases hb : d.holds b = true
    · have hrange : (Item.range a b).IsTaken d := fun _ => ⟨ha, hb⟩
      simp only [hlt, ha, hb, Bool.not_true, Bool.false_eq_true, if_false]
      exact hs.inOrder?_insert?_eq fun n hn => hrange.holds hn
    · simp [hlt, ha, hb, attempt, Outcome.unlessTooWide]
  · simp [hlt, ha, attempt, Outcome.unlessTooWide]

/-- The same for items. -/
theorem Reached.insertItem?_eq (hs : s.Reached) (i : Item) :
    s.insertItem? i = Outcome.unlessTooWide (s.attempt (s.insertItem i)) := by
  cases i with
  | number n => exact hs.insert?_eq n
  | range a b => exact hs.insertRange?_eq a b

/-- **A row of items in words** leaves what the items leave that are in front of the first one that
is refused. -/
theorem Reached.inOrder?_insertItem?_eq (hs : s.Reached) (items : List Item) :
    s.inOrder? insertItem? items = Outcome.unlessTooWide (s.insertAll items) := by
  induction items generalizing s with
  | nil => rfl
  | cons i items ih =>
    rw [inOrder?, hs.insertItem?_eq, Selection.insertAll]
    cases h : s.insertItem i with
    | ok s' => exact ih (hs.insertItem h)
    | error e => cases e <;> rfl

/-- The same for lists, which are read before anything is inserted. -/
theorem Reached.insertText?_eq (hs : s.Reached) (l : List Char) :
    s.insertText? l = Outcome.unlessTooWide (s.insertText l) := by
  rw [insertText?, Selection.insertText]
  cases h : Item.readList l with
  | ok items => exact hs.inOrder?_insertItem?_eq items
  | error e =>
    cases e with
    | tooWide => exact absurd h Item.readList_ne_tooWide
    | _ => rfl

/-- **A call in words** leaves what the call leaves, and is taken or refused as it is, unless the
domain is too wide. -/
theorem Reached.perform?_eq (hs : s.Reached) (c : Call) :
    s.perform? c = Outcome.unlessTooWide (s.perform c) := by
  cases c with
  | insert n => exact hs.insert?_eq n
  | insertRange a b => exact hs.insertRange?_eq a b
  | insertText l => exact hs.insertText?_eq l

/-! ## Words in views -/

/-- Steps that all have results have the list of the results. -/
theorem mapM_eq_some_map {α β : Type} {f : α → Option β} {g : α → β} {as : List α}
    (h : ∀ a ∈ as, f a = some (g a)) : as.mapM f = some (as.map g) := by
  induction as with
  | nil => rfl
  | cons a as ih =>
    rw [List.mapM_cons, h a (by simp), ih fun a' ha' => h a' (by simp [ha'])]
    rfl

/-- A search whose steps all have answers has the answer of `any`. -/
theorem anyM_eq_some_any {α : Type} {f : α → Option Bool} {g : α → Bool} {as : List α}
    (h : ∀ a ∈ as, f a = some (g a)) : as.anyM f = some (as.any g) := by
  induction as with
  | nil => rfl
  | cons a as ih =>
    rw [List.anyM_cons, h a (by simp), List.any_cons]
    cases g a with
    | true => rfl
    | false => exact ih fun a' ha' => h a' (by simp [ha'])

/-- Where something has been inserted, the numbers of the domain can be counted. -/
theorem Reached.width_lt (hs : s.Reached) (hne : s ≠ .any) : d.width < wordLimit := by
  induction hs with
  | any => exact absurd rfl hne
  | @insert s s' n _ h ih =>
    by_contra hd
    rw [insert_eq_tooWide (holds_of_insert_eq_ok h) (Nat.le_of_not_lt hd)] at h
    cases h

/-- **The members are words**, so none of the sums leaves them. -/
theorem Reached.members?_eq (hs : s.Reached) (hhi : d.hi < wordLimit) :
    s.members? = some s.members := by
  cases s with
  | any => rfl
  | one n => rfl
  | many flags =>
    rw [members?, members]
    refine mapM_eq_some_map fun i hi => ?_
    have hmember : d.lo + i ∈ (many flags : Selection d).members := by
      rw [members]
      exact List.mem_map_of_mem hi
    have hlt : d.lo + i < wordLimit := lt_wordLimit_of_holds (hs.holds hmember) hhi
    rw [Nat.mod_eq_of_lt (by omega), Word.add?_eq_some hlt]

end Selection

end Timetable
