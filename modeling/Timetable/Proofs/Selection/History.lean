import Timetable.Proofs.Selection.Listing

/-!
What a selection records of its history.

A number, a range and a text are inserted by three calls, and each of them may be
refused. All three are rows of items, and the numbers of a row go in one by one up
to the first item that the domain refuses. So the selection after a history of
calls, refused ones among them, is the one into which all these numbers have been
inserted in their order. How it is stored tells whether they are none, one or more,
and what is in it tells which they are.
-/

set_option autoImplicit false

namespace Timetable

open Text (wordLimit)

/-- Whether the domain takes an item is computed. -/
instance Item.decidableIsTaken (d : Domain) (i : Item) : Decidable (i.IsTaken d) :=
  match i with
  | number n => inferInstanceAs (Decidable (d.holds n = true))
  | range a b => inferInstanceAs (Decidable (a ≤ b → d.holds a = true ∧ d.holds b = true))

namespace Selection

variable {d : Domain} {s : Selection d} {ns : List Nat}

/-! ## Calls -/

/-- A call that changes a selection. -/
inductive Call where
  | insert (value : Nat)
  | insertRange (first last : Nat)
  | insertText (list : List Char)
  deriving DecidableEq, Repr

/-- The selection after a call. A number or a range that is refused changes nothing, and of a list
the items in front of the refused one stay in. -/
def after (s : Selection d) : Call → Selection d
  | .insert n => (s.insert n).toOption.getD s
  | .insertRange a b => (s.insertRange a b).toOption.getD s
  | .insertText l => (s.insertText l).1

/-- The selection after a history of calls. -/
def afterAll (s : Selection d) (calls : List Call) : Selection d :=
  calls.foldl after s

namespace Call

/-- The items that a call asks to insert. A text that cannot be read asks for none. -/
def items : Call → List Item
  | insert n => [.number n]
  | insertRange a b => [.range a b]
  | insertText l =>
    match Item.readList l with
    | .ok items => items
    | .error _ => []

/-- The numbers that a call inserts: those of its items in front of the first one that the domain
refuses. -/
def numbers (d : Domain) (c : Call) : List Nat :=
  (c.items.takeWhile (Item.IsTaken d ·)).flatMap Item.numbers

end Call

/-- A call inserts its items one after another. -/
theorem after_eq_insertAll (s : Selection d) (c : Call) : s.after c = (s.insertAll c.items).1 := by
  cases c with
  | insert n =>
    simp only [after, Call.items, insertAll, insertItem]
    cases s.insert n <;> rfl
  | insertRange a b =>
    simp only [after, Call.items, insertAll, insertItem]
    cases s.insertRange a b <;> rfl
  | insertText l =>
    simp only [after, Call.items, insertText]
    cases Item.readList l <;> rfl

/-! ## What goes in -/

/-- **One call.** Of a row of items the numbers go in one by one, up to the first item that is
refused. -/
theorem Reached.foldlM_insertAll (hs : s.Reached) (hd : d.width < wordLimit) (items : List Item) :
    ((items.takeWhile (Item.IsTaken d ·)).flatMap Item.numbers).foldlM Selection.insert s =
      .ok (s.insertAll items).1 := by
  induction items generalizing s with
  | nil => rfl
  | cons i items ih =>
    by_cases hi : i.IsTaken d
    -- an item that is taken puts all its numbers in, and the row goes on from there
    · obtain ⟨s₁, h₁, hs₁, -⟩ := hs.exists_foldlM_insert hd fun n hn => hi.holds hn
      have hitem : s.insertItem i = .ok s₁ := insertItem_eq_ok_iff.mpr ⟨hi, h₁⟩
      rw [List.takeWhile_cons_of_pos (by simpa using hi), List.flatMap_cons, List.foldlM_append, h₁,
        Selection.insertAll, hitem]
      exact ih hs₁
    -- an item that is refused ends the row, and the numbers behind it are left out on both sides
    · have hrefused : ∀ s', s.insertItem i ≠ .ok s' := fun s' h =>
        hi (insertItem_eq_ok_iff.mp h).1
      rw [List.takeWhile_cons_of_neg (by simpa using hi), Selection.insertAll]
      cases h : s.insertItem i with
      | ok s' => exact absurd h (hrefused s')
      | error err => rfl

theorem Reached.after (hs : s.Reached) (c : Call) : (s.after c).Reached := by
  rw [after_eq_insertAll]
  exact hs.insertAll c.items

/-- **A history of calls.** The numbers of all of them go in one by one. -/
theorem Reached.foldlM_afterAll (hs : s.Reached) (hd : d.width < wordLimit) (calls : List Call) :
    (calls.flatMap (Call.numbers d)).foldlM Selection.insert s = .ok (s.afterAll calls) := by
  induction calls generalizing s with
  | nil => rfl
  | cons c calls ih =>
    have hcall : (c.numbers d).foldlM Selection.insert s = .ok (s.after c) := by
      rw [after_eq_insertAll]
      exact hs.foldlM_insertAll hd c.items
    rw [List.flatMap_cons, List.foldlM_append, hcall]
    exact ih (hs.after c)

/-- The selection after a history is told by the numbers that went in. -/
theorem afterAll_eq_inserted (hd : d.width < wordLimit) (calls : List Call) :
    (∀ n ∈ calls.flatMap (Call.numbers d), d.holds n = true) ∧
      afterAll (any : Selection d) calls = inserted d (calls.flatMap (Call.numbers d)) := by
  have hall := Reached.any.foldlM_afterAll hd calls
  have hholds := holds_of_foldlM_insert hall
  rw [foldlM_insert_any hd hholds, Except.ok.injEq] at hall
  exact ⟨hholds, hall.symm⟩

/-! ## What is recorded -/

/-- A selection that records some numbers, inserted one after another. -/
structure Records (s : Selection d) (ns : List Nat) : Prop where
  /-- All of them are numbers of the domain. -/
  holds : ∀ n ∈ ns, d.holds n = true
  /-- Nothing is stored if there are none. -/
  any_iff : s = any ↔ ns = []
  /-- A number is stored alone if it is the only one, inserted once. -/
  one_iff : ∀ n, s = one n ↔ ns = [n]
  /-- Flags are stored if there is more than one insertion. -/
  many_iff : (∃ flags, s = many flags) ↔ 1 < ns.length
  /-- There is a flag for each number of the domain, and one of the flags is on. -/
  flags : ∀ flags, s = many flags → flags.size = d.width ∧ true ∈ flags
  /-- The members are in ascending order. -/
  pairwise_members : s.members.Pairwise (· < ·)
  /-- The members are the numbers inserted. -/
  mem_members : ∀ n, n ∈ s.members ↔ n ∈ ns
  /-- What is contained is a member. -/
  contains_iff : ∀ n, s.contains n = true ↔ n ∈ s.members
  /-- Every number is admitted if nothing is stored, and else the members are. -/
  admits_iff : ∀ n, s.admits n = true ↔ s = any ∨ n ∈ s.members

theorem inserted_eq_one_iff {n : Nat} : inserted d ns = one n ↔ ns = [n] := by
  match ns with
  | [] => simp [inserted]
  | [m] => simp [inserted]
  | m :: m' :: ns => simp [inserted]

/-- A flag that is found to be on is one of the flags. -/
theorem true_mem_of_getD {flags : Array Bool} {i : Nat} (h : flags.getD i false = true) :
    true ∈ flags := by
  have hlt : i < flags.size := lt_size_of_getD h
  rw [Array.getD_eq_getD_getElem?, Array.getElem?_eq_getElem hlt, Option.getD_some] at h
  exact h ▸ Array.getElem_mem hlt

/-- An empty selection admits every number, and any other one its members. -/
theorem admits_iff_eq_any_or {n : Nat} : s.admits n = true ↔ s = any ∨ n ∈ s.members := by
  rw [admits, Bool.or_eq_true, Bool.not_eq_true', isPopulated_eq_false_iff, contains_iff]

/-- A row of insertions is recorded. -/
theorem records_inserted (hd : d.width < wordLimit) (hns : ∀ n ∈ ns, d.holds n = true) :
    (inserted d ns).Records ns := by
  obtain ⟨hreached, hmembers⟩ := inserted_spec hd hns
  exact {
    holds := hns
    any_iff := inserted_eq_any_iff
    one_iff := fun n => inserted_eq_one_iff
    many_iff := (inserted_stored ns).2
    flags := by
      intro flags hflags
      -- flags are only stored by operations, which turn one of them on
      have hflag := hreached.hasFlag
      rw [hflags] at hflag
      obtain ⟨hsize, i, hi⟩ := hflag
      exact ⟨hsize, true_mem_of_getD hi⟩
    pairwise_members := pairwise_members _
    mem_members := hmembers
    contains_iff := fun n => contains_iff
    admits_iff := fun n => admits_iff_eq_any_or }

/-- **A selection records its history.** Whatever calls are made on an empty selection, and however
many of them are refused in whole or in part, it records the numbers that went in. A selection that
stores flags stores flags after every further call. -/
theorem records_history (hd : d.width < wordLimit) (calls : List Call) :
    (afterAll (any : Selection d) calls).Records (calls.flatMap (Call.numbers d)) ∧
      ∀ more flags, afterAll (any : Selection d) calls = many flags →
        ∃ flags', afterAll (any : Selection d) (calls ++ more) = many flags' := by
  have hrecords : ∀ calls : List Call,
      (afterAll (any : Selection d) calls).Records (calls.flatMap (Call.numbers d)) := by
    intro calls
    obtain ⟨hholds, hstored⟩ := afterAll_eq_inserted hd calls
    rw [hstored]
    exact records_inserted hd hholds
  refine ⟨hrecords calls, fun more flags hflags => (hrecords (calls ++ more)).many_iff.mpr ?_⟩
  -- more calls only add to the numbers that went in
  have hmany : 1 < (calls.flatMap (Call.numbers d)).length :=
    (hrecords calls).many_iff.mp ⟨flags, hflags⟩
  rw [List.flatMap_append, List.length_append]
  omega

/-- Five calls on the days of the week. A number out of range, a range in the wrong order and a
range that leaves the week insert nothing, and a list inserts what stands in front of its 8. -/
theorem records_history_week :
    let week : Domain := ⟨1, 7⟩
    let calls : List Call := [.insert 9, .insertRange 6 3, .insert 3,
      .insertText "5, 1..2, 8, 4".toList, .insertRange 6 8]
    let s : Selection week := afterAll any calls
    week.width < wordLimit ∧ calls.flatMap (Call.numbers week) = [3, 5, 1, 2] ∧
      (∃ flags, s = many flags) ∧ (∀ n, n ∈ s.members ↔ n ∈ [3, 5, 1, 2]) ∧
        ∃ flags, afterAll any (calls ++ [.insertText ['*']]) = (many flags : Selection week) := by
  intro week calls s
  have hwidth : week.width < wordLimit := by decide
  have hnumbers : calls.flatMap (Call.numbers week) = [3, 5, 1, 2] := by decide +kernel
  obtain ⟨hrecords, hforward⟩ := records_history hwidth calls
  rw [hnumbers] at hrecords
  obtain ⟨flags, hflags⟩ := hrecords.many_iff.mpr (by decide)
  exact ⟨hwidth, hnumbers, ⟨flags, hflags⟩, hrecords.mem_members, hforward _ flags hflags⟩

end Selection

end Timetable
