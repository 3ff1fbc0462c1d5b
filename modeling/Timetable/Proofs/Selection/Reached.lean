import Timetable.Proofs.Success
import Timetable.Selection.Items

/-!
Selections that operations lead to.

A selection is reached if it comes from the empty one by insertions that were
taken. Every other operation that changes a selection is a row of insertions, so
it leads from reached selections to reached ones, also where a row breaks off.
The flags of a reached selection are as many as its domain has numbers, and one
of them is on: once something is inserted, the selection has a member.
-/

set_option autoImplicit false

namespace Timetable.Selection

variable {d : Domain}

/-- A selection that comes from the empty one by insertions. -/
inductive Reached : Selection d → Prop where
  | any : Reached .any
  | insert {s s' : Selection d} {n : Nat} : Reached s → s.insert n = .ok s' → Reached s'

/-! ## Rows of insertions -/

/-- Ranges are inserted number by number, so what is reached stays reached. -/
theorem Reached.insertRange {s s' : Selection d} {a b : Nat} (hs : s.Reached)
    (h : s.insertRange a b = .ok s') : s'.Reached := by
  simp only [Selection.insertRange] at h
  split at h
  · exact (Except.ok.inj h) ▸ hs
  · split at h
    · cases h
    · split at h
      · cases h
      · exact foldlM_preserves (fun _ _ _ hb hb' => hb.insert hb') hs h

/-- The same for items, -/
theorem Reached.insertItem {s s' : Selection d} {item : Item} (hs : s.Reached)
    (h : s.insertItem item = .ok s') : s'.Reached := by
  cases item with
  | number n => exact hs.insert h
  | range a b => exact hs.insertRange h

/-- for items of a cyclic domain, -/
theorem Reached.insertCyclic {s s' : Selection d} {item : Item} (hs : s.Reached)
    (h : s.insertCyclic item = .ok s') : s'.Reached := by
  cases item with
  | number n => exact hs.insert h
  | range a b =>
    simp only [Selection.insertCyclic] at h
    split at h
    · obtain ⟨s₁, h₁, h₂⟩ := bind_eq_ok.mp h
      exact (hs.insertRange h₁).insertRange h₂
    · exact hs.insertRange h

/-- A row of items leads to a reached selection even if it breaks off. -/
theorem Reached.insertAll {s : Selection d} (hs : s.Reached) (items : List Item) :
    (s.insertAll items).1.Reached := by
  induction items generalizing s with
  | nil => exact hs
  | cons item items ih =>
    simp only [Selection.insertAll]
    split
    · next s' h => exact ih (hs.insertItem h)
    · exact hs

/-- and for whole lists. A list that is refused in the middle leaves a reached selection as well. -/
theorem Reached.insertText {s : Selection d} (hs : s.Reached) (list : List Char) :
    (s.insertText list).1.Reached := by
  simp only [Selection.insertText]
  split
  · exact hs.insertAll _
  · exact hs

/-- A single number of the domain is the first that was inserted. -/
theorem reached_one {n : Nat} (hn : d.holds n = true) (hd : d.width < Text.wordLimit) :
    (one n : Selection d).Reached := by
  have hinsert : (any : Selection d).insert n = .ok (one n) := by
    simp [Selection.insert, hn, Nat.not_le.mpr hd]
  exact .insert .any hinsert

/-- A selection that is made of a list is reached; numbers outside of the domain are left out. -/
theorem reached_ofList (ns : List Nat) : (ofList ns : Selection d).Reached := by
  refine List.foldlRecOn ns _ .any fun s hs n _ => ?_
  -- a number that is refused leaves the selection as it is
  cases h : s.insert n with
  | error e => simpa [h, Except.toOption] using hs
  | ok s' => simpa [h, Except.toOption] using hs.insert h

/-! ## Members -/

/-- A domain has the numbers between its bounds. -/
theorem holds_iff {n : Nat} : d.holds n = true ↔ d.lo ≤ n ∧ n ≤ d.hi := by
  simp [Domain.holds]

/-- Flags for all numbers of the domain, at least one of them on. -/
def HasFlag : Selection d → Prop
  | many flags => flags.size = d.width ∧ ∃ i, flags.getD i false = true
  | _ => True

/-- There are as many flags as numbers in the domain, whichever are set. -/
theorem size_flagsOf (ns : List Nat) : (flagsOf d ns).size = d.width := by
  refine List.foldlRecOn (motive := fun flags : Array Bool => flags.size = d.width) ns _ ?_
    fun flags hsize n _ => ?_
  · simp
  · simpa using hsize

/-- Only a flag that there is can be on. -/
theorem lt_size_of_getD {flags : Array Bool} {i : Nat} (h : flags.getD i false = true) :
    i < flags.size := by
  by_contra hge
  simp [Array.getD, hge] at h

/-- A number of the domain can be switched on. -/
theorem getD_setIfInBounds_self {flags : Array Bool} (h : flags.size = d.width) {n : Nat}
    (hn : d.holds n) : (flags.setIfInBounds (n - d.lo) true).getD (n - d.lo) false = true := by
  have hlt : n - d.lo < flags.size := by
    have hends := holds_iff.mp hn
    rw [h, Domain.width]
    omega
  simp [hlt]

/-- **Flags have the size of the domain, and one of them is set.** A selection has flags only after
two insertions, and none is taken back. -/
theorem Reached.hasFlag {s : Selection d} (hs : s.Reached) : s.HasFlag := by
  -- along the insertions that lead to the selection
  induction hs with
  | any => trivial
  | @insert s s' n _ h ih =>
    simp only [Selection.insert] at h
    split at h
    · cases h
    · next hn =>
      have hn : d.holds n := by simpa using hn
      split at h
      · cases h
      -- by what was stored before: nothing, one number, or flags
      · cases s with
        | any => exact (Except.ok.inj h) ▸ trivial
        | one m =>
          obtain rfl := Except.ok.inj h
          have hsize := size_flagsOf (d := d) [m]
          exact ⟨size_flagsOf [m, n], n - d.lo, getD_setIfInBounds_self hsize hn⟩
        | many flags =>
          obtain rfl := Except.ok.inj h
          exact ⟨by simpa using ih.1, n - d.lo, getD_setIfInBounds_self ih.1 hn⟩

/-- A reached selection into which something was inserted has a member. -/
theorem Reached.members_ne_nil {s : Selection d} (hs : s.Reached) (h : s.isPopulated = true) :
    s.members ≠ [] := by
  cases s with
  | any => simp [isPopulated] at h
  | one n => simp
  | many flags =>
    -- the flag that is on is one of the numbers of the domain
    obtain ⟨-, i, hi⟩ := hs.hasFlag
    have hlt : i < flags.size := lt_size_of_getD hi
    simpa [members] using ⟨i, hlt, by simpa [hlt] using hi⟩

end Timetable.Selection
