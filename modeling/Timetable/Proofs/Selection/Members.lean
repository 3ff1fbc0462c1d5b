import Mathlib.Data.List.Sort
import Timetable.Proofs.Selection.Reached
import Timetable.Selection.Runs

/-!
The members of selections.

The members are in ascending order, so a selection is known from the numbers in
it. An insertion adds its number to the members and no other, as long as all
members are numbers of the domain, which they are in a selection that operations
lead to. A row of insertions of numbers of the domain is never refused, so
inserting the members of a selection into an empty one gives its members again.
-/

set_option autoImplicit false

namespace Timetable.Selection

open Text (wordLimit)

variable {d d' : Domain}

/-! ## Ascending members -/

/-- The members come in ascending order, each once. -/
theorem pairwise_members (s : Selection d) : s.members.Pairwise (· < ·) := by
  cases s with
  | any => exact .nil
  | one n => exact List.pairwise_singleton _ _
  | many flags =>
    refine List.Pairwise.map _ (fun a b h => Nat.add_lt_add_left h d.lo) ?_
    exact List.pairwise_lt_range.filter _

/-- Selections with the same numbers in them have the same members. -/
theorem members_eq_of_mem_iff {s : Selection d} {s' : Selection d'}
    (h : ∀ n, n ∈ s.members ↔ n ∈ s'.members) : s.members = s'.members :=
  s.pairwise_members.eq_of_mem_iff s'.pairwise_members h

/-- The members of flags are the numbers whose flag is set. -/
theorem mem_members_many {flags : Array Bool} {n : Nat} :
    n ∈ (many flags : Selection d).members ↔ d.lo ≤ n ∧ flags.getD (n - d.lo) false = true := by
  simp only [members, List.mem_map, List.mem_filter, List.mem_range]
  constructor
  · rintro ⟨i, ⟨-, hi⟩, rfl⟩
    simpa using hi
  · rintro ⟨hn, hflag⟩
    exact ⟨n - d.lo, ⟨lt_size_of_getD hflag, hflag⟩, by omega⟩

/-- A number is in a selection if and only if it is a member. -/
theorem contains_iff {s : Selection d} {n : Nat} : s.contains n = true ↔ n ∈ s.members := by
  cases s with
  | any => simp [contains]
  | one m =>
    simp only [contains, members_one, List.mem_singleton, beq_iff_eq]
    exact eq_comm
  | many flags => simp [contains, mem_members_many]

/-! ## One insertion -/

/-- Setting a flag sets this one and leaves the others. -/
theorem getD_setIfInBounds {flags : Array Bool} {i j : Nat} (hi : i < flags.size) :
    (flags.setIfInBounds i true).getD j false = true ↔ j = i ∨ flags.getD j false = true := by
  obtain rfl | hne := eq_or_ne j i
  · simp [hi]
  · simp [hne, hne.symm]

/-- Every number of the domain has a flag of its own. -/
theorem sub_lt_width {n : Nat} (h : d.holds n = true) : n - d.lo < d.width := by
  have hends := holds_iff.mp h
  rw [Domain.width]
  omega

/-- The numbers of a domain of words are words. -/
theorem lt_wordLimit_of_holds {n : Nat} (hn : d.holds n = true) (hd : d.hi < wordLimit) :
    n < wordLimit :=
  Nat.lt_of_le_of_lt (holds_iff.mp hn).2 hd

/-- Switching a flag on adds its number to the members. -/
theorem mem_members_setIfInBounds {flags : Array Bool} (hsize : flags.size = d.width) {n m : Nat}
    (hn : d.holds n = true) :
    m ∈ (many (flags.setIfInBounds (n - d.lo) true) : Selection d).members ↔
      m = n ∨ m ∈ (many flags : Selection d).members := by
  have hlo : d.lo ≤ n := (holds_iff.mp hn).1
  rw [mem_members_many, mem_members_many, getD_setIfInBounds (hsize ▸ sub_lt_width hn)]
  constructor
  · rintro ⟨hm, heq | hflag⟩
    · exact .inl (by omega)
    · exact .inr ⟨hm, hflag⟩
  · rintro (rfl | ⟨hm, hflag⟩)
    · exact ⟨hlo, .inl rfl⟩
    · exact ⟨hm, .inr hflag⟩

/-- What an insertion adds to the members, as long as all of them are in the domain. -/
theorem mem_members_insert_of_holds {s s' : Selection d} (hflag : s.HasFlag)
    (hmembers : ∀ m ∈ s.members, d.holds m = true) {n : Nat} (h : s.insert n = .ok s') {m : Nat} :
    m ∈ s'.members ↔ m = n ∨ m ∈ s.members := by
  simp only [insert] at h
  split at h
  · cases h
  · next hn =>
    have hn : d.holds n = true := by simpa using hn
    split at h
    · cases h
    -- nothing was there, one number that both become flags, or flags
    · cases s with
      | any =>
        obtain rfl := Except.ok.inj h
        simp
      | one k =>
        obtain rfl := Except.ok.inj h
        have hnone : ∀ m, m ∉ (many (Array.replicate d.width false) : Selection d).members := by
          intro m
          simp [mem_members_many, Array.getD]
        simp only [flagsOf, List.foldl_cons, List.foldl_nil]
        rw [mem_members_setIfInBounds (by simp) hn,
          mem_members_setIfInBounds (by simp) (hmembers k (by simp))]
        simp [hnone]
      | many flags =>
        obtain rfl := Except.ok.inj h
        exact mem_members_setIfInBounds hflag.1 hn

/-- Only numbers of the domain are inserted. -/
theorem holds_of_insert_eq_ok {s s' : Selection d} {n : Nat} (h : s.insert n = .ok s') :
    d.holds n = true := by
  simp only [insert] at h
  split at h
  · cases h
  · next hn => simpa using hn

/-- The members of a selection that operations lead to are numbers of its domain. -/
theorem Reached.holds {s : Selection d} (hs : s.Reached) {m : Nat} (hm : m ∈ s.members) :
    d.holds m = true := by
  induction hs generalizing m with
  | any => simp at hm
  | @insert s s' n hs h ih =>
    obtain rfl | hm := (mem_members_insert_of_holds hs.hasFlag (fun _ => ih) h).mp hm
    · exact holds_of_insert_eq_ok h
    · exact ih hm

/-- **An insertion adds its number.** -/
theorem Reached.mem_members_insert {s s' : Selection d} (hs : s.Reached) {n : Nat}
    (h : s.insert n = .ok s') {m : Nat} : m ∈ s'.members ↔ m = n ∨ m ∈ s.members :=
  mem_members_insert_of_holds hs.hasFlag (fun _ => hs.holds) h

/-- Something has been inserted if and only if there is a member. -/
theorem Reached.isPopulated_iff {s : Selection d} (hs : s.Reached) :
    s.isPopulated = true ↔ s.members ≠ [] := by
  constructor
  · exact hs.members_ne_nil
  · intro h
    cases s with
    | any => exact absurd rfl h
    | one n => rfl
    | many flags => rfl

/-- A selection that is free takes every number. -/
theorem admits_of_free {s : Selection d} (h : s.isPopulated = false) (n : Nat) :
    s.admits n = true := by
  rw [admits, h]
  rfl

/-- Some number of the domain is taken. -/
theorem Reached.exists_admits {s : Selection d} (hs : s.Reached) (hd : d.lo ≤ d.hi) :
    ∃ n, d.holds n = true ∧ s.admits n = true := by
  cases hp : s.isPopulated with
  | false => exact ⟨d.lo, holds_iff.mpr ⟨Nat.le_refl _, hd⟩, admits_of_free hp _⟩
  | true =>
    obtain ⟨n, hn⟩ := List.exists_mem_of_ne_nil _ (hs.members_ne_nil hp)
    exact ⟨n, hs.holds hn, by simp [admits, contains_iff.mpr hn]⟩

/-- Selections that take the same numbers, however they store them. -/
structure Agrees (s : Selection d) (s' : Selection d') : Prop where
  members : s.members = s'.members
  isPopulated : s.isPopulated = s'.isPopulated

/-- Selections that operations lead to agree if they have the same members. -/
theorem agrees_of_mem_iff {s : Selection d} {s' : Selection d'} (hs : s.Reached)
    (hs' : s'.Reached) (h : ∀ n, n ∈ s.members ↔ n ∈ s'.members) : s.Agrees s' := by
  have hmembers := members_eq_of_mem_iff h
  refine ⟨hmembers, ?_⟩
  rw [Bool.eq_iff_iff, hs.isPopulated_iff, hs'.isPopulated_iff, hmembers]

/-! ## Rows of insertions -/

/-- And all of them are, unless the domain is too wide. -/
theorem exists_insert_eq_ok (hd : d.width < wordLimit) (s : Selection d) {n : Nat}
    (hn : d.holds n = true) : ∃ s', s.insert n = .ok s' := by
  have hwidth : ¬ wordLimit ≤ d.width := by omega
  cases s <;> exact ⟨_, by simp only [insert, hn, hwidth]; rfl⟩

/-- **A row of insertions.** Numbers of the domain are all taken, and then the members are those
from before and these. -/
theorem Reached.exists_foldlM_insert (hd : d.width < wordLimit) {s : Selection d} (hs : s.Reached)
    {ns : List Nat} (hns : ∀ n ∈ ns, d.holds n = true) :
    ∃ s', ns.foldlM Selection.insert s = .ok s' ∧ s'.Reached ∧
      ∀ m, m ∈ s'.members ↔ m ∈ ns ∨ m ∈ s.members := by
  induction ns generalizing s with
  | nil => exact ⟨s, rfl, hs, by simp⟩
  | cons n ns ih =>
    obtain ⟨s₁, h₁⟩ := exists_insert_eq_ok hd s (hns n (by simp))
    obtain ⟨s', h', hs', hmem⟩ := ih (hs.insert h₁) fun m hm => hns m (by simp [hm])
    refine ⟨s', by rw [List.foldlM_cons, h₁]; exact h', hs', fun m => ?_⟩
    rw [hmem, hs.mem_members_insert h₁, List.mem_cons]
    tauto

/-- What is inserted is in the domain. -/
theorem holds_of_foldlM_insert {s s' : Selection d} {ns : List Nat}
    (h : ns.foldlM Selection.insert s = .ok s') : ∀ n ∈ ns, d.holds n = true := by
  induction ns generalizing s with
  | nil => simp
  | cons n ns ih =>
    rw [List.foldlM_cons, bind_eq_ok] at h
    obtain ⟨s₁, hn, hns⟩ := h
    rw [List.forall_mem_cons]
    exact ⟨holds_of_insert_eq_ok hn, ih hns⟩

/-- All other numbers are refused, with the domain in the report. -/
theorem insert_eq_error {s : Selection d} {n : Nat} (hn : ¬ d.holds n = true) :
    s.insert n = .error (.outOfRange n d) := by
  simp [insert, hn]

/-- Insertions that skip what is refused take the numbers of the domain. -/
theorem Reached.mem_members_foldl (hd : d.width < wordLimit) {s : Selection d} (hs : s.Reached)
    {ns : List Nat} {m : Nat} :
    m ∈ (ns.foldl (fun s n => (s.insert n).toOption.getD s) s).members ↔
      (m ∈ ns ∧ d.holds m = true) ∨ m ∈ s.members := by
  -- number by number, and one that is refused changes nothing
  induction ns generalizing s with
  | nil => simp
  | cons n ns ih =>
    rw [List.foldl_cons]
    by_cases hn : d.holds n = true
    · obtain ⟨s₁, h₁⟩ := exists_insert_eq_ok hd s hn
      have hstep : (s.insert n).toOption.getD s = s₁ := by simp [h₁, Except.toOption]
      rw [hstep, ih (hs.insert h₁), hs.mem_members_insert h₁, List.mem_cons]
      constructor
      · rintro (⟨hm, hholds⟩ | rfl | hm)
        · exact .inl ⟨.inr hm, hholds⟩
        · exact .inl ⟨.inl rfl, hn⟩
        · exact .inr hm
      · rintro (⟨rfl | hm, hholds⟩ | hm)
        · exact .inr (.inl rfl)
        · exact .inl ⟨hm, hholds⟩
        · exact .inr (.inr hm)
    · have hstep : (s.insert n).toOption.getD s = s := by
        simp [insert_eq_error hn, Except.toOption]
      rw [hstep, ih hs, List.mem_cons]
      have hne : d.holds m = true → m ≠ n := fun hm heq => hn (heq ▸ hm)
      tauto

/-- Of a list of numbers those of the domain are taken. -/
theorem mem_members_ofList (hd : d.width < wordLimit) {ns : List Nat} {m : Nat} :
    m ∈ (ofList ns : Selection d).members ↔ m ∈ ns ∧ d.holds m = true := by
  rw [ofList, Reached.any.mem_members_foldl hd]
  simp

end Timetable.Selection

namespace Timetable.Run

/-! ## Runs -/

/-- A run whose ends are in order. -/
def IsOrdered (r : Run) : Prop :=
  r.first ≤ r.last

/-- A run that is extended to the left has one number more. -/
theorem toList_eq_cons {n : Nat} {r : Run} (hr : r.IsOrdered) (h : n + 1 = r.first) :
    (⟨n, r.last⟩ : Run).toList = n :: r.toList := by
  have hlength : (⟨n, r.last⟩ : Run).length = r.length + 1 := by
    simp only [IsOrdered, length] at hr ⊢
    omega
  rw [toList, toList, hlength, List.range'_succ, ← h]

/-- A run of one number. -/
theorem toList_lone (n : Nat) : (⟨n, n⟩ : Run).toList = [n] := by
  simp [toList, length]

/-- Putting a number in front of runs keeps their ends in order and puts it in front of their
numbers. -/
theorem extend_spec {n : Nat} {rs : List Run} (hrs : ∀ r ∈ rs, r.IsOrdered) :
    (∀ r ∈ extend n rs, r.IsOrdered) ∧ (extend n rs).flatMap toList = n :: rs.flatMap toList := by
  have hlone : IsOrdered ⟨n, n⟩ := Nat.le_refl n
  -- the number is put in front of the first run, or extends it
  cases rs with
  | nil => exact ⟨by simpa [extend] using hlone, by simp [extend, toList_lone]⟩
  | cons r rs =>
    have hr := hrs r (by simp)
    rw [extend]
    split
    · next h =>
      have hjoined : IsOrdered ⟨n, r.last⟩ := by
        simp only [IsOrdered] at hr ⊢
        omega
      refine ⟨?_, by simp [toList_eq_cons hr h]⟩
      rintro r' (_ | ⟨_, hr'⟩)
      · exact hjoined
      · exact hrs r' (List.mem_cons_of_mem r hr')
    · refine ⟨?_, by simp [toList_lone]⟩
      rintro r' (_ | ⟨_, hr'⟩)
      · exact hlone
      · exact hrs r' hr'

/-- **The runs of a list have its numbers**, in their order. -/
theorem ofMembers_spec (ns : List Nat) :
    (∀ r ∈ ofMembers ns, r.IsOrdered) ∧ (ofMembers ns).flatMap toList = ns := by
  induction ns with
  | nil => simp [ofMembers]
  | cons n ns ih =>
    obtain ⟨hordered, hnumbers⟩ := extend_spec (n := n) ih.1
    exact ⟨hordered, hnumbers.trans (congrArg (n :: ·) ih.2)⟩

end Timetable.Run
