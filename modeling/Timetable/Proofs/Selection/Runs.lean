import Mathlib.Data.List.Pairwise
import Timetable.Proofs.Selection.Arithmetic

/-!
The runs of a selection.

The members of a selection are written out by its runs, and no two runs could be one
run: behind the last number of a run, the next number at least is left out. So numbers
that follow each other without a gap stand in one run, and whether some are next to
each other is told by the lengths of the runs alone.

In words the runs are made in a loop that lengthens the last run or begins another
one. It compares a number with the last one of the run increased by one. That is no
more than the number itself, so it is a word, also where the domain ends with the
last word.
-/

set_option autoImplicit false

namespace Timetable

open Text (wordLimit)

namespace Run

variable {r r' : Run} {rs : List Run} {n m k : Nat} {ns : List Nat}

/-! ## Maximal runs -/

/-- The maximal runs of numbers in ascending order. -/
structure AreRuns (rs : List Run) (ns : List Nat) : Prop where
  /-- The numbers of the runs one after another are the numbers. -/
  numbers : rs.flatMap toList = ns
  /-- No run ends before it begins. -/
  ordered : ∀ r ∈ rs, r.first ≤ r.last
  /-- Between the last number of a run and the first of a later one a number is left out. -/
  apart : rs.Pairwise fun r r' => r.last + 1 < r'.first

/-- The numbers of a run are those between its ends. -/
theorem mem_toList_iff (hr : r.first ≤ r.last) : n ∈ r.toList ↔ r.first ≤ n ∧ n ≤ r.last := by
  rw [toList, length, List.mem_range'_1]
  omega

/-- The numbers of some runs are those between the ends of one of them. -/
theorem mem_flatMap_toList_iff (h : ∀ r ∈ rs, r.first ≤ r.last) :
    n ∈ rs.flatMap toList ↔ ∃ r ∈ rs, r.first ≤ n ∧ n ≤ r.last := by
  rw [List.mem_flatMap]
  exact exists_congr fun r => and_congr_right fun hr => mem_toList_iff (h r hr)

/-- A number that is smaller than the first of the runs, and is put in front of them, stands apart
from them or lengthens the first. -/
theorem apart_ofMembers (hns : ns.Pairwise (· < ·)) :
    (ofMembers ns).Pairwise fun r r' => r.last + 1 < r'.first := by
  -- by the recursion of `ofMembers`, which extends the first run or puts a new one in front
  induction ns with
  | nil => exact .nil
  | cons n ns ih =>
    obtain ⟨hsmaller, hns⟩ := List.pairwise_cons.mp hns
    obtain ⟨hordered, hnumbers⟩ := ofMembers_spec ns
    have hapart := ih hns
    have hfirst : ∀ r ∈ ofMembers ns, r.first ≤ r.last ∧ n < r.first := by
      intro r hr
      have hmem : r.first ∈ (ofMembers ns).flatMap toList :=
        (mem_flatMap_toList_iff hordered).mpr ⟨r, hr, Nat.le_refl _, hordered r hr⟩
      rw [hnumbers] at hmem
      exact ⟨hordered r hr, hsmaller _ hmem⟩
    rw [ofMembers, List.foldr_cons]
    rw [ofMembers] at hapart hfirst
    cases h : ns.foldr extend [] with
    | nil => exact List.pairwise_singleton _ _
    | cons r rs =>
      rw [h] at hapart hfirst
      obtain ⟨hr, hrs⟩ := List.pairwise_cons.mp hapart
      obtain ⟨hordered, hlt⟩ := hfirst r (by simp)
      -- the number touches the first run, or there is a gap between the two
      rw [extend]
      split
      · exact List.pairwise_cons.mpr ⟨hr, hrs⟩
      · next hne =>
        refine List.pairwise_cons.mpr ⟨fun r' hr' => ?_, hapart⟩
        obtain rfl | hr' := List.mem_cons.mp hr'
        · exact Nat.lt_of_le_of_ne hlt hne
        · have hlater := hr r' hr'
          show n + 1 < r'.first
          omega

/-- **The runs of some numbers in ascending order are their runs**: they partition the numbers, and
no two of them touch. -/
theorem areRuns_ofMembers (hns : ns.Pairwise (· < ·)) : AreRuns (ofMembers ns) ns :=
  ⟨(ofMembers_spec ns).2, (ofMembers_spec ns).1, apart_ofMembers hns⟩

namespace AreRuns

variable (h : AreRuns rs ns)

include h

/-- A number is a member exactly if it stands in one of the runs. -/
theorem mem_iff : n ∈ ns ↔ ∃ r ∈ rs, r.first ≤ n ∧ n ≤ r.last := by
  rw [← h.numbers]
  exact mem_flatMap_toList_iff h.ordered

/-- Numbers next to each other stand in one run. -/
theorem eq_of_next (hr : r ∈ rs) (hr' : r' ∈ rs) (hn : r.first ≤ n ∧ n ≤ r.last)
    (hnext : r'.first ≤ n + 1 ∧ n + 1 ≤ r'.last) : r = r' := by
  by_contra hne
  -- Which of the two comes first is not known, so the gap is stated both ways.
  have hsymm : Std.Symm fun r r' : Run => r.last + 1 < r'.first ∨ r'.last + 1 < r.first :=
    ⟨fun _ _ => Or.symm⟩
  have hapart : rs.Pairwise fun r r' => r.last + 1 < r'.first ∨ r'.last + 1 < r.first :=
    h.apart.imp Or.inl
  have hgap := hapart.forall hr hr' hne
  omega

/-- **Numbers without a gap between them** stand in one run. -/
theorem exists_of_forall_mem (hn : ∀ i ≤ k, n + i ∈ ns) :
    ∃ r ∈ rs, r.first ≤ n ∧ n + k ≤ r.last := by
  induction k with
  | zero => exact h.mem_iff.mp (hn 0 (Nat.le_refl 0))
  | succ k ih =>
    obtain ⟨r, hr, hfirst, hlast⟩ := ih fun i hi => hn i (by omega)
    obtain ⟨r', hr', hnext⟩ := h.mem_iff.mp (hn (k + 1) (Nat.le_refl _))
    obtain rfl := h.eq_of_next hr hr' ⟨by omega, hlast⟩ hnext
    exact ⟨r, hr, hfirst, hnext.2⟩

/-- **The length of the longest run** tells how many numbers follow each other. -/
theorem exists_length_iff : (∃ r ∈ rs, k + 1 ≤ r.length) ↔ ∃ n, ∀ i < k + 1, n + i ∈ ns := by
  constructor
  · rintro ⟨r, hr, hlength⟩
    have hordered := h.ordered r hr
    rw [length] at hlength
    exact ⟨r.first, fun i hi => h.mem_iff.mpr ⟨r, hr, by omega, by omega⟩⟩
  · rintro ⟨n, hn⟩
    obtain ⟨r, hr, hfirst, hlast⟩ := h.exists_of_forall_mem fun i (hi : i ≤ k) => hn i (by omega)
    exact ⟨r, hr, by rw [length]; omega⟩

end AreRuns

/-! ## The loop -/

/-- Puts a run in front of runs: it takes in the first one if that begins right behind it. -/
def join (r : Run) : List Run → List Run
  | [] => [r]
  | r' :: rs => if r.last + 1 = r'.first then ⟨r.first, r'.last⟩ :: rs else r :: r' :: rs

/-- Putting a number in front is putting a run of one number in front, which is how the checked
computation does it. -/
theorem extend_eq_join (n : Nat) (rs : List Run) : extend n rs = join ⟨n, n⟩ rs := by
  cases rs <;> rfl

/-- A number in front of runs lengthens a run in front of it or parts it from them. -/
theorem join_extend (r : Run) (n : Nat) (rs : List Run) : join r (extend n rs) =
    if r.last + 1 = n then join ⟨r.first, n⟩ rs else r :: extend n rs := by
  cases rs with
  | nil => simp [extend, join]
  | cons r' rs =>
    by_cases hjoins : n + 1 = r'.first
    · simp [extend, join, hjoins]
    · simp [extend, join, hjoins]

/-- With the greatest run in front, the loop goes on from it. No sum leaves the words because the
numbers to come are words. -/
theorem foldlM_append?_cons (hns : ns.Pairwise (· < ·)) (hr : ∀ n ∈ ns, r.last < n)
    (hword : ∀ n ∈ ns, n < wordLimit) :
    ns.foldlM append? (r :: rs) = some ((join r (ofMembers ns)).reverse ++ rs) := by
  induction ns generalizing r rs with
  | nil => rfl
  | cons n ns ih =>
    obtain ⟨hsmaller, hns⟩ := List.pairwise_cons.mp hns
    have hlt : r.last < n := hr n (by simp)
    have hn : n < wordLimit := hword n (by simp)
    have hrest : ∀ m ∈ ns, m < wordLimit := fun m hm => hword m (by simp [hm])
    have hnext : Word.add? r.last 1 = some (r.last + 1) := Word.add?_eq_some (by omega)
    rw [List.foldlM_cons, append?, hnext]
    -- The loop looks at the run before a number, the definition at the run behind it.
    rw [show ofMembers (n :: ns) = extend n (ofMembers ns) from rfl, join_extend]
    by_cases hjoins : r.last + 1 = n
    · simp only [hjoins, if_true, Option.bind_eq_bind, Option.bind_some, Option.pure_def]
      exact ih hns hsmaller hrest
    · simp only [hjoins, if_false, Option.bind_eq_bind, Option.bind_some, Option.pure_def]
      rw [ih hns hsmaller hrest, extend_eq_join]
      simp

/-- **The loop makes the runs**, the greatest in front. -/
theorem foldlM_append? (hns : ns.Pairwise (· < ·)) (hword : ∀ n ∈ ns, n < wordLimit) :
    ns.foldlM append? [] = some (ofMembers ns).reverse := by
  cases ns with
  | nil => rfl
  | cons n ns =>
    obtain ⟨hsmaller, hns⟩ := List.pairwise_cons.mp hns
    have hloop : ns.foldlM append? [⟨n, n⟩] = some ((join ⟨n, n⟩ (ofMembers ns)).reverse ++ []) :=
      foldlM_append?_cons hns hsmaller fun m hm => hword m (by simp [hm])
    rw [List.append_nil, ← extend_eq_join] at hloop
    exact hloop

end Run

namespace Selection

variable {d : Domain} {s : Selection d}

/-! ## Runs in words -/

/-- **No overflow where runs are made**: the ends of runs are in the domain, so one more than an end
is still a word. -/
theorem Reached.runs?_eq (hs : s.Reached) (hhi : d.hi < wordLimit) : s.runs? = some s.runs := by
  have hloop := Run.foldlM_append? s.pairwise_members fun n hn =>
    lt_wordLimit_of_holds (hs.holds hn) hhi
  rw [runs?, hs.members?_eq hhi]
  simp only [Option.bind_eq_bind, Option.bind_some, hloop, Option.pure_def, List.reverse_reverse]
  rfl

/-- A run is no longer than the domain is wide. -/
theorem Reached.length?_eq (hs : s.Reached) {r : Run} (hr : r ∈ s.runs) :
    r.length? = some r.length := by
  obtain ⟨hordered, hfirst, hlast⟩ := ends_mem_members hr
  have hlo := holds_iff.mp (hs.holds hfirst)
  have hhi := holds_iff.mp (hs.holds hlast)
  have hwidth : d.width < wordLimit := by
    refine hs.width_lt ?_
    rintro rfl
    exact List.not_mem_nil hfirst
  rw [Domain.width] at hwidth
  rw [Run.length?, Word.sub?_eq_some hordered]
  exact Word.add?_eq_some (by omega)

/-- Asking for long runs does not overflow either, as a run is no longer than the domain. -/
theorem Reached.hasRun?_eq (hs : s.Reached) (hhi : d.hi < wordLimit) (count : Nat) :
    s.hasRun? count = some (s.runs.any (count ≤ ·.length)) := by
  rw [hasRun?, hs.runs?_eq hhi]
  refine anyM_eq_some_any fun r hr => ?_
  rw [hs.length?_eq hr]
  rfl

/-- **Writing a selection does not overflow**, and gives its text. -/
theorem Reached.text?_eq (hs : s.Reached) (hhi : d.hi < wordLimit) : s.text? = some s.text := by
  rw [text?, text, textWith]
  by_cases hp : s.isPopulated = true
  · simp only [hp, hs.hasRun?_eq hhi, hs.runs?_eq hhi, hs.members?_eq hhi]
    rw [show s.hasTriple = s.runs.any (3 ≤ ·.length) from rfl]
    cases s.runs.any (3 ≤ ·.length) <;> rfl
  · simp [hp]

/-! ## What runs tell -/

/-- The runs of a selection are those of its members. -/
theorem areRuns (s : Selection d) : Run.AreRuns s.runs s.members :=
  Run.areRuns_ofMembers s.pairwise_members

/-- A long run is there exactly if some members follow one another. -/
theorem any_length_iff (s : Selection d) (k : Nat) :
    s.runs.any (k + 1 ≤ ·.length) = true ↔ ∃ n, ∀ i < k + 1, n + i ∈ s.members := by
  simp only [List.any_eq_true, decide_eq_true_eq]
  exact s.areRuns.exists_length_iff

/-- Two members next to each other, which are written as two numbers. -/
theorem hasPair_iff : s.hasPair = true ↔ ∃ n, n ∈ s.members ∧ n + 1 ∈ s.members := by
  rw [hasPair, s.any_length_iff 1]
  simp only [Nat.forall_lt_succ_right, Nat.not_lt_zero, false_implies, implies_true, true_and,
    Nat.add_zero]

/-- Three members next to each other, which are written as a range. -/
theorem hasTriple_iff :
    s.hasTriple = true ↔ ∃ n, n ∈ s.members ∧ n + 1 ∈ s.members ∧ n + 2 ∈ s.members := by
  rw [hasTriple, s.any_length_iff 2]
  simp only [Nat.forall_lt_succ_right, Nat.not_lt_zero, false_implies, implies_true, true_and,
    Nat.add_zero, and_assoc]

/-- **The runs of a selection are the maximal ones**, and no sum in computing them or their lengths
leaves the words. There is a pair if and only if two members are next to each other, and a triple if
and only if three are. -/
theorem Reached.runs_maximal (hs : s.Reached) (hhi : d.hi < wordLimit) :
    Run.AreRuns s.runs s.members ∧ s.runs? = some s.runs ∧
      (∀ r ∈ s.runs, r.length? = some r.length) ∧
      s.hasRun? 2 = some s.hasPair ∧ s.hasRun? 3 = some s.hasTriple ∧
      (s.hasPair = true ↔ ∃ n, n ∈ s.members ∧ n + 1 ∈ s.members) ∧
      (s.hasTriple = true ↔ ∃ n, n ∈ s.members ∧ n + 1 ∈ s.members ∧ n + 2 ∈ s.members) :=
  ⟨s.areRuns, hs.runs?_eq hhi, fun _ hr => hs.length?_eq hr, hs.hasRun?_eq hhi 2,
    hs.hasRun?_eq hhi 3, hasPair_iff, hasTriple_iff⟩

/-- The last number of 32 bits ends a run of three, behind a pair. -/
theorem runs_maximal_top :
    let top : Domain := ⟨4294967290, 4294967295⟩
    let s : Selection top := ofList [4294967295, 4294967290, 4294967294, 4294967291, 4294967293]
    let rs : List Run := [⟨4294967290, 4294967291⟩, ⟨4294967293, 4294967295⟩]
    s.Reached ∧ top.hi < wordLimit ∧ s.runs? = some rs ∧ Run.AreRuns rs s.members ∧
      (∃ n, n ∈ s.members ∧ n + 1 ∈ s.members ∧ n + 2 ∈ s.members) := by
  intro top s rs
  have hreached : s.Reached := reached_ofList _
  have hhi : top.hi < wordLimit := by decide
  have hruns : s.runs = rs := by decide +kernel
  have htriple : s.hasTriple = true := by decide +kernel
  obtain ⟨hmaximal, hwords, -, -, -, -, hthree⟩ := hreached.runs_maximal hhi
  rw [hruns] at hmaximal hwords
  exact ⟨hreached, hhi, hwords, hmaximal, hthree.mp htriple⟩

end Selection

end Timetable
