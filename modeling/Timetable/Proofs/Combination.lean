import Mathlib.Data.List.Lex
import Mathlib.Data.List.Sort
import Mathlib.Data.Nat.Choose.Basic
import Timetable.Proofs.Combination.Count

/-!
The combinations of a list.

A combination is known from the places that it picks, because equal elements in
different places are told apart. So the combinations of a list are those of its
places, with the elements put in. Of the places every ascending row of the right
length is picked, and the rows come in lexicographic order, each once. A list that
is too short for a combination has no such row, so nothing is lost by not searching
it.
-/

set_option autoImplicit false

namespace Timetable

variable {α β : Type}

/-! ## What is picked -/

/-- Combinations of other elements pick the same places. -/
theorem combinations_map (f : α → β) (xs : List α) (k : Nat) :
    combinations (xs.map f) k = (combinations xs k).map (List.map f) := by
  induction xs, k using combinations.induct with
  | case1 xs => simp [combinations]
  | case2 k => simp [combinations]
  | case3 x xs k hshort => simp [combinations, hshort]
  | case4 x xs k hlong ih₁ ih₂ =>
    simp only [combinations, List.map_cons, List.length_map, hlong, if_false, ih₁, ih₂,
      List.map_append, List.map_map]
    rfl

/-- **What is picked.** The combinations of `k` elements are the sublists of that length. -/
theorem mem_combinations_iff {xs c : List α} {k : Nat} :
    c ∈ combinations xs k ↔ c.Sublist xs ∧ c.length = k := by
  induction xs, k using combinations.induct generalizing c with
  | case1 xs =>
    rw [combinations, List.mem_singleton, List.length_eq_zero_iff]
    exact ⟨fun h => ⟨h ▸ List.nil_sublist xs, h⟩, fun h => h.2⟩
  | case2 k =>
    simp only [combinations, List.not_mem_nil, List.sublist_nil, false_iff]
    rintro ⟨rfl, hlength⟩
    exact absurd hlength (by simp)
  | case3 x xs k hshort =>
    -- a sublist is no longer than the list
    simp only [combinations, hshort, if_true, List.not_mem_nil, false_iff]
    rintro ⟨hsub, hlength⟩
    have hle := hsub.length_le
    rw [List.length_cons] at hle
    omega
  | case4 x xs k hlong ih₁ ih₂ =>
    simp only [combinations, hlong, if_false, List.mem_append, List.mem_map, ih₁, ih₂]
    constructor
    · rintro (⟨c, ⟨hsub, hlength⟩, rfl⟩ | ⟨hsub, hlength⟩)
      · exact ⟨hsub.cons_cons x, by rw [List.length_cons, hlength]⟩
      · exact ⟨hsub.cons x, hlength⟩
    · rintro ⟨hsub, hlength⟩
      cases hsub with
      | cons _ hsub => exact .inr ⟨hsub, hlength⟩
      | cons_cons _ hsub =>
        rw [List.length_cons, Nat.add_right_cancel_iff] at hlength
        exact .inl ⟨_, ⟨hsub, hlength⟩, rfl⟩

/-- **How many there are.** -/
theorem length_combinations (xs : List α) (k : Nat) :
    (combinations xs k).length = xs.length.choose k := by
  induction xs, k using combinations.induct with
  | case1 xs => simp [combinations]
  | case2 k => simp [combinations]
  | case3 x xs k hshort =>
    have hnone : (x :: xs).length.choose (k + 1) = 0 :=
      Nat.choose_eq_zero_of_lt (by rw [List.length_cons]; omega)
    rw [hnone, combinations, if_pos hshort, List.length_nil]
  | case4 x xs k hlong ih₁ ih₂ =>
    rw [combinations, if_neg hlong, List.length_append, List.length_map, ih₁, ih₂,
      List.length_cons, Nat.choose_succ_succ]

/-! ## In which order -/

/-- The combinations of elements in ascending order are in lexicographic order: those that begin
with the first element come first. -/
theorem pairwise_combinations {r : α → α → Prop} {xs : List α} (hxs : xs.Pairwise r) (k : Nat) :
    (combinations xs k).Pairwise (List.Lex r) := by
  induction xs, k using combinations.induct with
  | case1 xs => simp [combinations]
  | case2 k => exact .nil
  | case3 x xs k hshort =>
    rw [combinations, if_pos hshort]
    exact .nil
  | case4 x xs k hlong ih₁ ih₂ =>
    obtain ⟨hfirst, hrest⟩ := List.pairwise_cons.mp hxs
    rw [combinations, if_neg hlong, List.pairwise_append]
    refine ⟨(ih₁ hrest).map _ fun a b => List.Lex.cons, ih₂ hrest, fun a ha b hb => ?_⟩
    obtain ⟨c, -, rfl⟩ := List.mem_map.mp ha
    obtain ⟨hsub, hlength⟩ := mem_combinations_iff.mp hb
    cases b with
    | nil => exact absurd hlength (by simp)
    | cons y b => exact .rel (hfirst y (hsub.subset (by simp)))

/-! ## Places -/

/-- The rows of `k` places among the first `n`, as they are picked one after another. -/
def rows (n k : Nat) : List (List (Fin n)) :=
  combinations (List.finRange n) k

/-- Every ascending row of places is picked. -/
theorem mem_rows_iff {n k : Nat} {p : List (Fin n)} :
    p ∈ rows n k ↔ p.length = k ∧ p.Pairwise (· < ·) := by
  have hall : (List.finRange n).Pairwise (· < ·) := List.pairwise_lt_finRange n
  rw [rows, mem_combinations_iff, and_comm, and_congr_right_iff]
  rintro -
  constructor
  · exact fun hsub => hall.sublist hsub
  · intro hp
    have hsubperm : p.Subperm (List.finRange n) :=
      List.subperm_of_subset (hp.imp ne_of_lt) fun i _ => List.mem_finRange i
    exact List.sublist_of_subperm_of_pairwise hsubperm hp hall

/-- The rows of places come in lexicographic order. -/
theorem pairwise_rows (n k : Nat) : (rows n k).Pairwise (List.Lex (· < ·)) :=
  pairwise_combinations (List.pairwise_lt_finRange n) k

/-- The combinations of a list are those of its places, with the elements put in. -/
theorem combinations_eq_map_rows (xs : List α) (k : Nat) :
    combinations xs k = (rows xs.length k).map (List.map xs.get) := by
  rw [rows, ← combinations_map, List.map_get_finRange]

/-- **The combinations of a list are enumerated exactly.** The elements are put into rows of places:
every ascending row of `k` places is among the rows, each once, in lexicographic order, and there
are no others. So there are as many combinations as the binomial coefficient says, and the number
that is computed in 64 bits is the same whenever its last product fits. -/
theorem combinations_exact (xs : List α) (k : Nat) :
    (∃ ps : List (List (Fin xs.length)),
        (∀ p, p ∈ ps ↔ p.length = k ∧ p.Pairwise (· < ·)) ∧
        ps.Nodup ∧ ps.Pairwise (List.Lex (· < ·)) ∧
        combinations xs k = ps.map (List.map xs.get)) ∧
      (combinations xs k).length = xs.length.choose k ∧
      ∀ n, min k (n - k) * n.choose k < 2 ^ 64 → binomial n k = n.choose k := by
  have hsorted := pairwise_rows xs.length k
  have hnodup : (rows xs.length k).Nodup :=
    hsorted.imp fun {p q} hlex => (hlex.imp (fun _ _ => ne_of_lt) p q).to_ne
  have hrows : combinations xs k = (rows xs.length k).map (List.map xs.get) :=
    combinations_eq_map_rows xs k
  exact ⟨⟨rows xs.length k, fun _ => mem_rows_iff, hnodup, hsorted, hrows⟩,
    length_combinations xs k, fun _ => binomial_eq_choose⟩

/-- Two of three elements, two of which are equal, and half of 62, where the last product is close
to the limit. -/
theorem combinations_exact_equal :
    combinations ["a", "b", "a"] 2 = [["a", "b"], ["a", "a"], ["b", "a"]] ∧
      (combinations ["a", "b", "a"] 2).length = Nat.choose 3 2 ∧
      min 31 (62 - 31) * Nat.choose 62 31 < 2 ^ 64 ∧ binomial 62 31 = Nat.choose 62 31 := by
  have hexact := combinations_exact ["a", "b", "a"] 2
  have hfits : min 31 (62 - 31) * Nat.choose 62 31 < 2 ^ 64 := by
    rw [Nat.choose_eq_descFactorial_div_factorial]
    decide
  exact ⟨by decide, hexact.2.1, hfits, (combinations_exact ["a", "b", "a"] 31).2.2 62 hfits⟩

end Timetable
