/-!
Combinations of a list.

A combination picks some places of a list and keeps the order of what stands
there. Equal elements in different places are told apart. The combinations of
one size come in the lexicographic order of their places.

The definitions follow `generate_combinations`, which builds the rows one
element after another, and `binomial`, which counts them in words of 64 bits.
-/

set_option autoImplicit false

namespace Timetable

/-- The combinations of `k` elements. A list that is too short is not searched. -/
def combinations {α : Type} : List α → Nat → List (List α)
  | _, 0 => [[]]
  | [], _ + 1 => []
  | x :: xs, k + 1 =>
    -- too few are left behind `x`
    if xs.length < k then []
    else (combinations xs k).map (x :: ·) ++ combinations xs (k + 1)

/-- The greatest number of 64 bits. -/
def maxCount : Nat := 0xFFFFFFFFFFFFFFFF

/-- One factor of a binomial coefficient: the product is capped before it is divided. -/
def binomialStep (n : Nat) (c i : Nat) : Nat :=
  min (c * (n - i)) maxCount / (i + 1)

/-- The number of combinations of `k` among `n` elements, computed in 64 bits. -/
def binomial (n k : Nat) : Nat :=
  -- choosing `k` elements is leaving out the others, so the smaller number of both is chosen
  if n < k then 0 else Nat.fold (min k (n - k)) (fun i _ c => binomialStep n c i) 1

end Timetable
