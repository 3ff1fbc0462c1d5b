import Mathlib.Data.Nat.Choose.Basic
import Mathlib.Tactic.Ring
import Timetable.Combination

/-!
How many combinations there are, in 64 bits.

The number of combinations is computed factor by factor. Each factor is multiplied
in before the product is divided, and the product before the division is what is
capped at the greatest number of 64 bits. As long as no product is capped, every
division is without rest and the number is right. The products grow from factor to
factor, so only the last one matters: it is the number of combinations times the
number of factors. If that does not fit, the result is at most the cap divided by
the number of factors, which is neither the number of combinations nor the cap.
-/

set_option autoImplicit false

namespace Timetable

/-- The count after the first `m` factors. -/
def partialCount (n m : Nat) : Nat :=
  Nat.fold m (fun i _ c => binomialStep n c i) 1

/-- The product begins with one. -/
@[simp] theorem partialCount_zero (n : Nat) : partialCount n 0 = 1 := rfl

/-- One step of the loop: the product is capped, and then it is divided. -/
theorem partialCount_succ (n m : Nat) :
    partialCount n (m + 1) = min (partialCount n m * (n - m)) maxCount / (m + 1) := by
  rw [partialCount, Nat.fold_succ]
  rfl

/-- The number of combinations is a product of the shorter length. -/
theorem binomial_of_le {n k : Nat} (h : k ≤ n) :
    binomial n k = partialCount n (min k (n - k)) :=
  if_neg (Nat.not_lt.mpr h)

/-! ## The count without a cap -/

/-- The product before a division is the next binomial coefficient times the divisor. -/
theorem choose_mul_sub (n m : Nat) : n.choose m * (n - m) = (m + 1) * n.choose (m + 1) := by
  rw [← Nat.choose_succ_right_eq, Nat.mul_comm]

/-- Up to the middle the products grow. -/
theorem mul_choose_le_succ {n m : Nat} (h : 2 * m ≤ n) :
    m * n.choose m ≤ (m + 1) * n.choose (m + 1) := by
  rw [← choose_mul_sub, Nat.mul_comm]
  exact Nat.mul_le_mul_left _ (by omega)

/-- After at least one factor the count is no greater than the cap divided by their number. -/
theorem partialCount_succ_le (n m : Nat) : partialCount n (m + 1) ≤ maxCount / (m + 1) := by
  rw [partialCount_succ]
  exact Nat.div_le_div_right (Nat.min_le_right _ _)

/-- No step leaves more than the cap. -/
theorem partialCount_le_maxCount (n m : Nat) : partialCount n m ≤ maxCount := by
  cases m with
  | zero => rw [partialCount_zero, maxCount]; omega
  | succ m => exact (partialCount_succ_le n m).trans (Nat.div_le_self _ _)

/-- **Every division is without rest**, as long as the last product fits in 64 bits. -/
theorem partialCount_eq_choose {n m : Nat} (hm : 2 * m ≤ n) (h : m * n.choose m ≤ maxCount) :
    partialCount n m = n.choose m := by
  induction m with
  | zero => simp
  | succ m ih =>
    have hbefore : m * n.choose m ≤ maxCount := (mul_choose_le_succ (by omega)).trans h
    rw [partialCount_succ, ih (by omega) hbefore, choose_mul_sub, Nat.min_eq_left h,
      Nat.mul_div_cancel_left _ (Nat.succ_pos m)]

/-! ## The count with a cap -/

/-- A capped product stays capped: dividing it by a factor and multiplying the next one in, which
is greater by at least 2, leads beyond the cap again. Only factors of more than 32 bits would lose
so much by rounding that they do not. -/
theorem maxCount_le_div_mul {m l : Nat} (hm : m + 1 < 2 ^ 32) (hl : m + 3 ≤ l) :
    maxCount ≤ maxCount / (m + 1) * l := by
  have hrest : maxCount % (m + 1) < m + 1 := Nat.mod_lt _ (Nat.succ_pos m)
  have hquotient : 2 ^ 32 + 1 ≤ maxCount / (m + 1) := by
    rw [Nat.le_div_iff_mul_le (Nat.succ_pos m)]
    calc (2 ^ 32 + 1) * (m + 1) ≤ (2 ^ 32 + 1) * (2 ^ 32 - 1) := Nat.mul_le_mul_left _ (by omega)
      _ = maxCount := by decide
  calc maxCount = (m + 1) * (maxCount / (m + 1)) + maxCount % (m + 1) :=
        (Nat.div_add_mod _ _).symm
    _ ≤ (m + 1) * (maxCount / (m + 1)) + 2 * (maxCount / (m + 1)) := by omega
    _ = maxCount / (m + 1) * (m + 3) := by ring
    _ ≤ maxCount / (m + 1) * l := Nat.mul_le_mul_left _ hl

/-- **The count in closed form**, for up to `2 ^ 32` factors. It is as if the last product alone
were capped. -/
theorem partialCount_succ_eq {n m : Nat} (hm : 2 * (m + 1) ≤ n) (hlimit : m + 1 ≤ 2 ^ 32) :
    partialCount n (m + 1) = min ((m + 1) * n.choose (m + 1)) maxCount / (m + 1) := by
  -- along the loop; a product that is not capped leaves the exact count
  induction m with
  | zero => rw [partialCount_succ, ← choose_mul_sub, partialCount_zero, Nat.choose_zero_right]
  | succ m ih =>
    rw [partialCount_succ, ← choose_mul_sub n (m + 1)]
    by_cases hfits : (m + 1) * n.choose (m + 1) ≤ maxCount
    · rw [partialCount_eq_choose (by omega) hfits]
    · -- the product before is capped, and then so is this one, whichever count it is made from
      have hbefore : partialCount n (m + 1) = maxCount / (m + 1) := by
        rw [ih (by omega) (by omega), Nat.min_eq_right (Nat.le_of_not_le hfits)]
      have hcount : maxCount ≤ partialCount n (m + 1) * (n - (m + 1)) := by
        rw [hbefore]
        exact maxCount_le_div_mul (by omega) (by omega)
      have hchoose : maxCount ≤ n.choose (m + 1) * (n - (m + 1)) := by
        rw [choose_mul_sub]
        exact (Nat.le_of_not_le hfits).trans (mul_choose_le_succ (by omega))
      rw [Nat.min_eq_right hcount, Nat.min_eq_right hchoose]

/-! ## The number of combinations -/

section Binomial

variable {n k : Nat}

/-- The cap is the largest word. -/
theorem le_maxCount_iff {m : Nat} : m ≤ maxCount ↔ m < 2 ^ 64 := by
  rw [maxCount]
  omega

/-- The result is a word. -/
theorem binomial_le_maxCount (n k : Nat) : binomial n k ≤ maxCount := by
  by_cases hk : k ≤ n
  · rw [binomial_of_le hk]
    exact partialCount_le_maxCount _ _
  · rw [binomial, if_pos (Nat.lt_of_not_le hk)]
    exact Nat.zero_le _

/-- Choosing and leaving out come to the same. -/
theorem choose_min_sub (h : k ≤ n) : n.choose (min k (n - k)) = n.choose k := by
  by_cases hk : k ≤ n - k
  · rw [Nat.min_eq_left hk]
  · rw [Nat.min_eq_right (Nat.le_of_not_le hk), Nat.choose_symm h]

/-- **The number of combinations is right if its last product fits in 64 bits.** -/
theorem binomial_eq_choose (h : min k (n - k) * n.choose k < 2 ^ 64) :
    binomial n k = n.choose k := by
  by_cases hk : k ≤ n
  · rw [← choose_min_sub hk] at h
    rw [binomial_of_le hk, partialCount_eq_choose (by omega) (le_maxCount_iff.mpr h),
      choose_min_sub hk]
  · rw [binomial, if_pos (Nat.lt_of_not_le hk), Nat.choose_eq_zero_of_lt (Nat.lt_of_not_le hk)]

/-- If the last product does not fit, there are at least two factors, for one alone is the number
of elements. -/
theorem two_le_of_le_product (hn : n < 2 ^ 64) (h : 2 ^ 64 ≤ min k (n - k) * n.choose k) :
    k ≤ n ∧ 2 ≤ min k (n - k) := by
  have hk : k ≤ n := by
    by_contra hk
    rw [Nat.choose_eq_zero_of_lt (by omega)] at h
    omega
  refine ⟨hk, ?_⟩
  rw [← choose_min_sub hk] at h
  by_contra hfew
  -- with no factor or a single one the count is a word
  obtain hm | hm : min k (n - k) = 0 ∨ min k (n - k) = 1 := by omega
  · rw [hm] at h
    omega
  · rw [hm, Nat.choose_one_right] at h
    omega

/-- If the last product does not fit, the cap divided by the number of factors is smaller than the
binomial coefficient and the cap. -/
theorem div_lt_min_of_le_product (htwo : 2 ≤ min k (n - k))
    (h : 2 ^ 64 ≤ min k (n - k) * n.choose k) :
    maxCount / min k (n - k) < min (n.choose k) maxCount := by
  apply lt_min
  · rw [Nat.div_lt_iff_lt_mul (by omega), Nat.mul_comm]
    exact Nat.lt_of_lt_of_le (by decide) h
  · exact Nat.div_lt_self (by decide) htwo

/-- **The number of combinations does not saturate.** It is the binomial coefficient, capped at the
greatest number of 64 bits, if and only if the binomial coefficient times the number of factors fits
in 64 bits, and then nothing is capped at all. Otherwise it is at most the cap divided by the number
of factors, which is smaller than both the binomial coefficient and the cap; and for up to `2 ^ 32`
factors it is just that. -/
theorem binomial_saturates_iff (hn : n < 2 ^ 64) :
    (binomial n k = min (n.choose k) maxCount ↔ min k (n - k) * n.choose k < 2 ^ 64) ∧
      (2 ^ 64 ≤ min k (n - k) * n.choose k →
        binomial n k ≤ maxCount / min k (n - k) ∧
          maxCount / min k (n - k) < min (n.choose k) maxCount ∧
            (min k (n - k) ≤ 2 ^ 32 → binomial n k = maxCount / min k (n - k))) := by
  -- where the last product is capped, dividing it gives too little
  have hover : 2 ^ 64 ≤ min k (n - k) * n.choose k →
      binomial n k ≤ maxCount / min k (n - k) ∧
        maxCount / min k (n - k) < min (n.choose k) maxCount ∧
          (min k (n - k) ≤ 2 ^ 32 → binomial n k = maxCount / min k (n - k)) := by
    intro h
    obtain ⟨hk, htwo⟩ := two_le_of_le_product hn h
    have hsmall := div_lt_min_of_le_product htwo h
    have hhalf : 2 * min k (n - k) ≤ n := by omega
    have hcapped : maxCount ≤ min k (n - k) * n.choose (min k (n - k)) := by
      rw [choose_min_sub hk, maxCount]
      omega
    obtain ⟨m, hm⟩ : ∃ m, min k (n - k) = m + 1 := ⟨min k (n - k) - 1, by omega⟩
    rw [binomial_of_le hk]
    rw [hm] at hhalf hcapped hsmall ⊢
    refine ⟨partialCount_succ_le n m, hsmall, fun hlimit => ?_⟩
    rw [partialCount_succ_eq hhalf hlimit, Nat.min_eq_right hcapped]
  refine ⟨⟨fun heq => ?_, fun h => ?_⟩, hover⟩
  · by_contra h
    obtain ⟨hle, hlt, -⟩ := hover (Nat.le_of_not_lt h)
    exact absurd heq (Nat.lt_of_le_of_lt hle hlt).ne
  · rw [Nat.min_eq_left (binomial_eq_choose h ▸ binomial_le_maxCount n k)]
    exact binomial_eq_choose h

end Binomial

/-- For half of 62 elements the number is right, and for half of 68 it is a 34th of the cap. -/
theorem binomial_saturates_iff_half :
    (62 < 2 ^ 64 ∧ binomial 62 31 = min (Nat.choose 62 31) maxCount) ∧
      68 < 2 ^ 64 ∧ binomial 68 34 = maxCount / 34 := by
  have hfits : min 31 (62 - 31) * Nat.choose 62 31 < 2 ^ 64 := by
    rw [Nat.choose_eq_descFactorial_div_factorial]
    decide
  have hover : 2 ^ 64 ≤ min 34 (68 - 34) * Nat.choose 68 34 := by
    rw [Nat.choose_eq_descFactorial_div_factorial]
    decide
  refine ⟨⟨by decide, (binomial_saturates_iff (by decide)).1.mpr hfits⟩, by decide, ?_⟩
  exact ((binomial_saturates_iff (by decide)).2 hover).2.2 (by decide)

/-- Half of 63 elements can be chosen in less ways than the cap, but in more than the result. -/
theorem binomial_saturates_low :
    binomial 63 31 = 595056260442243600 ∧
      min (Nat.choose 63 31) maxCount = 916312070471295267 := by
  refine ⟨by decide +kernel, ?_⟩
  rw [Nat.choose_eq_descFactorial_div_factorial]
  decide

end Timetable
