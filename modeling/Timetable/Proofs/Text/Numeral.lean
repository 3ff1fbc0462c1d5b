import Timetable.Text.Numeral

/-!
Numerals and what they are worth.

A reader of digits computes what the digits are worth and stops when that leaves
the 32 bits. The worth never falls while more digits are read, so it is enough
that the whole numeral stays within them. Hence a number of 32 bits is read from
all digits that are worth it, however many zeros are in front of them, and so it
is read from the digits with which it is written.
-/

set_option autoImplicit false

namespace Timetable.Text

/-- More digits are worth no less. -/
theorem le_ofDigitChars (cs : List Char) (n : Nat) : n ≤ Nat.ofDigitChars 10 cs n := by
  induction cs generalizing n with
  | nil => exact Nat.le_refl n
  | cons c cs ih =>
    calc n ≤ 10 * n + (c.toNat - '0'.toNat) := by omega
      _ ≤ Nat.ofDigitChars 10 cs (10 * n + (c.toNat - '0'.toNat)) := ih _

/-- Digits are read as what they are worth. -/
theorem readDigits_eq_ok {cs : List Char} {n : Nat} (hcs : ∀ c ∈ cs, c.isDigit = true)
    (h : Nat.ofDigitChars 10 cs n < wordLimit) :
    readDigits n cs = .ok (Nat.ofDigitChars 10 cs n) := by
  induction cs generalizing n with
  | nil => rfl
  | cons c cs ih =>
    have hsmall : 10 * n + (c.toNat - '0'.toNat) < wordLimit :=
      Nat.lt_of_le_of_lt (le_ofDigitChars cs _) h
    simp only [readDigits, hcs c (by simp), hsmall, if_true]
    exact ih (fun d hd => hcs d (by simp [hd])) h

/-- A number has a digit. -/
theorem decimal_ne_nil (n : Nat) : decimal n ≠ [] :=
  Nat.toDigits_ne_nil

/-- A number that is filled up has at least one digit. -/
theorem twoDigits_ne_nil (n : Nat) : twoDigits n ≠ [] := by
  rw [twoDigits]
  split
  · exact List.cons_ne_nil _ _
  · exact decimal_ne_nil n

/-- A number is written in digits. -/
theorem isDigit_of_mem_decimal {n : Nat} {c : Char} (hc : c ∈ decimal n) : c.isDigit = true :=
  Nat.isDigit_of_mem_toDigits (by decide) (by decide) hc

/-- A number that is filled up is written in digits as well, because zero is one. -/
theorem isDigit_of_mem_twoDigits {n : Nat} {c : Char} (hc : c ∈ twoDigits n) :
    c.isDigit = true := by
  rw [twoDigits] at hc
  split at hc
  · obtain rfl | hc := List.mem_cons.mp hc
    · rfl
    · exact isDigit_of_mem_decimal hc
  · exact isDigit_of_mem_decimal hc

/-- A text that begins with a digit has no sign. -/
theorem readNumeral_of_isDigit {cs : List Char} (hne : cs ≠ [])
    (hcs : ∀ c ∈ cs, c.isDigit = true) : readNumeral cs = readDigits 0 cs := by
  have hplus : '+' ∉ cs := fun h => absurd (hcs '+' h) (by decide)
  unfold readNumeral
  split
  · exact absurd rfl hne
  · simp at hplus
  · simp at hplus
  · rfl

/-! ## Texts of numbers -/

/-- The text of a number: digits that are read as it. -/
structure IsNumber (t : List Char) (n : Nat) : Prop where
  ne_nil : t ≠ []
  isDigit : ∀ c ∈ t, c.isDigit = true
  read : readNumeral t = .ok n

namespace IsNumber

variable {t : List Char} {n : Nat}

/-- What is no digit does not occur in a number, so numbers can be told apart where other characters
stand between them. -/
theorem notMem (h : IsNumber t n) {c : Char} (hc : c.isDigit = false) : c ∉ t :=
  fun hm => absurd (h.isDigit c hm) (by simp [hc])

/-- A number begins with a digit. -/
theorem exists_eq_cons (h : IsNumber t n) : ∃ c rest, c.isDigit = true ∧ t = c :: rest := by
  obtain ⟨c, rest, rfl⟩ := List.exists_cons_of_ne_nil h.ne_nil
  exact ⟨c, rest, h.isDigit c (by simp), rfl⟩

end IsNumber

/-! ## What a numeral is worth -/

/-- A text of decimal digits and the number that they are worth. -/
structure IsDecimal (t : List Char) (n : Nat) : Prop where
  ne_nil : t ≠ []
  isDigit : ∀ c ∈ t, c.isDigit = true
  worth : Nat.ofDigitChars 10 t 0 = n

/-- What is read are digits, as what they are worth with the digits before them. -/
theorem of_readDigits {cs : List Char} {n m : Nat} (h : readDigits n cs = .ok m) :
    (∀ c ∈ cs, c.isDigit = true) ∧ Nat.ofDigitChars 10 cs n = m := by
  -- digit by digit; the value read so far becomes the one to go on with
  induction cs generalizing n with
  | nil => exact ⟨nofun, Except.ok.inj h⟩
  | cons c cs ih =>
    simp only [readDigits] at h
    split at h
    · next hc =>
      split at h
      · obtain ⟨hcs, hworth⟩ := ih h
        refine ⟨fun d hd => ?_, hworth⟩
        obtain rfl | hd := List.mem_cons.mp hd
        · exact hc
        · exact hcs d hd
      · cases h
    · cases h

/-- **A number of 32 bits is read from the digits that are worth it**, and from no others. -/
theorem isNumber_iff {t : List Char} {n : Nat} :
    IsNumber t n ↔ IsDecimal t n ∧ n < wordLimit := by
  constructor
  · rintro ⟨hne, hdigit, hread⟩
    rw [readNumeral_of_isDigit hne hdigit] at hread
    exact ⟨⟨hne, hdigit, (of_readDigits hread).2⟩, readDigits_lt (by decide) hread⟩
  · rintro ⟨⟨hne, hdigit, rfl⟩, hlt⟩
    refine ⟨hne, hdigit, ?_⟩
    rw [readNumeral_of_isDigit hne hdigit]
    exact readDigits_eq_ok hdigit hlt

/-- A written number is worth itself. -/
theorem isDecimal_decimal (n : Nat) : IsDecimal (decimal n) n :=
  ⟨decimal_ne_nil n, fun _ => isDigit_of_mem_decimal,
    Nat.ofDigitChars_toDigits (by decide) (by decide)⟩

/-- The zero in front of a single digit is worth nothing. -/
theorem isDecimal_twoDigits (n : Nat) : IsDecimal (twoDigits n) n := by
  refine ⟨twoDigits_ne_nil n, fun _ => isDigit_of_mem_twoDigits, ?_⟩
  rw [twoDigits]
  split
  · exact (isDecimal_decimal n).worth
  · exact (isDecimal_decimal n).worth

/-- And it is read as itself if it is a word. -/
theorem isNumber_decimal {n : Nat} (hn : n < wordLimit) : IsNumber (decimal n) n :=
  isNumber_iff.mpr ⟨isDecimal_decimal n, hn⟩

/-- So is a number that is filled up. -/
theorem isNumber_twoDigits {n : Nat} (hn : n < wordLimit) : IsNumber (twoDigits n) n :=
  isNumber_iff.mpr ⟨isDecimal_twoDigits n, hn⟩

/-- A numeral is digits, or a plus sign and digits. -/
theorem readNumeral_eq_ok_iff {t : List Char} {n : Nat} :
    readNumeral t = .ok n ↔ IsNumber t n ∨ ∃ ds, t = '+' :: ds ∧ IsNumber ds n := by
  constructor
  · intro h
    -- nothing, a lone plus sign, digits behind a plus sign, or digits
    unfold readNumeral at h
    split at h
    · cases h
    · cases h
    · next ds hds =>
      have hne : ds ≠ [] := by
        rintro rfl
        exact hds rfl
      obtain ⟨hdigit, -⟩ := of_readDigits h
      exact .inr ⟨ds, rfl, hne, hdigit, by rw [readNumeral_of_isDigit hne hdigit]; exact h⟩
    · next hne _ _ =>
      obtain ⟨hdigit, -⟩ := of_readDigits h
      exact .inl ⟨hne, hdigit, by rw [readNumeral_of_isDigit hne hdigit]; exact h⟩
  · rintro (h | ⟨ds, rfl, h⟩)
    · exact h.read
    · obtain ⟨c, rest, -, rfl⟩ := h.exists_eq_cons
      have hplus : readNumeral ('+' :: c :: rest) = readDigits 0 (c :: rest) := by
        rw [readNumeral]
        simp
      rw [hplus, ← readNumeral_of_isDigit h.ne_nil h.isDigit, h.read]

/-- Of a number below ten, all digits but the last are zeros. -/
theorem IsDecimal.of_cons {c : Char} {t : List Char} {n : Nat} (h : IsDecimal (c :: t) n)
    (hn : n < 10) (ht : t ≠ []) : c = '0' ∧ IsDecimal t n := by
  have hworth := h.worth
  rw [Nat.ofDigitChars_cons, Nat.ofDigitChars_eq_ofDigitChars_zero] at hworth
  -- a digit with others behind it counts ten at least, unless it is zero
  have hten : 10 ≤ 10 ^ t.length := by
    calc 10 = 10 ^ 1 := rfl
      _ ≤ 10 ^ t.length := Nat.pow_le_pow_right (by decide) (List.length_pos_iff.mpr ht)
  have hdigit : '0'.toNat ≤ c.toNat := by
    have hc := h.isDigit c (by simp)
    rw [Char.isDigit, Bool.and_eq_true, decide_eq_true_eq] at hc
    exact hc.1
  have hzero : c.toNat - '0'.toNat = 0 := by
    refine Nat.eq_zero_of_not_pos fun hpos => ?_
    have hlarge : 10 * 1 ≤ 10 ^ t.length * (10 * 0 + (c.toNat - '0'.toNat)) :=
      Nat.mul_le_mul hten (by omega)
    omega
  refine ⟨Char.toNat_inj.mp (by omega), ht, fun d hd => h.isDigit d (by simp [hd]), ?_⟩
  rwa [hzero, Nat.mul_zero, Nat.zero_add] at hworth

end Timetable.Text
