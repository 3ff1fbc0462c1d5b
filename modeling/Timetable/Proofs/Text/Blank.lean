import Mathlib.Data.List.Basic
import Timetable.Text.Blank

/-!
Words, and texts without blanks.

A word is a text of one class of characters that is not empty. Words put together
with a character of their class between them are a word again. If the class has no
blanks, a word is not trimmed. Which characters are no blanks is known from the
code points of all blanks.
-/

set_option autoImplicit false

namespace Timetable.Text

/-! ## Words of a class -/

/-- A text that is not empty and has only characters of a class. -/
structure IsMadeOf (p : Char → Bool) (s : List Char) : Prop where
  ne_nil : s ≠ []
  all : ∀ c ∈ s, p c = true

namespace IsMadeOf

variable {p q : Char → Bool} {s t : List Char}

theorem mono (h : IsMadeOf p s) (hpq : ∀ c, p c = true → q c = true) : IsMadeOf q s :=
  ⟨h.ne_nil, fun c hc => hpq c (h.all c hc)⟩

theorem notMem (h : IsMadeOf p s) {c : Char} (hc : p c = false) : c ∉ s := by
  intro hm
  rw [h.all c hm] at hc
  exact Bool.noConfusion hc

/-- Two words with a character of the class between them are a word. -/
theorem append_cons (hs : IsMadeOf p s) {c : Char} (hc : p c = true) (ht : IsMadeOf p t) :
    IsMadeOf p (s ++ c :: t) := by
  refine ⟨by simp, fun x hx => ?_⟩
  obtain hx | hx := List.mem_append.mp hx
  · exact hs.all x hx
  · obtain rfl | hx := List.mem_cons.mp hx
    · exact hc
    · exact ht.all x hx

/-- A list of words with a character of the class between them is a word. -/
theorem intercalate {c : Char} (hc : p c = true) {ws : List (List Char)} (hne : ws ≠ [])
    (h : ∀ w ∈ ws, IsMadeOf p w) : IsMadeOf p ([c].intercalate ws) := by
  induction ws with
  | nil => exact absurd rfl hne
  | cons w ws ih =>
    cases ws with
    | nil => simpa using h w (by simp)
    | cons v vs =>
      rw [List.intercalate_cons_cons, List.append_assoc]
      exact (h w (by simp)).append_cons hc (ih (by simp) fun x hx => h x (by simp [hx]))

end IsMadeOf

/-! ## Blanks -/

/-- The code points of all blanks. -/
def blankCodes : List Nat :=
  [9, 10, 11, 12, 13, 0x20, 0x85, 0xA0, 0x1680, 0x2000, 0x2001, 0x2002, 0x2003, 0x2004, 0x2005,
    0x2006, 0x2007, 0x2008, 0x2009, 0x200A, 0x2028, 0x2029, 0x202F, 0x205F, 0x3000]

theorem toNat_mem_blankCodes {c : Char} (h : isBlank c = true) : c.toNat ∈ blankCodes := by
  simp only [isBlank] at h
  split at h
  · simp [blankCodes] at h ⊢
    omega
  · simp [blankCodes] at h ⊢
    omega

/-- The characters of a class without the code points of blanks are no blanks. -/
theorem isBlank_of_class {p : Char → Bool} (hp : ∀ n ∈ blankCodes, p (Char.ofNat n) = false)
    {c : Char} (h : p c = true) : isBlank c = false := by
  refine Bool.eq_false_iff.mpr fun hblank => ?_
  have hnone := hp _ (toNat_mem_blankCodes hblank)
  rw [Char.ofNat_toNat, h] at hnone
  exact Bool.noConfusion hnone

/-- A text that neither begins nor ends with a blank stays as it is. -/
theorem trim_eq_self {c d : Char} {s : List Char} (hc : isBlank c = false) (hd : isBlank d = false)
    (hs : ∃ t, c :: t = s) (hs' : ∃ t, t ++ [d] = s) : trim s = s := by
  have hstart : trimStart s = s := by
    obtain ⟨t, rfl⟩ := hs
    exact List.dropWhile_cons_of_neg (by simp [hc])
  have hend : trimEnd s = s := by
    obtain ⟨t, rfl⟩ := hs'
    simp [trimEnd, hd]
  rw [trim, hstart, hend]

/-- A text without blanks stays as it is. -/
theorem trim_of_blankFree {s : List Char} (h : ∀ c ∈ s, isBlank c = false) : trim s = s := by
  have keep : ∀ t : List Char, (∀ c ∈ t, isBlank c = false) → t.dropWhile isBlank = t := by
    intro t ht
    cases t with
    | nil => rfl
    | cons c t => exact List.dropWhile_cons_of_neg (by simp [ht c])
  rw [trim, trimStart, keep s h, trimEnd, keep s.reverse (by simpa using h), List.reverse_reverse]

end Timetable.Text
