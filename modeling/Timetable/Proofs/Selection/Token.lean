import Timetable.Proofs.Selection.Listing
import Timetable.Proofs.Text.Spacing

/-!
Items as they are typed.

A list that is typed may have blanks around its commas and its numbers, and a plus
sign in front of a number. What stands between two commas is a token, unless it is
blank or a star. A token is the text of an item, or it is malformed: then there is
a first text in it that should be a number and is none, which is the one that is
reported. All tokens are read before anything is made of them, so a list is read as
one item for each token, or else its first malformed token is reported, whatever
stands around it.
-/

set_option autoImplicit false

namespace Timetable.Item

open Text

variable {t l : List Char} {n : Nat} {i : Item}

/-! ## Numbers -/

/-- A number as it is typed: digits that are worth a number of 32 bits, with a plus sign in front
or without, and blanks around. -/
def IsTyped (t : List Char) (n : Nat) : Prop :=
  ∃ ds, (trim t = ds ∨ trim t = '+' :: ds) ∧ IsDecimal ds n ∧ n < wordLimit

theorem readNumeral_trim_eq_ok_iff : readNumeral (trim t) = .ok n ↔ IsTyped t n := by
  rw [readNumeral_eq_ok_iff]
  simp only [isNumber_iff]
  constructor
  · rintro (⟨hworth, hn⟩ | ⟨ds, hds, hworth, hn⟩)
    · exact ⟨trim t, .inl rfl, hworth, hn⟩
    · exact ⟨ds, .inr hds, hworth, hn⟩
  · rintro ⟨ds, rfl | hds, hworth, hn⟩
    · exact .inl ⟨hworth, hn⟩
    · exact .inr ⟨ds, hds, hworth, hn⟩

theorem readNumber_eq_ok_iff_typed : readNumber t = .ok n ↔ IsTyped t n := by
  rw [← readNumeral_trim_eq_ok_iff, readNumber]
  cases readNumeral (trim t) with
  | error e => simp
  | ok m => simp

theorem readNumber_eq_error_iff {err : SelectionError} : readNumber t = .error err ↔
    ∃ e, readNumeral (trim t) = .error e ∧ err = .invalidToken (String.ofList t) e := by
  rw [readNumber]
  cases readNumeral (trim t) with
  | error e => simp [eq_comm]
  | ok m => simp

/-- A number is typed in digits, blanks and perhaps a plus sign. -/
theorem IsTyped.notMem_point (h : IsTyped t n) : '.' ∉ t := by
  obtain ⟨ds, htrim, hworth, -⟩ := h
  obtain ⟨a, b, ha, hb, ht⟩ := exists_eq_append_trim t
  have hdigits : '.' ∉ ds := fun hc => absurd (hworth.isDigit '.' hc) (by decide)
  have hnumeral : '.' ∉ trim t := by
    obtain htrim | htrim := htrim
    · rwa [htrim]
    · simp [htrim, hdigits]
  -- blanks, digits and a sign are no points
  rw [ht, List.mem_append, List.mem_append]
  rintro (hc | hc | hc)
  · exact absurd (ha '.' hc) (by decide)
  · exact hnumeral hc
  · exact absurd (hb '.' hc) (by decide)

/-! ## Tokens -/

/-- The first text of a token that should be a number and is none, and what is wrong with it. A
token with two points has a text before the first two of them and a text behind. -/
inductive Malformed : List Char → List Char → NumeralError → Prop where
  | number {t : List Char} {e : NumeralError} : ¬ ['.', '.'] <:+: t →
    readNumeral (trim t) = .error e → Malformed t t e
  | first {a b : List Char} {e : NumeralError} : ¬ ['.', '.'] <:+: a ++ ['.'] →
    readNumeral (trim a) = .error e → Malformed (a ++ ['.', '.'] ++ b) a e
  | last {a b : List Char} {n : Nat} {e : NumeralError} : IsTyped a n →
    readNumeral (trim b) = .error e → Malformed (a ++ ['.', '.'] ++ b) b e

/-- The text of an item, its numbers as they are typed. -/
abbrev Typed : List Char → Item → Prop :=
  Spelled ['.', '.'] IsTyped

/-- A token is cut at its first two points. -/
theorem cutAt?_points_iff {a b : List Char} : cutAt? ['.', '.'] t = some (a, b) ↔
    t = a ++ ['.', '.'] ++ b ∧ ¬ ['.', '.'] <:+: a ++ ['.'] :=
  cutAt?_eq_some_iff_first (by simp)

/-- There are no two points in the text of a number, nor at its end if at most one character
follows. -/
theorem IsTyped.not_infix_points (h : IsTyped t n) {s : List Char} (hs : s.length ≤ 1) :
    ¬ ['.', '.'] <:+: t ++ s := by
  intro hin
  -- a number has no point, so all points would be in what follows
  have hcount : 2 ≤ (t ++ s).count '.' := hin.sublist.count_le '.'
  have hs' : s.count '.' ≤ s.length := List.count_le_length
  rw [List.count_append, List.count_eq_zero.mpr h.notMem_point] at hcount
  omega

/-- **A token is read as the item whose text it is.** -/
theorem read_eq_ok_iff_typed : read t = .ok i ↔ Typed t i := by
  constructor
  · intro h
    rw [read] at h
    split at h
    -- two points: a range, cut at the first of them
    · next first last hcut =>
      obtain ⟨rfl, -⟩ := cutAt?_points_iff.mp hcut
      obtain ⟨a, ha, h⟩ := bind_eq_ok.mp h
      obtain ⟨b, hb, h⟩ := bind_eq_ok.mp h
      obtain rfl := pure_eq_ok.mp h
      exact .range (readNumber_eq_ok_iff_typed.mp ha) (readNumber_eq_ok_iff_typed.mp hb)
    · obtain ⟨a, ha, h⟩ := bind_eq_ok.mp h
      obtain rfl := pure_eq_ok.mp h
      exact .number (readNumber_eq_ok_iff_typed.mp ha)
  · intro h
    cases h with
    | @number _ n hn =>
      have hpoints : ¬ ['.', '.'] <:+: t ++ [] := hn.not_infix_points (by simp)
      rw [List.append_nil] at hpoints
      have hcut : cutAt? ['.', '.'] t = none := (cutAt?_eq_none_iff (by simp)).mpr hpoints
      rw [read, hcut]
      exact bind_eq_ok.mpr ⟨n, readNumber_eq_ok_iff_typed.mpr hn, rfl⟩
    -- the first number has no point, so the cut is behind it
    | @range t t' a b ha hb =>
      have hcut : cutAt? ['.', '.'] (t ++ ['.', '.'] ++ t') = some (t, t') :=
        cutAt?_points_iff.mpr ⟨rfl, ha.not_infix_points (by simp)⟩
      rw [read, hcut]
      exact bind_eq_ok.mpr ⟨a, readNumber_eq_ok_iff_typed.mpr ha,
        bind_eq_ok.mpr ⟨b, readNumber_eq_ok_iff_typed.mpr hb, rfl⟩⟩

/-- **A token that is not read is malformed**, and its first text that is no number is
reported. -/
theorem read_eq_error_iff {err : SelectionError} : read t = .error err ↔
    ∃ token e, Malformed t token e ∧ err = .invalidToken (String.ofList token) e := by
  constructor
  · intro h
    rw [read] at h
    split at h
    · next first last hcut =>
      obtain ⟨rfl, hfirst⟩ := cutAt?_points_iff.mp hcut
      -- the first number is read before the second one
      obtain ha | ⟨a, ha, h⟩ := bind_eq_error.mp h
      · obtain ⟨e, he, rfl⟩ := readNumber_eq_error_iff.mp ha
        exact ⟨first, e, .first hfirst he, rfl⟩
      · obtain hb | ⟨b, -, h⟩ := bind_eq_error.mp h
        · obtain ⟨e, he, rfl⟩ := readNumber_eq_error_iff.mp hb
          exact ⟨last, e, .last (readNumber_eq_ok_iff_typed.mp ha) he, rfl⟩
        · cases h
    · next hcut =>
      obtain ha | ⟨a, -, h⟩ := bind_eq_error.mp h
      · obtain ⟨e, he, rfl⟩ := readNumber_eq_error_iff.mp ha
        exact ⟨t, e, .number ((cutAt?_eq_none_iff (by simp)).mp hcut) he, rfl⟩
      · cases h
  · rintro ⟨token, e, h, rfl⟩
    cases h with
    | number hpoints he =>
      rw [read, (cutAt?_eq_none_iff (by simp)).mpr hpoints]
      exact bind_eq_error.mpr (.inl (readNumber_eq_error_iff.mpr ⟨e, he, rfl⟩))
    | first hpoints he =>
      rw [read, cutAt?_points_iff.mpr ⟨rfl, hpoints⟩]
      exact bind_eq_error.mpr (.inl (readNumber_eq_error_iff.mpr ⟨e, he, rfl⟩))
    | @last a b n e ha he =>
      rw [read, cutAt?_points_iff.mpr ⟨rfl, ha.not_infix_points (by simp)⟩]
      refine bind_eq_error.mpr (.inr ⟨n, readNumber_eq_ok_iff_typed.mpr ha, ?_⟩)
      exact bind_eq_error.mpr (.inl (readNumber_eq_error_iff.mpr ⟨e, he, rfl⟩))

/-! ## Lists -/

/-- **A list is read as one item for each token.** -/
theorem readList_eq_ok_iff_typed {items : List Item} : readList l = .ok items ↔
    List.Forall₂ Typed (tokens l) items := by
  rw [readList, mapM_eq_ok_iff]
  simp only [read_eq_ok_iff_typed]

/-- **A list that is not read has a malformed token**, and the first one is reported. -/
theorem readList_eq_error_iff {err : SelectionError} : readList l = .error err ↔
    ∃ before t after token e, tokens l = before ++ t :: after ∧
      (∀ u ∈ before, ∃ i, Typed u i) ∧ Malformed t token e ∧
        err = .invalidToken (String.ofList token) e := by
  rw [readList, mapM_eq_error_iff]
  simp only [read_eq_ok_iff_typed, read_eq_error_iff]
  constructor
  · rintro ⟨before, t, after, htokens, hbefore, token, e, ht, rfl⟩
    exact ⟨before, t, after, token, e, htokens, hbefore, ht, rfl⟩
  · rintro ⟨before, t, after, token, e, htokens, hbefore, ht, rfl⟩
    exact ⟨before, t, after, htokens, hbefore, token, e, ht, rfl⟩

/-- What a reader reports is not about a domain. -/
theorem readList_ne_tooWide : readList l ≠ .error .tooWide := by
  intro h
  obtain ⟨_, _, _, _, _, _, _, _, he⟩ := readList_eq_error_iff.mp h
  cases he

/-- A token is malformed unless it is the text of an item. -/
theorem exists_malformed (h : ¬ ∃ i, Typed t i) :
    ∃ token e, Malformed t token e := by
  cases hread : read t with
  | ok i => exact absurd ⟨i, read_eq_ok_iff_typed.mp hread⟩ h
  | error err =>
    obtain ⟨token, e, ht, -⟩ := read_eq_error_iff.mp hread
    exact ⟨token, e, ht⟩

end Timetable.Item
