import Mathlib.Data.Nat.Find
import Timetable.Proofs.Text.Mark

/-!
The positions of a mark in a text.

A search tells a position, counted in characters: the first one at which a mark
stands, among all positions or among those from a given one on. A text that is
cut at a mark is cut into what is before this position and what is behind the
mark that begins there. This is so for every mark, also for one whose places
overlap: that no earlier position has the mark is more than that the mark does
not stand in what is before the position, because an earlier place could reach
into the one that is found.
-/

set_option autoImplicit false

namespace Timetable.Text

variable {mark s : List Char} {k i j : Nat}

/-- A mark stands at a position of a text: it begins behind that many characters. -/
def StandsAt (mark s : List Char) (i : Nat) : Prop :=
  mark <+: s.drop i

instance (mark s : List Char) (i : Nat) : Decidable (StandsAt mark s i) :=
  inferInstanceAs (Decidable (mark <+: s.drop i))

/-- The first position of a mark in a text among those from `k` on. -/
structure IsFirstFrom (mark s : List Char) (k i : Nat) : Prop where
  le : k ≤ i
  stands : StandsAt mark s i
  first : ∀ j, k ≤ j → j < i → ¬ StandsAt mark s j

/-! ## Positions in parts of a text -/

theorem standsAt_drop : StandsAt mark (s.drop k) i ↔ StandsAt mark s (k + i) := by
  unfold StandsAt
  rw [List.drop_drop]

/-- A mark stands in a text exactly if it stands at some position of it. -/
theorem infix_iff_exists_standsAt : mark <:+: s ↔ ∃ i, StandsAt mark s i := by
  constructor
  · rintro ⟨b, r, rfl⟩
    exact ⟨b.length, r, by simp⟩
  · rintro ⟨i, hi⟩
    exact hi.isInfix.trans (List.drop_suffix i s).isInfix

/-- A mark in the front part of a text stands in the text before the end of this part. -/
theorem exists_standsAt_append (hm : mark ≠ []) {b : List Char} (h : mark <:+: b) (r : List Char) :
    ∃ i < b.length, StandsAt mark (b ++ r) i := by
  obtain ⟨x, y, rfl⟩ := h
  have hlength := List.length_pos_of_ne_nil hm
  refine ⟨x.length, ?_, y ++ r, by simp⟩
  simp only [List.length_append]
  omega

/-! ## The first position -/

theorem IsFirstFrom.unique (hi : IsFirstFrom mark s k i) (hj : IsFirstFrom mark s k j) : i = j := by
  apply Nat.le_antisymm
  · exact Nat.le_of_not_lt fun hlt => hi.first j hj.le hlt hj.stands
  · exact Nat.le_of_not_lt fun hlt => hj.first i hi.le hlt hi.stands

/-- If there is a position, there is a first one. -/
theorem exists_isFirstFrom_iff :
    (∃ i, IsFirstFrom mark s k i) ↔ ∃ i, k ≤ i ∧ StandsAt mark s i := by
  constructor
  · rintro ⟨i, hi⟩
    exact ⟨i, hi.le, hi.stands⟩
  · intro h
    -- the least of the positions is the first one
    obtain ⟨hle, hstands⟩ := Nat.find_spec h
    exact ⟨Nat.find h, hle, hstands, fun j hj hlt hstands => Nat.find_min h hlt ⟨hj, hstands⟩⟩

theorem isFirstFrom_drop : IsFirstFrom mark (s.drop k) 0 i ↔ IsFirstFrom mark s k (k + i) := by
  constructor
  · intro h
    refine ⟨Nat.le_add_right k i, standsAt_drop.mp h.stands, fun j hj hlt => ?_⟩
    obtain ⟨n, rfl⟩ := Nat.exists_eq_add_of_le hj
    rw [← standsAt_drop]
    exact h.first n (Nat.zero_le n) (Nat.lt_of_add_lt_add_left hlt)
  · intro h
    refine ⟨Nat.zero_le i, standsAt_drop.mpr h.stands, fun j _ hlt => ?_⟩
    rw [standsAt_drop]
    exact h.first (k + j) (Nat.le_add_right k j) (Nat.add_lt_add_left hlt k)

/-- A mark with which a text begins has its first position there. -/
theorem isFirstFrom_iff_eq_zero (h : mark <+: s) : IsFirstFrom mark s 0 i ↔ i = 0 := by
  have hzero : IsFirstFrom mark s 0 0 :=
    ⟨Nat.le_refl 0, h, fun j _ hlt => absurd hlt (Nat.not_lt_zero j)⟩
  constructor
  · exact fun hi => hi.unique hzero
  · rintro rfl
    exact hzero

/-- A mark with which a text does not begin has its first position one further than in the rest. -/
theorem isFirstFrom_cons {c : Char} (h : ¬ mark <+: c :: s) :
    IsFirstFrom mark (c :: s) 0 i ↔ ∃ j, i = j + 1 ∧ IsFirstFrom mark s 0 j := by
  constructor
  · intro hi
    -- the mark does not stand at the beginning, so the position is not zero
    cases i with
    | zero => exact absurd hi.stands h
    | succ j =>
      refine ⟨j, rfl, Nat.zero_le j, hi.stands, fun n _ hlt => ?_⟩
      exact hi.first (n + 1) (Nat.zero_le _) (Nat.succ_lt_succ hlt)
  · rintro ⟨j, rfl, hj⟩
    refine ⟨Nat.zero_le _, hj.stands, fun n _ hlt => ?_⟩
    cases n with
    | zero => exact h
    | succ n => exact hj.first n (Nat.zero_le n) (Nat.lt_of_succ_lt_succ hlt)

/-! ## Cutting at the first position -/

/-- A text is cut at its beginning if the mark stands there. -/
theorem cutAt?_eq_some_iff_eq_nil {b r : List Char} (h : mark <+: s) :
    cutAt? mark s = some (b, r) ↔ b = [] ∧ r = s.drop mark.length := by
  obtain ⟨x, rfl⟩ := h
  rw [List.drop_left, cutAt?_eq_of_prefix]
  simp [eq_comm]

/-- **A text is cut at the first position of a mark**, into what is before it and what is behind
the mark. -/
theorem cutAt?_eq_some_iff_isFirstFrom {b r : List Char} : cutAt? mark s = some (b, r) ↔
    ∃ i, IsFirstFrom mark s 0 i ∧ b = s.take i ∧ r = s.drop (i + mark.length) := by
  induction s generalizing b with
  | nil =>
    by_cases hp : mark <+: []
    · simp [isFirstFrom_iff_eq_zero hp, cutAt?_eq_some_iff_eq_nil hp]
    · rw [cutAt?_nil fun hm => hp (List.prefix_nil.mpr hm)]
      refine iff_of_false nofun ?_
      rintro ⟨i, hi, -⟩
      exact hp (by simpa [StandsAt] using hi.stands)
  | cons c t ih =>
    by_cases hp : mark <+: c :: t
    · simp [isFirstFrom_iff_eq_zero hp, cutAt?_eq_some_iff_eq_nil hp]
    -- both the cut and the first position are those of the rest, moved by one character
    · have hdrop (j : Nat) : (c :: t).drop (j + 1 + mark.length) = t.drop (j + mark.length) := by
        rw [Nat.add_right_comm, List.drop_succ_cons]
      rw [cutAt?_cons hp, Option.map_eq_some_iff]
      simp only [isFirstFrom_cons hp]
      constructor
      · rintro ⟨⟨b', r'⟩, hcut, heq⟩
        obtain ⟨rfl, rfl⟩ : c :: b' = b ∧ r' = r := by simpa using heq
        obtain ⟨j, hj, rfl, rfl⟩ := ih.mp hcut
        exact ⟨j + 1, ⟨j, rfl, hj⟩, rfl, (hdrop j).symm⟩
      · rintro ⟨i, ⟨j, rfl, hj⟩, rfl, rfl⟩
        exact ⟨(t.take j, _), ih.mpr ⟨j, hj, rfl, hdrop j⟩, rfl⟩

/-- The rest of a text is cut at the first position of a mark from there on. -/
theorem cutAt?_drop_eq_some_iff {b r : List Char} : cutAt? mark (s.drop k) = some (b, r) ↔
    ∃ i, IsFirstFrom mark s k i ∧ b = (s.take i).drop k ∧ r = s.drop (i + mark.length) := by
  rw [cutAt?_eq_some_iff_isFirstFrom]
  constructor
  · rintro ⟨i, hi, rfl, rfl⟩
    -- positions of the rest are counted from k
    refine ⟨k + i, isFirstFrom_drop.mp hi, ?_, ?_⟩
    · rw [List.drop_take, Nat.add_sub_cancel_left]
    · rw [List.drop_drop, Nat.add_assoc]
  · rintro ⟨i, hi, rfl, rfl⟩
    obtain ⟨n, rfl⟩ := Nat.exists_eq_add_of_le hi.le
    refine ⟨n, isFirstFrom_drop.mpr hi, ?_, ?_⟩
    · rw [List.drop_take, Nat.add_sub_cancel_left]
    · rw [List.drop_drop, Nat.add_assoc]

end Timetable.Text
