import Mathlib.Data.List.Infix
import Timetable.Text.Cut

/-!
The lines of a text.

A line is a nonempty text with a line end behind it or with none, but with no
line end inside. The lines of a text are lines, each but the last of them ends
with its line end, and put together they are the text. Nothing else is needed to
know them: lines of this form are the lines of the text that they make. So
leaving out some lines, or putting lines behind a text that ends with a line, can
be seen in the list of lines.
-/

set_option autoImplicit false

namespace Timetable.Text

/-- A text that is a line: nothing stands behind a line end in it. -/
def IsLine (l : List Char) : Prop :=
  l ≠ [] ∧ '\n' ∉ l.dropLast

/-- A text that ends where a line ends, or is empty. -/
def EndsLine (s : List Char) : Prop :=
  s = [] ∨ ['\n'] <:+ s

/-- Lines in the order of a text: all but the last have their line end. -/
structure IsLines (ls : List (List Char)) : Prop where
  line : ∀ l ∈ ls, IsLine l
  ended : ls.Pairwise fun l _ => ['\n'] <:+ l

/-! ## Deciding about characters

What holds of all characters of a text is decided along the text. Characters are
finitely many, so the search for an instance might take all of them instead. -/

instance (priority := high) decidableForallMem {p : Char → Prop} [DecidablePred p]
    (s : List Char) : Decidable (∀ c ∈ s, p c) :=
  List.decidableBAll p s

instance (priority := high) decidableForallMemOption {p : Char → Prop} [DecidablePred p]
    (c? : Option Char) : Decidable (∀ c ∈ c?, p c) :=
  c?.decidableForallMem

/-! ## The first and the last place of a character -/

/-- A text has only one first place of a character. -/
theorem append_cons_inj_left {c : Char} {u v x y : List Char} (hu : c ∉ u) (hv : c ∉ v)
    (h : u ++ c :: x = v ++ c :: y) : u = v ∧ x = y := by
  have same : u = v := by
    obtain ⟨k, rfl, hk⟩ | ⟨k, rfl, hk⟩ := List.append_eq_append_iff.mp h
    · cases k with
      | nil => simp
      | cons d k => exact absurd ((List.cons.inj hk).1 ▸ by simp) hv
    · cases k with
      | nil => simp
      | cons d k => exact absurd ((List.cons.inj hk).1 ▸ by simp) hu
  subst same
  exact ⟨rfl, by simpa using h⟩

/-- A text has only one last place of a character. -/
theorem append_cons_inj_right {c : Char} {u v x y : List Char} (hx : c ∉ x) (hy : c ∉ y)
    (h : u ++ c :: x = v ++ c :: y) : u = v ∧ x = y := by
  -- read from the end, it is the first place
  have hreverse := congrArg List.reverse h
  simp only [List.reverse_append, List.reverse_cons, List.append_assoc, List.singleton_append]
    at hreverse
  obtain ⟨hend, hfront⟩ :=
    append_cons_inj_left (by simpa using hx) (by simpa using hy) hreverse
  exact ⟨List.reverse_injective hfront, List.reverse_injective hend⟩

/-- Induction over the pieces of a text between the places of a character: there is no such place,
or there is a first one. -/
theorem piece_induction (c : Char) {P : List Char → Prop} (last : ∀ a, c ∉ a → P a)
    (piece : ∀ a b, c ∉ a → P b → P (a ++ c :: b)) (s : List Char) : P s := by
  induction h : s.length using Nat.strongRecOn generalizing s with
  | ind n ih =>
    by_cases hs : c ∈ s
    -- what comes behind the first place is shorter
    · obtain ⟨a, b, rfl, ha⟩ := List.eq_append_cons_of_mem hs
      refine piece a b ha (ih b.length ?_ b rfl)
      rw [← h, List.length_append, List.length_cons]
      omega
    · exact last s hs

/-- Induction over the lines of a text: a text has no line end, or it has a first one. -/
theorem line_induction {P : List Char → Prop} (last : ∀ a, '\n' ∉ a → P a)
    (line : ∀ a b, '\n' ∉ a → P b → P (a ++ '\n' :: b)) (s : List Char) : P s :=
  piece_induction '\n' last line s

/-! ## The lines of a text, one by one -/

@[simp] theorem lines_nil : lines [] = [] := by
  simp [lines, List.splitOn, List.splitOnP_nil]

/-- A text is not split at a character that it does not have. -/
theorem splitOn_of_notMem {c : Char} {a : List Char} (h : c ∉ a) : a.splitOn c = [a] := by
  refine List.splitOnP_eq_singleton fun d hd => ?_
  have hne : d ≠ c := fun heq => h (heq ▸ hd)
  simpa using hne

/-- The first piece of a split text goes up to the first place of the character. -/
theorem splitOn_append_cons {c : Char} {a : List Char} (h : c ∉ a) (b : List Char) :
    (a ++ c :: b).splitOn c = a :: b.splitOn c := by
  rw [List.splitOn, List.splitOnP_append_cons a b (by simp)]
  exact congrArg (· ++ b.splitOn c) (splitOn_of_notMem h)

/-- A text without line ends is one line, or none. -/
theorem lines_of_notMem {a : List Char} (h : '\n' ∉ a) (ha : a ≠ []) : lines a = [a] := by
  simp [lines, splitOn_of_notMem h, ha]

/-- The first line of a text goes up to the first line end. -/
theorem lines_append_newline {a b : List Char} (h : '\n' ∉ a) :
    lines (a ++ '\n' :: b) = (a ++ ['\n']) :: lines b := by
  have hne : b.splitOn '\n' ≠ [] := List.splitOnP_ne_nil _ _
  simp [lines, splitOn_append_cons h, List.dropLast_cons_of_ne_nil hne,
    List.getLast?_cons_of_ne_nil hne]

/-- A line may go without its line end, but not without any character. -/
theorem isLine_of_notMem {a : List Char} (h : '\n' ∉ a) (ha : a ≠ []) : IsLine a :=
  ⟨ha, fun hm => h (List.dropLast_subset a hm)⟩

/-- A line with its line end may be empty otherwise. -/
theorem isLine_append_newline {a : List Char} (h : '\n' ∉ a) : IsLine (a ++ ['\n']) :=
  ⟨by simp, by simpa using h⟩

/-- A line has its line end at its end, or nowhere. -/
theorem IsLine.eq_append_newline {l : List Char} (hl : IsLine l) (h : ['\n'] <:+ l) :
    ∃ a, l = a ++ ['\n'] ∧ '\n' ∉ a := by
  obtain ⟨a, rfl⟩ := h
  exact ⟨a, rfl, by simpa using hl.2⟩

/-- A line without its line end has none. -/
theorem IsLine.notMem {l : List Char} (hl : IsLine l) (h : ¬ ['\n'] <:+ l) : '\n' ∉ l := by
  rw [List.singleton_suffix_iff_getLast?_eq_some, List.getLast?_eq_some_getLast hl.1] at h
  rw [← List.dropLast_append_getLast hl.1, List.mem_append, List.mem_singleton]
  rintro (hfront | hlast)
  · exact hl.2 hfront
  · exact h (by rw [← hlast])

/-! ## Lists of lines -/

/-- Lines are a row in which all but the last end. -/
theorem isLines_cons {l : List Char} {ls : List (List Char)} :
    IsLines (l :: ls) ↔ IsLine l ∧ (ls ≠ [] → ['\n'] <:+ l) ∧ IsLines ls := by
  constructor
  · rintro ⟨hline, hended⟩
    obtain ⟨hl, hls⟩ := List.pairwise_cons.mp hended
    refine ⟨hline l (by simp), fun hne => ?_, fun l' h' => hline l' (by simp [h']), hls⟩
    obtain ⟨l', h'⟩ := List.exists_mem_of_ne_nil ls hne
    exact hl l' h'
  · rintro ⟨hl, hend, hls⟩
    refine ⟨?_, List.pairwise_cons.mpr ⟨fun l' h' => hend (List.ne_nil_of_mem h'), hls.ended⟩⟩
    rintro l' (_ | ⟨_, h'⟩)
    · exact hl
    · exact hls.line l' h'

/-- No lines are lines. -/
theorem isLines_nil : IsLines [] :=
  ⟨by simp, List.Pairwise.nil⟩

/-- Some of the lines of a text are lines in the order of a text. -/
theorem IsLines.sublist {ls ks : List (List Char)} (h : IsLines ls) (hk : ks.Sublist ls) :
    IsLines ks :=
  ⟨fun l hl => h.line l (hk.subset hl), h.ended.sublist hk⟩

/-- Lines that all have their line ends can be put in front of any lines. -/
theorem IsLines.append {ks ls : List (List Char)} (hk : IsLines ks) (hl : IsLines ls)
    (hend : ∀ k ∈ ks, ['\n'] <:+ k) : IsLines (ks ++ ls) := by
  refine ⟨?_, List.pairwise_append.mpr ⟨hk.ended, hl.ended, fun k hk' _ _ => hend k hk'⟩⟩
  intro l h
  obtain h | h := List.mem_append.mp h
  · exact hk.line l h
  · exact hl.line l h

/-- The lines of a text are lines in the order of a text. -/
theorem isLines_lines (s : List Char) : IsLines (lines s) := by
  induction s using line_induction with
  | last a ha =>
    by_cases hne : a = []
    · simpa [hne] using isLines_nil
    · rw [lines_of_notMem ha hne, isLines_cons]
      exact ⟨isLine_of_notMem ha hne, by simp, isLines_nil⟩
  | line a b ha ih =>
    rw [lines_append_newline ha, isLines_cons]
    exact ⟨isLine_append_newline ha, fun _ => List.suffix_append a ['\n'], ih⟩

/-- **Lines are the lines of the text that they make.** -/
theorem lines_flatten {ls : List (List Char)} (h : IsLines ls) : lines ls.flatten = ls := by
  induction ls with
  | nil => simp
  | cons l ls ih =>
    obtain ⟨hl, hend, hls⟩ := isLines_cons.mp h
    by_cases hn : ['\n'] <:+ l
    · obtain ⟨a, rfl, ha⟩ := hl.eq_append_newline hn
      rw [List.flatten_cons, List.append_assoc, List.singleton_append, lines_append_newline ha,
        ih hls]
    -- a line without a line end is the last one
    · obtain rfl : ls = [] := by
        by_contra hne
        exact hn (hend hne)
      simpa using lines_of_notMem (hl.notMem hn) hl.1

/-- A text ends where a line ends if and only if all its lines have their line ends. -/
theorem endsLine_iff {s : List Char} : EndsLine s ↔ ∀ l ∈ lines s, ['\n'] <:+ l := by
  induction s using line_induction with
  | last a ha =>
    by_cases hne : a = []
    · simp [hne, EndsLine]
    · simp only [lines_of_notMem ha hne, List.mem_singleton, forall_eq, EndsLine, hne, false_or]
  | line a b ha ih =>
    rw [lines_append_newline ha]
    simp only [List.mem_cons, forall_eq_or_imp, List.suffix_append, true_and, ← ih]
    obtain rfl | hb := eq_or_ne b []
    · simp [EndsLine]
    · -- the last character is that of what comes behind the first line end
      have hlast : (a ++ '\n' :: b).getLast? = b.getLast? := by
        rw [List.getLast?_append_of_ne_nil a (List.cons_ne_nil _ b),
          List.getLast?_cons_of_ne_nil hb]
      simp [EndsLine, hb, List.singleton_suffix_iff_getLast?_eq_some, hlast]

/-- Where a text ends a line, what stands at its end does. -/
theorem EndsLine.of_append {a b : List Char} (h : EndsLine (a ++ b)) : EndsLine b := by
  obtain rfl | hb := eq_or_ne b []
  · exact .inl rfl
  · have hsuffix : ['\n'] <:+ a ++ b :=
      h.resolve_left fun hnil => hb (List.append_eq_nil_iff.mp hnil).2
    exact .inr (List.suffix_of_suffix_length_le hsuffix (List.suffix_append a b)
      (List.length_pos_iff.mpr hb))

/-- With a line end behind it every text ends a line. -/
theorem endsLine_append_newline (s : List Char) : EndsLine (s ++ ['\n']) :=
  .inr (List.suffix_append s ['\n'])

end Timetable.Text
