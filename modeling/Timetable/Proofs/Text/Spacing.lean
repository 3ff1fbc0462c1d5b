import Mathlib.Data.List.TakeWhile
import Timetable.Proofs.Text.Blank

/-!
Texts of words with blanks between them.

How many blanks stand around the words of a text, and which ones, does not matter
as long as two words do not run together. The relation says so without a reader,
and splitting a text at its blanks is the function that belongs to it: a text has
exactly the words of which it is made. Words that are written with one blank
between any two of them are such a text. If the blanks around the words are trimmed,
what is left is the words and the blanks between them.
-/

set_option autoImplicit false

namespace Timetable.Text

/-- A text made of some words in this order. Blanks stand anywhere between the words and around
them, and behind a word stands a blank or nothing. -/
inductive Spaced : List Char → List (List Char) → Prop where
  | nil : Spaced [] []
  | blank {c : Char} {s : List Char} {ws : List (List Char)} :
    isBlank c = true → Spaced s ws → Spaced (c :: s) ws
  | word {w s : List Char} {ws : List (List Char)} :
    IsMadeOf (!isBlank ·) w → (∀ c ∈ s.head?, isBlank c = true) → Spaced s ws →
      Spaced (w ++ s) (w :: ws)

/-- The empty text has no words. -/
theorem words_nil : words [] = [] :=
  rfl

/-- A blank in front of a text changes none of its words. -/
theorem words_cons_of_isBlank {c : Char} (hc : isBlank c = true) (s : List Char) :
    words (c :: s) = words s := by
  have hsplit := List.splitOnP_append_cons [] s hc
  rw [List.nil_append] at hsplit
  simp [words, hsplit]

/-- The first word of a text goes up to the first blank, or up to the end. -/
theorem words_append {w s : List Char} (hw : IsMadeOf (!isBlank ·) w)
    (hs : ∀ c ∈ s.head?, isBlank c = true) : words (w ++ s) = w :: words s := by
  have hfree : ∀ c ∈ w, isBlank c = false := fun c hc => by simpa using hw.all c hc
  cases s with
  | nil => rw [List.append_nil, words_of_blankFree hw.ne_nil hfree, words_nil]
  | cons c s =>
    have hc : isBlank c = true := hs c (by simp)
    have hsplit : w.splitOnP isBlank = [w] := List.splitOnP_eq_singleton hfree
    rw [words_cons_of_isBlank hc, words, List.splitOnP_append_cons w s hc, hsplit]
    simp [words, hw.ne_nil]

/-- The words of a text are the ones between which it is spaced, so there is one way only to space
it. -/
theorem Spaced.words_eq {s : List Char} {ws : List (List Char)} (h : Spaced s ws) :
    words s = ws := by
  induction h with
  | nil => exact words_nil
  | blank hc _ ih => rw [words_cons_of_isBlank hc, ih]
  | word hw hs _ ih => rw [words_append hw hs, ih]

/-- A text is made of its words. The induction goes word by word, over the length of what is left
behind the blanks or the word in front. -/
theorem spaced_words (s : List Char) : Spaced s (words s) := by
  -- after a blank, or after the whole first word, a shorter text is left
  induction hlength : s.length using Nat.strongRecOn generalizing s with
  | ind n ih =>
    cases s with
    | nil => exact .nil
    | cons c t =>
      by_cases hc : isBlank c = true
      · rw [words_cons_of_isBlank hc]
        exact .blank hc (ih t.length (by simp [← hlength]) t rfl)
      · let w := t.takeWhile (!isBlank ·)
        let r := t.dropWhile (!isBlank ·)
        have hsplit : c :: t = (c :: w) ++ r := by
          rw [List.cons_append, List.takeWhile_append_dropWhile]
        have hw : IsMadeOf (!isBlank ·) (c :: w) := by
          refine ⟨List.cons_ne_nil c w, fun x hx => ?_⟩
          obtain rfl | hx := List.mem_cons.mp hx
          · simpa using hc
          · exact List.all_eq_true.mp List.all_takeWhile x hx
        have hr : ∀ x ∈ r.head?, isBlank x = true := by
          intro x hx
          have hstop := List.head?_dropWhile_not (!isBlank ·) t
          rw [Option.mem_def.mp hx] at hstop
          simpa using hstop
        rw [hsplit, words_append hw hr]
        refine .word hw hr (ih r.length ?_ r rfl)
        have hle : r.length ≤ t.length := (List.dropWhile_suffix _).length_le
        simp only [List.length_cons] at hlength
        omega

/-- **The words of a text** are those of which it is made, and no others. -/
theorem words_eq_iff {s : List Char} {ws : List (List Char)} : words s = ws ↔ Spaced s ws := by
  constructor
  · rintro rfl
    exact spaced_words s
  · exact Spaced.words_eq

/-- Words are the words of the text that has a blank between any two of them. -/
theorem spaced_intercalate {ws : List (List Char)} (h : ∀ w ∈ ws, IsMadeOf (!isBlank ·) w) :
    Spaced ([' '].intercalate ws) ws := by
  induction ws with
  | nil => exact .nil
  | cons w ws ih =>
    have hw : IsMadeOf (!isBlank ·) w := h w (by simp)
    have hws := ih fun v hv => h v (by simp [hv])
    cases ws with
    | nil => simpa using Spaced.word hw (by simp) .nil
    | cons v ws =>
      rw [List.intercalate_cons_cons, List.append_assoc]
      exact .word hw (by simp [isBlank]) (.blank (by decide) hws)

/-! ## Trimmed texts -/

/-- A text with no blank at either end. -/
structure IsTrimmed (s : List Char) : Prop where
  head : ∀ c ∈ s.head?, isBlank c = false
  last : ∀ c ∈ s.getLast?, isBlank c = false

/-- The empty text is trimmed. -/
theorem isTrimmed_nil : IsTrimmed [] :=
  ⟨by simp, by simp⟩

/-- So is a character that is no blank. -/
theorem isTrimmed_singleton {c : Char} (hc : isBlank c = false) : IsTrimmed [c] :=
  ⟨by simpa using hc, by simpa using hc⟩

namespace IsTrimmed

variable {s t : List Char}

/-- Trimming leaves a trimmed text as it is. -/
theorem trim_eq (h : IsTrimmed s) : trim s = s := by
  by_cases hne : s = []
  · rw [hne]
    rfl
  · have hhead : s.head? = some (s.head hne) := List.head?_eq_some_head hne
    have hlast : s.getLast? = some (s.getLast hne) := List.getLast?_eq_some_getLast hne
    exact trim_eq_self (h.head _ hhead) (h.last _ hlast)
      ⟨s.tail, List.cons_head_tail hne⟩ ⟨s.dropLast, List.dropLast_append_getLast hne⟩

/-- Trimmed texts stay trimmed with a character between them that is no blank. -/
theorem append_cons (hs : IsTrimmed s) {c : Char} (hc : isBlank c = false) (ht : IsTrimmed t) :
    IsTrimmed (s ++ c :: t) := by
  constructor
  · intro d hd
    -- what begins the text is the character if nothing is before it
    cases s with
    | nil =>
      obtain rfl : c = d := by simpa using hd
      exact hc
    | cons b s => exact hs.head d hd
  · intro d hd
    rw [List.getLast?_append_of_ne_nil s (List.cons_ne_nil c t), List.getLast?_cons] at hd
    -- and it ends the text if nothing is behind it
    cases hlast : t.getLast? with
    | none =>
      obtain rfl : c = d := by simpa [hlast] using hd
      exact hc
    | some b =>
      obtain rfl : b = d := by simpa [hlast] using hd
      exact ht.last b hlast

end IsTrimmed

/-- Blanks in front of a text are trimmed. -/
theorem trim_append_of_blank {a : List Char} (ha : ∀ c ∈ a, isBlank c = true) (s : List Char) :
    trim (a ++ s) = trim s := by
  have hstart : trimStart (a ++ s) = trimStart s := List.dropWhile_append_of_pos ha
  rw [trim, hstart, trim]

/-- Blanks around a trimmed text are trimmed. -/
theorem IsTrimmed.trim_append {s : List Char} (hs : IsTrimmed s) {a b : List Char}
    (ha : ∀ c ∈ a, isBlank c = true) (hb : ∀ c ∈ b, isBlank c = true) :
    trim (a ++ (s ++ b)) = s := by
  -- the blanks behind go first, and then there are only those in front
  have hend : trimEnd (s ++ b) = trimEnd s := by
    rw [trimEnd, List.reverse_append, List.dropWhile_append_of_pos (by simpa using hb)]
    rfl
  rw [trim_append_of_blank ha]
  cases s with
  | nil =>
    rw [List.nil_append, trim, trimStart, List.dropWhile_eq_nil_iff.mpr hb]
    rfl
  | cons c s =>
    have hc : isBlank c = false := hs.head c rfl
    have hkeep : ∀ t, trimStart (c :: t) = c :: t := fun t =>
      List.dropWhile_cons_of_neg (by simp [hc])
    calc trimEnd (trimStart (c :: s ++ b))
        = trimEnd (c :: s ++ b) := by rw [List.cons_append, hkeep]
      _ = trimEnd (c :: s) := hend
      _ = trim (c :: s) := by rw [trim, hkeep]
      _ = c :: s := hs.trim_eq

/-- A text is what is left when it is trimmed, with blanks around it. -/
theorem exists_eq_append_trim (s : List Char) : ∃ a b, (∀ c ∈ a, isBlank c = true) ∧
    (∀ c ∈ b, isBlank c = true) ∧ s = a ++ (trim s ++ b) := by
  refine ⟨s.takeWhile isBlank, ((trimStart s).reverse.takeWhile isBlank).reverse,
    List.all_eq_true.mp List.all_takeWhile, fun c hc => ?_, ?_⟩
  · rw [List.mem_reverse] at hc
    exact List.all_eq_true.mp List.all_takeWhile c hc
  · rw [trim, trimEnd, ← List.reverse_append, List.takeWhile_append_dropWhile, List.reverse_reverse,
      trimStart, List.takeWhile_append_dropWhile]

/-- Nothing is left of a text of blanks. -/
theorem trim_eq_nil_iff {s : List Char} : trim s = [] ↔ ∀ c ∈ s, isBlank c = true := by
  constructor
  · intro h c hc
    obtain ⟨a, b, ha, hb, hs⟩ := exists_eq_append_trim s
    rw [h, List.nil_append] at hs
    rw [hs, List.mem_append] at hc
    rcases hc with hc | hc
    · exact ha c hc
    · exact hb c hc
  · intro h
    rw [← List.append_nil s, trim_append_of_blank h]
    rfl

/-! ## Words with blanks between them -/

/-- A text of words with blanks between any two of them, and with none around them. -/
inductive Joined : List Char → List (List Char) → Prop where
  | one {w : List Char} : IsMadeOf (!isBlank ·) w → Joined w [w]
  | cons {w b t : List Char} {ws : List (List Char)} :
    IsMadeOf (!isBlank ·) w → IsMadeOf isBlank b → Joined t ws → Joined (w ++ (b ++ t)) (w :: ws)

/-- Blanks may be put in front of a spaced text. -/
theorem spaced_blanks {b s : List Char} {ws : List (List Char)} (hb : ∀ c ∈ b, isBlank c = true)
    (h : Spaced s ws) : Spaced (b ++ s) ws := by
  induction b with
  | nil => exact h
  | cons c b ih => exact .blank (hb c (by simp)) (ih fun d hd => hb d (by simp [hd]))

/-- A word has a first character. -/
theorem IsMadeOf.exists_head {p : Char → Bool} {w : List Char} (h : IsMadeOf p w) :
    ∃ c r, p c = true ∧ w = c :: r := by
  obtain ⟨c, r, rfl⟩ := List.exists_cons_of_ne_nil h.ne_nil
  exact ⟨c, r, h.all c (by simp), rfl⟩

namespace Joined

variable {s t : List Char} {ws : List (List Char)}

/-- Words that are joined by blanks are spaced. -/
theorem spaced (h : Joined t ws) : Spaced t ws := by
  induction h with
  | one hw => simpa using Spaced.word hw (by simp) .nil
  | cons hw hb _ ih =>
    refine .word hw (fun c hc => ?_) (spaced_blanks hb.all ih)
    obtain ⟨d, r, hd, rfl⟩ := hb.exists_head
    obtain rfl : d = c := by simpa using hc
    exact hd

/-- Joined words are at least one. -/
theorem ne_nil (h : Joined t ws) : ws ≠ [] := by
  cases h with
  | one => simp
  | cons => simp

/-- A text of words begins with no blank. -/
theorem exists_head (h : Joined t ws) : ∃ c r, isBlank c = false ∧ t = c :: r := by
  have hword : ∀ {w : List Char}, IsMadeOf (!isBlank ·) w →
      ∃ c r, isBlank c = false ∧ w = c :: r := by
    intro w hw
    obtain ⟨c, r, hc, rfl⟩ := hw.exists_head
    exact ⟨c, r, by simpa using hc, rfl⟩
  cases h with
  | one hw => exact hword hw
  | cons hw hb h =>
    obtain ⟨c, r, hc, rfl⟩ := hword hw
    exact ⟨c, _, hc, rfl⟩

/-- A text of words ends with no blank. -/
theorem exists_last (h : Joined t ws) : ∃ r c, isBlank c = false ∧ t = r ++ [c] := by
  induction h with
  | @one w hw =>
    obtain ⟨r, c, rfl⟩ := (List.eq_nil_or_concat' w).resolve_left hw.ne_nil
    have hc := hw.all c (by simp)
    exact ⟨r, c, by simpa using hc, rfl⟩
  | @cons w b t ws hw hb _ ih =>
    obtain ⟨r, c, hc, rfl⟩ := ih
    exact ⟨w ++ (b ++ r), c, hc, by simp only [List.append_assoc]⟩

/-- A text of words has no blank at either end. -/
theorem isTrimmed (h : Joined t ws) : IsTrimmed t := by
  constructor
  · obtain ⟨c, r, hc, rfl⟩ := h.exists_head
    simpa using hc
  · obtain ⟨r, c, hc, rfl⟩ := h.exists_last
    simpa using hc

end Joined

/-- A text has no words, or without the blanks around it it is a text of its words. -/
theorem blank_or_joined {s : List Char} {ws : List (List Char)} (h : Spaced s ws) :
    (ws = [] ∧ ∀ c ∈ s, isBlank c = true) ∨
      ∃ a t b, (∀ c ∈ a, isBlank c = true) ∧ (∀ c ∈ b, isBlank c = true) ∧ Joined t ws ∧
        s = a ++ (t ++ b) := by
  -- along the spacing, from the left
  induction h with
  | nil => exact .inl ⟨rfl, by simp⟩
  | @blank c s ws hc _ ih =>
    obtain ⟨rfl, hs⟩ | ⟨a, t, b, ha, hb, ht, rfl⟩ := ih
    · exact .inl ⟨rfl, List.forall_mem_cons.mpr ⟨hc, hs⟩⟩
    · exact .inr ⟨c :: a, t, b, List.forall_mem_cons.mpr ⟨hc, ha⟩, hb, ht, rfl⟩
  | @word w s ws hw hs _ ih =>
    obtain ⟨rfl, hblank⟩ | ⟨a, t, b, ha, hb, ht, rfl⟩ := ih
    · exact .inr ⟨[], w, s, by simp, hblank, .one hw, rfl⟩
    · -- the words behind do not begin at once
      have hne : a ≠ [] := by
        rintro rfl
        obtain ⟨c, r, hc, rfl⟩ := ht.exists_head
        have hblank := hs c (by simp)
        rw [hc] at hblank
        exact Bool.noConfusion hblank
      exact .inr ⟨[], w ++ (a ++ t), b, by simp, hb, .cons hw ⟨hne, ha⟩ ht, by simp⟩

/-- **A trimmed text** is empty if the text has no words, and a text of its words otherwise. -/
theorem trim_eq_nil_or_joined (s : List Char) :
    (words s = [] ∧ trim s = []) ∨ (words s ≠ [] ∧ Joined (trim s) (words s)) := by
  obtain ⟨hws, hblank⟩ | ⟨a, t, b, ha, hb, ht, hs⟩ := blank_or_joined (spaced_words s)
  · have hstart : trimStart s = [] := List.dropWhile_eq_nil_iff.mpr hblank
    exact .inl ⟨hws, by rw [trim, hstart]; rfl⟩
  · have htrim : trim s = t := hs ▸ ht.isTrimmed.trim_append ha hb
    exact .inr ⟨ht.ne_nil, htrim ▸ ht⟩

/-! ## What is left of a text -/

/-- Trimming takes the blanks at both ends away. -/
theorem isTrimmed_trim (s : List Char) : IsTrimmed (trim s) := by
  rcases trim_eq_nil_or_joined s with ⟨-, h⟩ | ⟨-, h⟩
  · rw [h]
    exact isTrimmed_nil
  · exact h.isTrimmed

/-- What is left of a trimmed text was in it. -/
theorem trim_subset (s : List Char) : trim s ⊆ s := by
  intro c hc
  obtain ⟨a, b, -, -, hs⟩ := exists_eq_append_trim s
  rw [hs]
  exact List.mem_append_right a (List.mem_append_left b hc)

end Timetable.Text
