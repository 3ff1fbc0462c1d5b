/-!
Patterns that a text begins with.

A pattern is the function from a text to what may remain behind a beginning that
fits it. There may be several such rests; they come in order of preference, and
a repetition prefers to take as much as it can. A pattern followed by another
tries the rests of the first in their order, so the first rest of a composed
pattern is the one that a reader who always prefers the longer repetition finds.
-/

set_option autoImplicit false

namespace Timetable.Text

/-- What may remain of a text behind a beginning that fits, the preferred rest first. -/
abbrev Pattern := List Char → List (List Char)

namespace Pattern

/-- Fits a given word. -/
def word (w : List Char) : Pattern := fun s => (w.isPrefixOf? s).toList

/-- Fits one character of a class. -/
def one (p : Char → Bool) : Pattern
  | [] => []
  | c :: t => if p c then [t] else []

/-- Puts in front of `found` what remains behind each longer stretch of a class. -/
def stretches (p : Char → Bool) (found : List (List Char)) : List Char → List (List Char)
  | [] => found
  | c :: t => if p c then stretches p (t :: found) t else found

/-- Fits one or more characters of a class, and prefers more. -/
def many (p : Char → Bool) : Pattern := stretches p []

/-- Fits a beginning that fits `a` and then `b`. -/
def andThen (a b : Pattern) : Pattern := fun s => (a s).flatMap b

/-- Fits what `a` fits, or else what `b` fits. -/
def orElse (a b : Pattern) : Pattern := fun s => a s ++ b s

/-- Fits what `a` fits, or else nothing at all. -/
def optional (a : Pattern) : Pattern := fun s => a s ++ [s]

/-- Fits no beginning. -/
def fail : Pattern := fun _ => []

instance : AndThen Pattern := ⟨fun a b => a.andThen (b ())⟩

instance : OrElse Pattern := ⟨fun a b => a.orElse (b ())⟩

/-- What a pattern leaves of a text, for each way to make one: a word leaves the rest behind it, -/
theorem mem_word {w s r : List Char} : r ∈ word w s ↔ s = w ++ r := by
  rw [word, Option.mem_toList]
  -- character by character, along the word
  induction w generalizing s with
  | nil =>
    have hnil : [].isPrefixOf? s = some s := rfl
    simp [hnil]
  | cons c w ih =>
    cases s with
    | nil =>
      have hnone : (c :: w).isPrefixOf? [] = none := rfl
      simp [hnone]
    | cons d s =>
      have hcons : (c :: w).isPrefixOf? (d :: s) =
        if c == d then w.isPrefixOf? s else none := rfl
      rw [hcons]
      simp only [List.cons_append, List.cons.injEq]
      split
      · next h => rw [ih]; simp [beq_iff_eq.mp h]
      · next h => simp [Ne.symm (by simpa using h)]

/-- a character of a class leaves the rest behind it, -/
theorem mem_one {p : Char → Bool} {s r : List Char} :
    r ∈ one p s ↔ ∃ c, p c = true ∧ s = c :: r := by
  cases s with
  | nil => simp [one]
  | cons c t =>
    simp only [one]
    split
    · next h =>
      constructor
      · intro hr; exact ⟨c, h, by rw [List.mem_singleton.mp hr]⟩
      · rintro ⟨d, _, hd⟩; simp [(List.cons.inj hd).2]
    · next h =>
      constructor
      · intro hr; cases hr
      · rintro ⟨d, hp, hd⟩; exact absurd ((List.cons.inj hd).1 ▸ hp) h

/-- the stretches of a class leave what is behind one of them, in addition to what was found
before, -/
theorem mem_stretches {p : Char → Bool} {found : List (List Char)} {s r : List Char} :
    r ∈ stretches p found s ↔
      r ∈ found ∨ ∃ w, w ≠ [] ∧ (∀ c ∈ w, p c = true) ∧ s = w ++ r := by
  -- each character of the class makes the stretch longer by one, and the first other one ends it
  induction s generalizing found with
  | nil => simp +contextual [stretches]
  | cons c t ih =>
    simp only [stretches]
    split
    · next h =>
      rw [ih, List.mem_cons]
      constructor
      · rintro ((rfl | hr) | ⟨w, hw, hp, rfl⟩)
        · exact .inr ⟨[c], by simp, by simpa using h, rfl⟩
        · exact .inl hr
        · exact .inr ⟨c :: w, by simp, by simpa [h] using hp, rfl⟩
      · rintro (hr | ⟨w, hw, hp, hs⟩)
        · exact .inl (.inr hr)
        · cases w with
          | nil => exact absurd rfl hw
          | cons d w =>
            obtain ⟨rfl, rfl⟩ := List.cons.inj hs
            cases w with
            | nil => exact .inl (.inl rfl)
            | cons e w =>
              exact .inr ⟨e :: w, by simp, fun x hx => hp x (List.mem_cons_of_mem _ hx), rfl⟩
    · next h =>
      constructor
      · exact .inl
      · rintro (hr | ⟨w, hw, hp, hs⟩)
        · exact hr
        · cases w with
          | nil => exact absurd rfl hw
          | cons d w => exact absurd ((List.cons.inj hs).1 ▸ hp d (by simp)) h

/-- A repetition fits exactly the nonempty beginnings within its class. -/
theorem mem_many {p : Char → Bool} {s r : List Char} :
    r ∈ many p s ↔ ∃ w, w ≠ [] ∧ (∀ c ∈ w, p c = true) ∧ s = w ++ r := by
  simp [many, mem_stretches]

/-- a sequence leaves what the second pattern leaves of some rest of the first, -/
theorem mem_andThen {a b : Pattern} {s r : List Char} :
    r ∈ a.andThen b s ↔ ∃ t ∈ a s, r ∈ b t :=
  List.mem_flatMap

/-- a choice leaves what either of the two does, -/
theorem mem_orElse {a b : Pattern} {s r : List Char} :
    r ∈ a.orElse b s ↔ r ∈ a s ∨ r ∈ b s :=
  List.mem_append

/-- and an optional pattern can leave the whole text. -/
theorem mem_optional {a : Pattern} {s r : List Char} :
    r ∈ a.optional s ↔ r ∈ a s ∨ r = s := by
  simp [optional]

end Pattern

end Timetable.Text
