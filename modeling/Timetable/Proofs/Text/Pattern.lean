import Mathlib.Computability.Language
import Timetable.Text.Pattern

/-!
What a pattern fits, as a language.

A pattern is a function to rests, in an order of preference. Which beginnings it
fits does not depend on that order: it is a language. Patterns that follow each
other fit the product of their languages, alternatives fit the sum, and so the
language of a composed pattern can be read off it. A rest is then what stands
behind a word of the language, and a text fits as a whole if it is one.
-/

set_option autoImplicit false

namespace Timetable.Text.Pattern

/-- The rests of a pattern are what stands behind the words of a language. -/
def Fits (p : Pattern) (L : Language Char) : Prop :=
  ∀ s r, r ∈ p s ↔ ∃ w ∈ L, s = w ++ r

variable {a b : Pattern} {L M : Language Char}

theorem fits_word (w : List Char) : (word w).Fits {w} := by
  intro s r
  rw [mem_word]
  exact ⟨fun h => ⟨w, rfl, h⟩, fun ⟨_, hw, h⟩ => hw ▸ h⟩

theorem fits_one (p : Char → Bool) : (one p).Fits {w | ∃ c, p c = true ∧ w = [c]} := by
  intro s r
  rw [mem_one]
  constructor
  · rintro ⟨c, hc, rfl⟩
    exact ⟨[c], ⟨c, hc, rfl⟩, rfl⟩
  · rintro ⟨_, ⟨c, hc, rfl⟩, rfl⟩
    exact ⟨c, hc, rfl⟩

theorem fits_many (p : Char → Bool) :
    (many p).Fits {w | w ≠ [] ∧ ∀ c ∈ w, p c = true} := by
  intro s r
  rw [mem_many]
  exact ⟨fun ⟨w, hne, hp, h⟩ => ⟨w, ⟨hne, hp⟩, h⟩, fun ⟨w, ⟨hne, hp⟩, h⟩ => ⟨w, hne, hp, h⟩⟩

/-- Patterns that follow each other fit the product. -/
theorem Fits.andThen (ha : a.Fits L) (hb : b.Fits M) : (a >> b).Fits (L * M) := by
  intro s r
  refine Iff.trans (mem_andThen (a := a) (b := b)) ?_
  constructor
  · rintro ⟨t, ht, hr⟩
    -- the rest of the first pattern is where the second one begins
    obtain ⟨u, hu, rfl⟩ := (ha s t).mp ht
    obtain ⟨v, hv, rfl⟩ := (hb t r).mp hr
    exact ⟨u ++ v, Language.append_mem_mul hu hv, by simp⟩
  · rintro ⟨w, hw, rfl⟩
    obtain ⟨u, hu, v, hv, rfl⟩ := Language.mem_mul.mp hw
    exact ⟨v ++ r, (ha _ _).mpr ⟨u, hu, by simp⟩, (hb _ _).mpr ⟨v, hv, rfl⟩⟩

/-- Alternatives fit the sum. -/
theorem Fits.orElse (ha : a.Fits L) (hb : b.Fits M) : (a <|> b).Fits (L + M) := by
  intro s r
  refine Iff.trans (mem_orElse (a := a) (b := b)) ?_
  rw [ha s r, hb s r]
  constructor
  · rintro (⟨w, hw, h⟩ | ⟨w, hw, h⟩)
    · exact ⟨w, (Language.mem_add L M w).mpr (.inl hw), h⟩
    · exact ⟨w, (Language.mem_add L M w).mpr (.inr hw), h⟩
  · rintro ⟨w, hw, h⟩
    obtain hw | hw := (Language.mem_add L M w).mp hw
    · exact .inl ⟨w, hw, h⟩
    · exact .inr ⟨w, hw, h⟩

/-- What may be left out fits the words of the language and the empty one. -/
theorem Fits.optional (ha : a.Fits L) : a.optional.Fits (L + 1) := by
  intro s r
  rw [mem_optional, ha s r]
  constructor
  · rintro (⟨w, hw, h⟩ | rfl)
    · exact ⟨w, (Language.mem_add L 1 w).mpr (.inl hw), h⟩
    · exact ⟨[], (Language.mem_add L 1 []).mpr (.inr rfl), rfl⟩
  · rintro ⟨w, hw, h⟩
    obtain hw | hw := (Language.mem_add L 1 w).mp hw
    · exact .inl ⟨w, hw, h⟩
    · obtain rfl := (Language.mem_one w).mp hw
      exact .inr h.symm

end Timetable.Text.Pattern
