import Timetable.Proofs.Expression.Weekday
import Timetable.Proofs.Expression.Form

/-!
Letter case and blanks in an expression.

Two texts say the same if they have the same words up to letter case, however many
blanks there are between the words and around them. No reader is needed to say so.
A reader sees the words in lower case only: a keyword is looked up in lower case,
days of the week are numbered in lower case, and the other lists of an expression
have no letters, so a word in them that has one is none of them in either case.
-/

set_option autoImplicit false

namespace Timetable

open Text

/-! ## Texts that differ in letter case and blanks -/

/-- A character in its own or another letter case. -/
def IsCased (c d : Char) : Prop :=
  d = c ∨ d = c.toLower ∨ d = c.toUpper

/-- A text that is made of the words of another one, each letter in its own or another case, with
other blanks around them. -/
def IsRestyled (s t : List Char) : Prop :=
  ∃ ws vs, Spaced s ws ∧ Spaced t vs ∧ List.Forall₂ (List.Forall₂ IsCased) ws vs

/-- Words in lower case. -/
def lowerWords (ws : List (List Char)) : List (List Char) :=
  ws.map (List.map Char.toLower)

/-- Two characters are one letter in two cases if and only if they are the same in lower case. -/
theorem isCased_iff {c d : Char} : IsCased c d ↔ c.toLower = d.toLower := by
  constructor
  · rintro (rfl | rfl | rfl)
    · rfl
    · exact (Char.toLower_toLower_eq_toLower c).symm
    · exact (Char.toLower_toUpper_eq_toLower c).symm
  · intro h
    -- two letters have the same small letter: the second one is capital, or it is small itself
    by_cases hd : d.isUpper = true
    · have hupper : d = c.toUpper := by
        rw [← Char.toUpper_toLower_eq_toUpper, h, Char.toUpper_toLower_eq_toUpper,
          Char.toUpper_eq_of_not_isLower (Char.not_isLower_of_isUpper hd)]
      exact .inr (.inr hupper)
    · rw [Char.toLower_eq_of_not_isUpper hd] at h
      exact .inr (.inl h.symm)

/-- Lists go together entry by entry if a map makes one list of them. -/
theorem forall₂_iff_map_eq {α β : Type} {R : α → α → Prop} {f : α → β}
    (h : ∀ a b, R a b ↔ f a = f b) {as bs : List α} :
    List.Forall₂ R as bs ↔ as.map f = bs.map f := by
  obtain rfl : R = fun a b => f a = f b := funext fun a => funext fun b => propext (h a b)
  rw [← List.forall₂_eq_eq_eq, List.forall₂_map_left_iff, List.forall₂_map_right_iff]

/-- Texts are restyled if and only if their words are the same in lower case. -/
theorem isRestyled_iff {s t : List Char} :
    IsRestyled s t ↔ lowerWords (words s) = lowerWords (words t) := by
  have hletters : ∀ w v, List.Forall₂ IsCased w v ↔ w.map Char.toLower = v.map Char.toLower :=
    fun _ _ => forall₂_iff_map_eq @isCased_iff
  have hwords : ∀ ws vs, List.Forall₂ (List.Forall₂ IsCased) ws vs ↔
      lowerWords ws = lowerWords vs := fun _ _ => forall₂_iff_map_eq hletters
  constructor
  · rintro ⟨ws, vs, hws, hvs, hcased⟩
    rw [hws.words_eq, hvs.words_eq]
    exact (hwords ws vs).mp hcased
  · exact fun h => ⟨_, _, spaced_words s, spaced_words t, (hwords _ _).mpr h⟩

instance (s t : List Char) : Decidable (IsRestyled s t) :=
  decidable_of_iff' _ isRestyled_iff

/-- A capital letter is a letter. -/
theorem isAlpha_of_isUpper {c : Char} (h : c.isUpper = true) : c.isAlpha = true := by
  rw [Char.isAlpha, h, Bool.true_or]

/-! ## Keywords -/

/-- A keyword is looked up without regard to letter case. -/
theorem lowerLetter_toLower (c : Char) : lowerLetter c.toLower = lowerLetter c := by
  -- the Kelvin sign is the one other character whose small letter is an ASCII one
  by_cases hkelvin : c = '\u212A'
  · subst hkelvin
    decide
  · have hlower : c.toLower ≠ '\u212A' := by
      intro h
      by_cases hupper : c.isUpper = true
      · have hletter : c.toLower.isAlpha = true :=
          (Char.isAlpha_toLower_eq_isAlpha c).trans (isAlpha_of_isUpper hupper)
        rw [h] at hletter
        exact absurd hletter (by decide)
      · rw [Char.toLower_eq_of_not_isUpper hupper] at h
        exact hkelvin h
    simp [lowerLetter, hkelvin, hlower]

/-- Making a word small first changes nothing, as `lowerLetter` makes small more than ASCII letters
do. -/
theorem map_lowerLetter_map_toLower (w : List Char) :
    (w.map Char.toLower).map lowerLetter = w.map lowerLetter := by
  rw [List.map_map]
  exact List.map_congr_left fun c _ => lowerLetter_toLower c

namespace Expression

/-! ## The form of an expression in lower case -/

/-- An expression with its days of the week in lower case. Nothing else in it has letters. -/
def lower (x : Expression) : Expression :=
  { x with weekday := x.weekday.map (List.map Char.toLower) }

/-- Units have no letters, so a text has the same units in lower case, or it has none in either. -/
theorem units?_map_toLower {c : Char} (hc : isUnitChar c = false) (hletter : c.isAlpha = false)
    (s : List Char) : units? c (s.map Char.toLower) = units? c s := by
  have hchars : ∀ d, (isUnitChar d || d == c) = true → d.isAlpha = false := by
    intro d hd
    simp only [isUnitChar, Bool.or_eq_true, beq_iff_eq] at hd
    obtain (((hdigit | rfl) | rfl) | rfl) | rfl := hd
    · exact isAlpha_of_isDigit hdigit
    · rfl
    · rfl
    · rfl
    · exact hletter
  have hletters : ∀ {t us}, units? c t = some us → ∀ d ∈ t, d.isAlpha = false :=
    fun hus d hd => hchars d ((isMadeOf_of_units? hc hus).all d hd)
  -- units have no letters, so a word that is split has none either, before and after
  cases hlower : units? c (s.map Char.toLower) with
  | some us => rw [← hlower, map_toLower_of_isAlpha (hletters hlower)]
  | none =>
    refine (Option.eq_none_iff_forall_ne_some.mpr fun us hus => ?_).symm
    have hsame : s.map Char.toLower = s := by
      refine map_toLower_of_isAlpha fun d hd => ?_
      obtain ⟨e, he, rfl⟩ := List.mem_map.mp hd
      rw [Char.isAlpha_toLower_eq_isAlpha, hletters hus e he]
    rw [hsame, hus] at hlower
    cases hlower

variable (x : Expression) (s : List Char)

/-- The three words of an expression are recognized in small letters as they are in others: days of
the week, -/
theorem addWeekday?_lower :
    x.lower.addWeekday? (s.map Char.toLower) = (x.addWeekday? s).map lower := by
  have hchar : ∀ c : Char, isWeekdayChar c.toLower = isWeekdayChar c := by
    intro c
    by_cases hupper : c.isUpper = true
    · have hletter := isAlpha_of_isUpper hupper
      simp [isWeekdayChar, Char.isAlpha_toLower_eq_isAlpha, hletter]
    · rw [Char.toLower_eq_of_not_isUpper hupper]
  have hpart : isWeekdayPart (s.map Char.toLower) = isWeekdayPart s := by
    simp [isWeekdayPart, Function.comp_def, hchar]
  rw [addWeekday?, addWeekday?, hpart]
  split <;> rfl

/-- dates, -/
theorem addDate?_lower : x.lower.addDate? (s.map Char.toLower) = (x.addDate? s).map lower := by
  rw [addDate?, addDate?, units?_map_toLower (by rfl) (by rfl)]
  split <;> rfl

/-- and times of day. -/
theorem addTime?_lower : x.lower.addTime? (s.map Char.toLower) = (x.addTime? s).map lower := by
  rw [addTime?, addTime?, units?_map_toLower (by rfl) (by rfl)]
  split <;> rfl

/-- **Words in lower case are the same expression in lower case.** -/
theorem ofWords?_lowerWords (ws : List (List Char)) :
    ofWords? (lowerWords ws) = (ofWords? ws).map lower := by
  have hweekday : ∀ s, addWeekday? {} (s.map Char.toLower) = (addWeekday? {} s).map lower :=
    addWeekday?_lower {}
  have hdate : ∀ s, addDate? {} (s.map Char.toLower) = (addDate? {} s).map lower :=
    addDate?_lower {}
  have htime : ∀ s, addTime? {} (s.map Char.toLower) = (addTime? {} s).map lower :=
    addTime?_lower {}
  -- by the number of words, as `ofWords?` has them
  rcases ws with _ | ⟨a, _ | ⟨b, _ | ⟨c, _ | ⟨d, r⟩⟩⟩⟩
  · rfl
  · simp only [lowerWords, List.map_cons, List.map_nil, ofWords?, hweekday, hdate, htime,
      Option.map_or]
  · simp only [lowerWords, List.map_cons, List.map_nil, ofWords?, hweekday, hdate]
    cases addWeekday? {} a with
    | none =>
      simp only [Option.map_none]
      cases addDate? {} a with
      | none => rfl
      | some x => exact addTime?_lower x b
    | some x => simp only [Option.map_some, addDate?_lower, addTime?_lower, Option.map_or]
  · simp only [lowerWords, List.map_cons, List.map_nil, ofWords?, hweekday]
    cases addWeekday? {} a with
    | none => rfl
    | some x =>
      simp only [Option.map_some, Option.bind_some, addDate?_lower]
      cases x.addDate? b with
      | none => rfl
      | some y => exact addTime?_lower y c
  · rfl

/-! ## The meaning of an expression in lower case -/

/-- Names are looked for in small letters in any case. -/
theorem numberWeekdays_map_toLower (list : List Char) :
    numberWeekdays (list.map Char.toLower) = numberWeekdays list := by
  have htwice : (list.map Char.toLower).map Char.toLower = list.map Char.toLower := by
    rw [List.map_map]
    exact List.map_congr_left fun c _ => Char.toLower_toLower_eq_toLower c
  rw [numberWeekdays, numberWeekdays, htwice]

/-- **An expression describes what it describes in lower case**, and is refused for the same
reason. -/
theorem event_lower (x : Expression) : x.lower.event = x.event := by
  have hdays : ∀ e, whenWritten insertWeekdays e x.lower.weekday =
      whenWritten insertWeekdays e x.weekday := by
    intro e
    cases hweekday : x.weekday with
    | none => simp [lower, hweekday]
    | some list =>
      simp [lower, hweekday, whenWritten, insertWeekdays, numberWeekdays_map_toLower]
  rw [event, event, hdays]
  rfl

end Expression

/-! ## Reading -/

/-- An error as it is for another text: it shows that text, and its kind and cause stay. -/
def EventError.about (text : String) : EventError → EventError
  | .empty => .empty
  | .unrecognized _ => .unrecognized text
  | .invalid _ cause => .invalid text cause

namespace Event

/-- The text is nothing but what an error shows. -/
theorem read_about (s t : String) (ws : List (List Char)) :
    parse.read t ws = (parse.read s ws).mapError (.about t) := by
  unfold parse.read
  split
  · rfl
  · split <;> rfl

/-- So an expression in small letters is read as the one in others. -/
theorem read_lowerWords (t : String) (ws : List (List Char)) :
    parse.read t (lowerWords ws) = parse.read t ws := by
  unfold parse.read
  rw [Expression.ofWords?_lowerWords]
  cases Expression.ofWords? ws with
  | none => rfl
  | some x => simp only [Option.map_some, Expression.event_lower]

/-- Words that are the same in lower case are read alike. -/
theorem read_congr {ws vs : List (List Char)} (h : lowerWords ws = lowerWords vs) (s t : String) :
    parse.read t vs = (parse.read s ws).mapError (.about t) := by
  rw [← read_lowerWords, ← h, read_lowerWords, read_about s t]

/-- **Letter case and blanks do not matter.** A text that is made of the words of another one, each
letter in its own or another case, is read as the same event, or it is refused with an error of the
same kind and for the same cause. -/
theorem parse_of_isRestyled {s t : String} (h : IsRestyled s.toList t.toList) :
    parse t = (parse s).mapError (.about t) := by
  have hwords := isRestyled_iff.mp h
  unfold parse
  generalize words s.toList = ws at hwords
  generalize words t.toList = vs at hwords
  -- one word may be a keyword; two texts of the same style have the same number of words
  rcases ws with _ | ⟨w, _ | ⟨w', ws⟩⟩ <;> rcases vs with _ | ⟨v, _ | ⟨v', vs⟩⟩
  case nil.nil => rfl
  case cons.nil.cons.nil =>
    have hletters : w.map lowerLetter = v.map lowerLetter := by
      rw [← map_lowerLetter_map_toLower, (List.cons.inj hwords).1, map_lowerLetter_map_toLower]
    simp only [hletters]
    split
    · rfl
    · exact read_congr hwords s t
  case cons.cons.cons.cons => exact read_congr hwords s t
  all_goals simp [lowerWords] at hwords

/-- Days in other letters and a time behind other blanks; a word that is no
day is refused for the same cause. -/
theorem parse_of_isRestyled_weekdays :
    let e : Event :=
      { weekday := .ofList [1, 3, 4, 5], hour := .one 12, minute := .one 30, second := .one 0 }
    IsRestyled "Mon,WED..Fri 12:30".toList "\tmon,wed..FRI \u00a012:30\n".toList ∧
      parse "\tmon,wed..FRI \u00a012:30\n" = .ok e ∧
    IsRestyled "Sunny".toList " SUNNY".toList ∧
      parse " SUNNY" = .error (.invalid " SUNNY" (.invalidToken "07ny" .invalidDigit)) := by
  -- the plain spellings are computed, and the others are restyled
  have hread : parse "Mon,WED..Fri 12:30" = .ok
      { weekday := .ofList [1, 3, 4, 5], hour := .one 12, minute := .one 30,
        second := .one 0 } :=
    rfl
  have hrefused : parse "Sunny" =
      .error (.invalid "Sunny" (.invalidToken "07ny" .invalidDigit)) :=
    rfl
  have hrestyled : IsRestyled "Mon,WED..Fri 12:30".toList
      "\tmon,wed..FRI \u00a012:30\n".toList := by
    decide
  have hrestyled' : IsRestyled "Sunny".toList " SUNNY".toList := by decide
  refine ⟨hrestyled, ?_, hrestyled', ?_⟩
  · rw [parse_of_isRestyled hrestyled, hread]
    rfl
  · rw [parse_of_isRestyled hrestyled', hrefused]
    rfl

end Event

end Timetable
