import Timetable.Proofs.Expression.Grammar

/-!
Texts and what they mean.

A text means an event in one of two ways: it is a keyword in any letter case, or
an expression is written in it. No text is both, because the name of a keyword has
no hyphen and no colon, and it is no list of days either.
-/

set_option autoImplicit false

namespace Timetable

open Text Expression

namespace Expression

/-! ## The event of an expression and its items -/

/-- The event of an expression, told by the items of its lists: a component with a list has the
numbers of its items inserted, and a component without a list keeps what the expression leaves
out. -/
structure Describes (x : Expression) (items : Component → List Item) (e : Event) : Prop where
  lists : ∀ c : Component, ∀ l ∈ x.list? c, c.Lists l (items c)
  accepts : ∀ c : Component, ∀ l ∈ x.list? c, ∀ i ∈ items c, c.Accepts i
  get_eq : ∀ c : Component, ∀ l ∈ x.list? c,
    e.get c = Selection.inserted c.domain ((items c).flatMap c.numbers)
  get_unwritten : ∀ c : Component, x.list? c = none → e.get c = c.unwritten

section Describes

variable {x : Expression} {items : Component → List Item} {e : Event}

/-- What an expression describes is what its lists fill in, part by part. -/
theorem Describes.fills (h : x.Describes items e) (c : Component) :
    c.Fills (x.list? c) (e.get c) := by
  cases hl : x.list? c with
  | none => exact h.get_unwritten c hl
  | some l => exact ⟨items c, h.lists c l hl, h.accepts c l hl, h.get_eq c l hl⟩

/-- The components of an event are filled if and only if the expression describes it with some
items. -/
theorem exists_describes_iff : (∃ items, x.Describes items e) ↔
    ∀ c : Component, c.Fills (x.list? c) (e.get c) := by
  constructor
  · rintro ⟨items, h⟩
    exact h.fills
  · intro h
    -- the items are chosen for all parts at once, so each part needs some on its own
    have hitems : ∀ c : Component, ∃ items, ∀ l ∈ x.list? c, c.Lists l items ∧
        (∀ i ∈ items, c.Accepts i) ∧
          e.get c = Selection.inserted c.domain (items.flatMap c.numbers) := by
      intro c
      have hfills := h c
      cases hl : x.list? c with
      | none => exact ⟨[], by simp⟩
      | some l =>
        rw [hl] at hfills
        obtain ⟨items, hlists, haccepts, heq⟩ := hfills
        exact ⟨items, fun l' hl' => Option.some.inj hl' ▸ ⟨hlists, haccepts, heq⟩⟩
    choose items hall using hitems
    refine ⟨items, fun c l hl => (hall c l hl).1, fun c l hl => (hall c l hl).2.1,
      fun c l hl => (hall c l hl).2.2, fun c hnone => ?_⟩
    have hfills := h c
    rwa [hnone] at hfills

/-- Lists whose items are all accepted describe an event. -/
theorem exists_describes (hlists : ∀ c : Component, ∀ l ∈ x.list? c, c.Lists l (items c))
    (haccepts : ∀ c : Component, ∀ l ∈ x.list? c, ∀ i ∈ items c, c.Accepts i) :
    ∃ e, x.Describes items e := by
  -- what is written is inserted, and what is not has its default
  let s (c : Component) : Selection c.domain :=
    if (x.list? c).isSome then Selection.inserted c.domain ((items c).flatMap c.numbers)
    else c.unwritten
  let e : Event := ⟨s .weekday, s .year, s .month, s .day, s .hour, s .minute, s .second⟩
  have hget : ∀ c, e.get c = s c := by
    intro c
    cases c <;> rfl
  refine ⟨e, hlists, haccepts, fun c l hl => ?_, fun c hnone => ?_⟩
  · rw [hget]
    simp [s, Option.mem_def.mp hl]
  · rw [hget]
    simp [s, hnone]

/-- The numbers that an accepted list inserts are in the domain. -/
theorem Describes.holds (h : x.Describes items e) {c : Component} {l : List Char}
    (hl : l ∈ x.list? c) : ∀ n ∈ (items c).flatMap c.numbers, c.domain.holds n = true := by
  intro n hn
  obtain ⟨i, hi, hn⟩ := List.mem_flatMap.mp hn
  exact (h.accepts c l hl i hi).holds hn

end Describes

/-! ## Expressions in a text -/

/-- An expression is written in a text: its words are the words of the text, and no list is
empty. -/
structure WrittenIn (x : Expression) (text : String) : Prop where
  parts_ne_nil : x.parts ≠ []
  year : x.monthDay = none → x.year = none
  second : x.hourMinute = none → x.second = none
  list_ne_nil : ∀ c : Component, ∀ l ∈ x.list? c, l ≠ []
  spaced : Spaced text.toList x.parts

/-- An expression that is written in a text has the form that is read, -/
theorem WrittenIn.isFormed {x : Expression} {text : String} (hx : x.WrittenIn text)
    {items : Component → List Item}
    (hlists : ∀ c : Component, ∀ l ∈ x.list? c, c.Lists l (items c)) : x.IsFormed :=
  ⟨hx.parts_ne_nil, hx.year, hx.second,
    fun c l hl => ⟨hx.list_ne_nil c l hl, fun _ h => (hlists c l hl).isListChar h⟩⟩

/-- and one of this form is written in every text that has its words. -/
theorem IsFormed.writtenIn {x : Expression} {text : String} (hx : x.IsFormed)
    (hspaced : Spaced text.toList x.parts) : x.WrittenIn text :=
  ⟨hx.parts_ne_nil, hx.year, hx.second, fun c l hl => (hx.lists c l hl).ne_nil, hspaced⟩

end Expression

/-! ## Keywords -/

namespace Keyword

/-- A keyword is the only word of a text, in any letter case. -/
def WrittenIn (k : Keyword) (text : String) : Prop :=
  ∃ w, Spaced text.toList [w] ∧ w.map lowerLetter = k.name.toList

/-- The name of a keyword is the keyword's alone. -/
theorem ofName?_eq_some_iff {s : String} {k : Keyword} : ofName? s = some k ↔ s = k.name := by
  constructor
  · intro h
    have hname := List.find?_some h
    exact (beq_iff_eq.mp hname).symm
  · rintro rfl
    cases k <;> decide

/-- The name of a keyword is no list of days of the week. -/
theorem readList_name (k : Keyword) (items : List Item) :
    Item.readList (numberWeekdays k.name.toList) ≠ .ok items := by
  have hall : ∀ k : Keyword, (Item.readList (numberWeekdays k.name.toList)).isOk = false := by
    intro k
    cases k <;> decide
  intro h
  have hk := hall k
  rw [h] at hk
  exact Bool.noConfusion hk

end Keyword

/-- An expression whose lists can be read is not written as a keyword. -/
theorem Expression.WrittenIn.not_keyword {x : Expression} {text : String} (hx : x.WrittenIn text)
    {items : Component → List Item}
    (hlists : ∀ c : Component, ∀ l ∈ x.list? c, c.Lists l (items c)) (k : Keyword) :
    ¬ k.WrittenIn text := by
  rintro ⟨w, hw, hk⟩
  have hparts : x.parts = [w] := hx.spaced.words_eq.symm.trans hw.words_eq
  have hletters : ∀ k : Keyword, '-' ∉ k.name.toList ∧ ':' ∉ k.name.toList := by
    intro k
    cases k <;> decide
  have hyphen : '-' ∉ w := fun h => (hletters k).1 (hk ▸ List.mem_map_of_mem (f := lowerLetter) h)
  have hcolon : ':' ∉ w := fun h => (hletters k).2 (hk ▸ List.mem_map_of_mem (f := lowerLetter) h)
  have hmem : w ∈ x.parts := by simp [hparts]
  simp only [parts, List.mem_append, Option.mem_toList] at hmem
  -- the one word would be days of the week, which are other names, or a date or a time, which have
  -- marks
  obtain (hweekday | hdate) | htime := hmem
  · have hitems := hlists .weekday w hweekday
    have hchars : ∀ c ∈ w, isWeekdayChar c = true := fun _ hc => hitems.isListChar hc
    have hlower : w.map Char.toLower = k.name.toList := by
      rw [← hk]
      refine List.map_congr_left fun c hc => ?_
      have hkelvin : c ≠ '\u212A' := by
        rintro rfl
        exact absurd (hchars _ hc) (by decide)
      simp [lowerLetter, hkelvin]
    have hname : k.name.toList.map Char.toLower = k.name.toList := by
      cases k <;> decide
    have hsame : numberWeekdays w = numberWeekdays k.name.toList := by
      rw [numberWeekdays, numberWeekdays, hlower, hname]
    exact k.readList_name _ (hsame ▸ (Component.lists_weekday_iff hchars).mp hitems)
  · obtain ⟨⟨m, d⟩, -, rfl⟩ := Option.map_eq_some_iff.mp hdate
    exact hyphen (mem_dateWord _ _ _)
  · obtain ⟨⟨h, m⟩, -, rfl⟩ := Option.map_eq_some_iff.mp htime
    exact hcolon (mem_timeWord _ _ _)

/-! ## Reading a text -/

namespace Event

/-- Words are read as the expression that they are, if its event is there. -/
theorem read_eq_ok_iff {text : String} {ws : List (List Char)} {e : Event} :
    parse.read text ws = .ok e ↔ ∃ x, ofWords? ws = some x ∧ x.event = .ok e := by
  rw [parse.read]
  split
  · next h => simp [h]
  · next x h =>
    simp only [h, Option.some.injEq, exists_eq_left']
    split
    · next e' h => simp [h]
    · next h => simp [h]

/-- **What a text means.** A text is read if and only if it is a keyword or an expression is written
in it, and then as the event of the keyword or the one that the expression describes. -/
theorem parse_eq_ok_iff {text : String} {e : Event} : parse text = .ok e ↔
    (∃ k : Keyword, k.WrittenIn text ∧ e = k.event) ∨
      ∃ (x : Expression) (items : Component → List Item),
        x.WrittenIn text ∧ x.Describes items e := by
  -- an expression is found in the words if and only if it is written in the text
  have hexpr : (∃ x, ofWords? (words text.toList) = some x ∧ x.event = .ok e) ↔
      ∃ (x : Expression) (items : Component → List Item),
        x.WrittenIn text ∧ x.Describes items e := by
    constructor
    · rintro ⟨x, hx, he⟩
      obtain ⟨hformed, hwords⟩ := ofWords?_eq_some_iff.mp hx
      obtain ⟨items, hitems⟩ := exists_describes_iff.mpr ((event_eq_ok_iff hformed).mp he)
      exact ⟨x, items, hformed.writtenIn (words_eq_iff.mp hwords), hitems⟩
    · rintro ⟨x, items, hx, hitems⟩
      have hformed := hx.isFormed hitems.lists
      exact ⟨x, ofWords?_eq_some_iff.mpr ⟨hformed, hx.spaced.words_eq⟩,
        (event_eq_ok_iff hformed).mpr hitems.fills⟩
  have hkeyword : ∀ k : Keyword, k.WrittenIn text ↔
      ∃ w, words text.toList = [w] ∧
        Keyword.ofName? (String.ofList (w.map lowerLetter)) = some k := by
    intro k
    simp only [Keyword.WrittenIn, ← words_eq_iff, Keyword.ofName?_eq_some_iff, String.ext_iff,
      String.toList_ofList]
  have hone : ∀ w, words text.toList = [w] → ∀ k, k.WrittenIn text ↔
      Keyword.ofName? (String.ofList (w.map lowerLetter)) = some k := by
    intro w hw k
    simp [hkeyword, hw]
  rcases hws : words text.toList with _ | ⟨w, _ | ⟨v, ws⟩⟩
  · -- there is nothing to read in a text of blanks
    have herror : parse text = .error .empty := by rw [parse, hws]
    rw [herror, ← hexpr]
    simp [hkeyword, hws, ofWords?]
  · cases hk : Keyword.ofName? (String.ofList (w.map lowerLetter)) with
    | some k =>
      have hparse : parse text = .ok k.event := by
        rw [parse, hws]
        simp only [hk]
      have hwritten : k.WrittenIn text := (hone w hws k).mpr hk
      rw [hparse]
      constructor
      · intro h
        exact .inl ⟨k, hwritten, (Except.ok.inj h).symm⟩
      · rintro (⟨k', hk', rfl⟩ | ⟨x, items, hx, hitems⟩)
        · rw [hone w hws, hk] at hk'
          rw [Option.some.inj hk']
        · exact absurd hwritten (hx.not_keyword hitems.lists k)
    | none =>
      have hparse : parse text = parse.read text [w] := by
        rw [parse, hws]
        simp only [hk]
      rw [hparse, read_eq_ok_iff, ← hws, hexpr]
      simp [hone w hws, hk]
  · have hparse : parse text = parse.read text (w :: v :: ws) := by rw [parse, hws]
    rw [hparse, read_eq_ok_iff, ← hws, hexpr]
    simp [hkeyword, hws]

end Event

end Timetable
