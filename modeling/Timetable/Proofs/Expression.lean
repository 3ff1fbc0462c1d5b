import Timetable.Proofs.Event
import Timetable.Proofs.Expression.Meaning

/-!
Events that are written and read.

The text of an event is an expression: a list of days of the week, if there are
any, a date with all three units and a time with all three units. Each unit is
read as the items that it was written of, and these insert the members of the
selection that the unit was written for. Days of the week are written by their
names. Putting numbers in place of names works on the parts between commas and
points, so it gives the text with numbers for these days, and that text is read
like a unit.

So what is read is the normal form of the event, in which every member of a
selection has been inserted once. It has the same text. Hence a text says of an
event all there is to know but how often a member has been inserted.
-/

set_option autoImplicit false

namespace Timetable

open Text

namespace Event

/-- The event of the same members in which each of them has been inserted once. -/
def normal (e : Event) : Event where
  weekday := e.weekday.normal
  year := e.year.normal
  month := e.month.normal
  day := e.day.normal
  hour := e.hour.normal
  minute := e.minute.normal
  second := e.second.normal

@[simp] theorem get_normal (e : Event) (c : Component) : e.normal.get c = (e.get c).normal := by
  cases c <;> rfl

end Event

namespace Expression

open Component

/-! ## Units -/

section Unit

variable {c : Component} {s : Selection c.domain}

/-- Digits may stand in a unit. -/
theorem isUnitChar_of_isDigit {x : Char} (h : x.isDigit = true) : isUnitChar x = true := by
  simp [isUnitChar, h]

/-- The text of a selection has the form of a unit. -/
theorem isMadeOf_text (hs : s.Reached) : IsMadeOf isUnitChar s.text.toList := by
  by_cases hp : s.isPopulated = true
  · refine hs.isMadeOf_textWith hp (by rfl) (by rfl) fun n _ => ?_
    rw [String.toList_ofList]
    exact ⟨twoDigits_ne_nil n, fun _ hx => isUnitChar_of_isDigit (isDigit_of_mem_twoDigits hx)⟩
  · obtain rfl := Selection.isPopulated_eq_false_iff.mp (by simpa using hp : s.isPopulated = false)
    have htext : (Selection.any : Selection c.domain).text = "*" := rfl
    rw [htext]
    exact ⟨by simp, by simp [isUnitChar]⟩

/-- The text of a part is read as its items, because the numbers of a part are words. -/
theorem readList_text (hs : s.Reached) : Item.readList s.text.toList = .ok s.items := by
  refine hs.readList_textWith fun n hn => ?_
  rw [String.toList_ofList]
  exact isNumber_of_isDecimal (isDecimal_twoDigits n) hn

/-- A list that is read as the items of a selection inserts its members. -/
theorem fills_normal (hc : c ≠ .weekday) (hs : s.Reached) {l : List Char}
    (hl : c.Lists l s.items) : c.Fills (some l) s.normal :=
  (fills_iff hc).mpr ⟨s.items, hl,
    hs.foldlM_items c.width_lt fun _ h t => Selection.insertItem_eq h t⟩

end Unit

/-- The years of an event are written in full, so nothing is added to them. -/
theorem map_fullYear {item : Item} (h : item.IsIn (Component.domain .year)) :
    item.map fullYear = item := by
  have hyear : ∀ y, (Component.domain .year).holds y = true → fullYear y = y := by
    intro y hy
    have hfirst : 2000 ≤ y := (Selection.holds_iff.mp hy).1
    rw [fullYear, if_neg (by omega)]
  cases item with
  | number n => rw [Item.map, hyear n h]
  | range a b => rw [Item.map, hyear a h.2.1, hyear b h.2.2]

/-- Years are written with four digits, so reading fills nothing up. -/
theorem fills_years {s : Selection (Component.domain .year)} (hs : s.Reached) :
    Fills .year (some s.text.toList) s.normal := by
  have hmap : s.items.map (Item.map fullYear) = s.items := by
    refine (List.map_congr_left fun item hitem => ?_).trans (List.map_id s.items)
    exact map_fullYear (hs.isIn_of_mem_items hitem)
  exact fills_normal (by decide) hs
    ((lists_year_iff (isMadeOf_text hs)).mpr ⟨_, readList_text hs, hmap.symm⟩)

/-! ## Days of the week -/

/-- The names of the days are written in letters, and each stands for the number of its day. -/
theorem weekdayName_spec {n : Nat} (h : (Component.domain .weekday).holds n = true) :
    IsMadeOf isWeekdayChar (Event.weekdayName n).toList ∧
      numberWeekdays (Event.weekdayName n).toList = twoDigits n := by
  have hmem : n ∈ [1, 2, 3, 4, 5, 6, 7] := by
    have hends : 1 ≤ n ∧ n ≤ 7 := Selection.holds_iff.mp h
    simp only [List.mem_cons, List.not_mem_nil, or_false]
    omega
  have hname : ∀ k ∈ [1, 2, 3, 4, 5, 6, 7], (Event.weekdayName k).toList ≠ [] ∧
      (∀ c ∈ (Event.weekdayName k).toList, isWeekdayChar c = true) ∧
      numberWeekdays (Event.weekdayName k).toList = twoDigits k := by decide
  obtain ⟨hne, hall, hnumber⟩ := hname n hmem
  exact ⟨⟨hne, hall⟩, hnumber⟩

section Weekday

variable {s : Selection (Component.domain .weekday)}

/-- Days of the week are written in the characters that a list of them may have. -/
theorem isMadeOf_weekdays (hs : s.Reached) (hp : s.isPopulated = true) :
    IsMadeOf isWeekdayChar (s.textWith Event.weekdayName).toList :=
  hs.isMadeOf_textWith hp (by rfl) (by rfl) fun _ hn => (weekdayName_spec hn).1

/-- The text of days of the week with numbers in place of names is their text as a unit. -/
theorem numberWeekdays_textWith (hs : s.Reached) (hp : s.isPopulated = true) :
    numberWeekdays (s.textWith Event.weekdayName).toList = s.text.toList := by
  refine hs.map_textWith hp (by decide) ?_ ?_ fun n hn => ?_
  · exact numberWeekdays_append_cons (by decide) (by decide)
  · exact numberWeekdays_append_cons (by decide) (by decide)
  · rw [(weekdayName_spec hn).2, String.toList_ofList]

/-- Days of the week are read as what they were written for. No range of them runs through the end
of the week. -/
theorem fills_weekdays (hs : s.Reached) (hp : s.isPopulated = true) :
    Fills .weekday (some (s.textWith Event.weekdayName).toList) s.normal := by
  have hlists : Lists .weekday (s.textWith Event.weekdayName).toList s.items := by
    rw [lists_weekday_iff (isMadeOf_weekdays hs hp).all, numberWeekdays_textWith hs hp]
    exact readList_text hs
  exact fills_weekday_iff.mpr ⟨s.items, hlists,
    hs.foldlM_items (width_lt .weekday) fun _ h t => Selection.insertCyclic_eq h t⟩

end Weekday

/-! ## The expression of an event -/

/-- The days of the week of an event's text, if it has any. -/
def weekdayText? (e : Event) : Option (List Char) :=
  if e.weekday.isPopulated then some (e.weekday.textWith Event.weekdayName).toList else none

/-- The expression that the text of an event is. -/
def ofEvent (e : Event) : Expression where
  weekday := weekdayText? e
  year := some e.year.text.toList
  monthDay := some (e.month.text.toList, e.day.text.toList)
  hourMinute := some (e.hour.text.toList, e.minute.text.toList)
  second := some e.second.text.toList

section Event

variable {e : Event} (he : e.Reached)

include he

/-- The expression that is written for an event has the form that is read. -/
theorem isFormed_ofEvent : (ofEvent e).IsFormed := by
  have hunit : ∀ c : Component, IsMadeOf isUnitChar (e.get c).text.toList := fun c =>
    isMadeOf_text (he c)
  refine ⟨by simp [parts, ofEvent, date?], nofun, nofun, Component.forall_iff.mpr ⟨?_, ?_⟩⟩
  · intro l hl
    obtain ⟨hp, rfl⟩ : e.weekday.isPopulated = true ∧
        (e.weekday.textWith Event.weekdayName).toList = l := by
      simpa [list?, ofEvent, weekdayText?] using hl
    exact isMadeOf_weekdays (he .weekday) hp
  · simp only [list?, ofEvent, Option.map_some, Option.mem_some_iff, forall_eq']
    exact ⟨hunit .year, hunit .month, hunit .day, hunit .hour, hunit .minute, hunit .second⟩

/-- The text of an event is made of the words of its expression. -/
theorem spaced_text : Spaced e.text.toList (ofEvent e).parts := by
  have htext : e.text.toList = [' '].intercalate (ofEvent e).parts := by
    by_cases hp : e.weekday.isPopulated = true
    · simp [Event.text, hp, ofEvent, weekdayText?, parts, date?, time?, dateWord, timeWord]
    · simp [Event.text, hp, ofEvent, weekdayText?, parts, date?, time?, dateWord, timeWord]
  rw [htext]
  exact spaced_intercalate (isFormed_ofEvent he).isMadeOf_parts

/-- **The lists of an event's expression fill the normal form of the event.** -/
theorem fills_ofEvent (c : Component) : c.Fills ((ofEvent e).list? c) (e.normal.get c) := by
  have hunit : ∀ c : Component, c ≠ .weekday → c ≠ .year →
      c.Fills (some (e.get c).text.toList) (e.get c).normal := fun c hweekday hyear =>
    fills_normal hweekday (he c) ((lists_iff_readList hweekday hyear (isMadeOf_text (he c))).mpr
      (readList_text (he c)))
  rw [Event.get_normal]
  -- days of the week are left out where there is no restriction, and all other parts are written
  cases c with
  | weekday =>
    by_cases hp : e.weekday.isPopulated = true
    · simp only [list?, ofEvent, weekdayText?, hp, if_true]
      exact fills_weekdays (he .weekday) hp
    · have hfree : e.weekday = .any := Selection.isPopulated_eq_false_iff.mp (by simpa using hp)
      simp only [list?, ofEvent, weekdayText?, Event.get, hfree]
      rfl
  | year => exact fills_years (he .year)
  | month => exact hunit .month (by decide) (by decide)
  | day => exact hunit .day (by decide) (by decide)
  | hour => exact hunit .hour (by decide) (by decide)
  | minute => exact hunit .minute (by decide) (by decide)
  | second => exact hunit .second (by decide) (by decide)

end Event

end Expression

namespace Event

variable {e e' : Event}

/-- An event and its normal form agree in all parts. -/
theorem normal_agrees (he : e.Reached) (c : Component) : (e.normal.get c).Agrees (e.get c) := by
  rw [get_normal]
  exact ((he c).normal_spec c.width_lt).2

/-- Events whose selections agree have the same text. -/
theorem text_congr (h : ∀ c, (e.get c).Agrees (e'.get c)) : e.text = e'.text := by
  have htext : ∀ c, (e.get c).text = (e'.get c).text := fun c => (h c).textWith_eq _
  have hyear : e.year.text = e'.year.text := htext .year
  have hmonth : e.month.text = e'.month.text := htext .month
  have hday : e.day.text = e'.day.text := htext .day
  have hhour : e.hour.text = e'.hour.text := htext .hour
  have hminute : e.minute.text = e'.minute.text := htext .minute
  have hsecond : e.second.text = e'.second.text := htext .second
  have hdays : e.weekday.textWith weekdayName = e'.weekday.textWith weekdayName :=
    (h .weekday).textWith_eq _
  have hpopulated : e.weekday.isPopulated = e'.weekday.isPopulated := (h .weekday).isPopulated
  rw [text, text, hyear, hmonth, hday, hhour, hminute, hsecond, hdays, hpopulated]

/-- The text of an event is read as the normal form of the event. -/
theorem parse_text_eq (he : e.Reached) : parse e.text = .ok e.normal := by
  have hwritten := (Expression.isFormed_ofEvent he).writtenIn (Expression.spaced_text he)
  obtain ⟨items, hitems⟩ := Expression.exists_describes_iff.mpr (Expression.fills_ofEvent he)
  exact parse_eq_ok_iff.mpr (.inr ⟨Expression.ofEvent e, items, hwritten, hitems⟩)

/-- **A text is read as the event that it was written for.** For every event that operations lead
to, the text is read, and what is read has the same free components and the same members, stores
one member as a single number and more of them as flags, and has the same text. So two events have
the same text if and only if they have the same members. -/
theorem parse_text (he : e.Reached) :
    (∃ e', parse e.text = .ok e' ∧ e'.text = e.text ∧ ∀ c,
      (e'.get c).isPopulated = (e.get c).isPopulated ∧
      (e'.get c).members = (e.get c).members ∧
      ((∃ n, e'.get c = .one n) ↔ (e.get c).members.length = 1) ∧
      ((∃ flags, e'.get c = .many flags) ↔ 1 < (e.get c).members.length)) ∧
    ∀ e' : Event, e'.Reached →
      (e.text = e'.text ↔ ∀ c, (e.get c).members = (e'.get c).members) := by
  refine ⟨⟨e.normal, parse_text_eq he, text_congr (normal_agrees he), fun c => ?_⟩, ?_⟩
  -- what is read is the normal form: one member is stored as a number, more as flags
  · have hagrees := normal_agrees he c
    have hstored := (e.get c).normal_stored
    rw [← get_normal] at hstored
    exact ⟨hagrees.isPopulated, hagrees.members, hstored⟩
  · intro e' he'
    constructor
    · -- events of one text are read as one event, and that has the members of both
      intro htext c
      have hparse := parse_text_eq he
      rw [htext, parse_text_eq he'] at hparse
      rw [← (normal_agrees he c).members, ← Except.ok.inj hparse, (normal_agrees he' c).members]
    · intro hmembers
      exact text_congr fun c => Selection.agrees_of_mem_iff (he c) (he' c) fun n => by
        rw [hmembers c]

/-- An event with a run of days, with a day before it in the week that is written behind it, and
with a year and a second that were inserted twice. -/
theorem parse_text_inserted_twice :
    let e : Event :=
      { weekday := .ofList [7, 1, 2, 3]
        year := .ofList [2024, 2024]
        day := .ofList [31, 4, 3]
        hour := .one 0
        second := .ofList [0, 0] }
    e.Reached ∧ e.text = "Mon..Wed,Sun 2024-*-03,04,31 00:*:00" ∧ e.year ≠ .one 2024 ∧
      ∃ e', parse "Mon..Wed,Sun 2024-*-03,04,31 00:*:00" = .ok e' ∧ e'.text = e.text ∧
        (∃ n, e'.year = .one n) ∧ e'.weekday.members = e.weekday.members := by
  -- the year and the second were inserted twice, so they are stored as flags of one member
  intro e
  have he : e.Reached := by
    intro c
    cases c
    · exact Selection.reached_ofList _
    · exact Selection.reached_ofList _
    · exact .any
    · exact Selection.reached_ofList _
    · exact Selection.reached_ofList [0]
    · exact .any
    · exact Selection.reached_ofList _
  have htext : e.text = "Mon..Wed,Sun 2024-*-03,04,31 00:*:00" := by decide +kernel
  obtain ⟨⟨e', hparse, hback, hfields⟩, -⟩ := parse_text he
  refine ⟨he, htext, by decide, e', htext ▸ hparse, hback, ?_, (hfields .weekday).2.1⟩
  exact (hfields .year).2.2.1.mpr (by decide +kernel)

end Event

end Timetable
