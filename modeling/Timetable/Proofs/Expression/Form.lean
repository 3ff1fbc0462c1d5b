import Timetable.Event.Expression
import Timetable.Proofs.Text.Line
import Timetable.Proofs.Text.Spacing

/-!
The form of an expression.

An expression has up to three words: a list of days of the week, a date of two or
three units with hyphens between, and a time of two or three units with colons
between. The words are written next to each other here without a reader, and the
reader of words finds an expression if and only if the words are its own. No word
can be read in two ways: days of the week have neither a hyphen nor a colon, a
date has no colon and a time has no hyphen.
-/

set_option autoImplicit false

namespace Timetable

open Text

namespace Component

/-- What holds of all components holds of each of the seven. -/
theorem forall_iff {P : Component → Prop} : (∀ c, P c) ↔
    P weekday ∧ P year ∧ P month ∧ P day ∧ P hour ∧ P minute ∧ P second := by
  constructor
  · exact fun h => ⟨h _, h _, h _, h _, h _, h _, h _⟩
  · rintro ⟨hweekday, hyear, hmonth, hday, hhour, hminute, hsecond⟩ c
    cases c <;> assumption

/-- A character of the lists of a component. -/
def isListChar : Component → Char → Bool
  | weekday => Expression.isWeekdayChar
  | _ => Expression.isUnitChar

end Component

namespace Expression

/-! ## Expressions and their words -/

/-- The list that is written for a component. -/
def list? (x : Expression) : Component → Option (List Char)
  | .weekday => x.weekday
  | .year => x.year
  | .month => x.monthDay.map Prod.fst
  | .day => x.monthDay.map Prod.snd
  | .hour => x.hourMinute.map Prod.fst
  | .minute => x.hourMinute.map Prod.snd
  | .second => x.second

/-- A date is written `[YEAR-]MONTH-DAY`. -/
def dateWord (year : Option (List Char)) (month day : List Char) : List Char :=
  ['-'].intercalate (year.toList ++ [month, day])

/-- A time is written `HOUR:MINUTE[:SECOND]`. -/
def timeWord (hour minute : List Char) (second : Option (List Char)) : List Char :=
  [':'].intercalate ([hour, minute] ++ second.toList)

/-- The date of an expression. -/
def date? (x : Expression) : Option (List Char) :=
  x.monthDay.map fun (m, d) => dateWord x.year m d

/-- The time of an expression. -/
def time? (x : Expression) : Option (List Char) :=
  x.hourMinute.map fun (h, m) => timeWord h m x.second

/-- The words of an expression. -/
def parts (x : Expression) : List (List Char) :=
  x.weekday.toList ++ x.date?.toList ++ x.time?.toList

/-- An expression that can be written: there is something to write, and a year belongs to a date
and a second to a time. -/
structure IsFormed (x : Expression) : Prop where
  parts_ne_nil : x.parts ≠ []
  year : x.monthDay = none → x.year = none
  second : x.hourMinute = none → x.second = none
  lists : ∀ c, ∀ l ∈ x.list? c, IsMadeOf c.isListChar l

/-! ## One word -/

/-- A word is two or three units with a separator between them exactly if it is put together in this
way. -/
theorem units?_eq_some_iff {c : Char} (hc : isUnitChar c = false) {s : List Char}
    {us : List (List Char)} : units? c s = some us ↔
      (us.length = 2 ∨ us.length = 3) ∧ (∀ u ∈ us, IsMadeOf isUnitChar u) ∧
        s = [c].intercalate us := by
  have hunit : ∀ u, isUnit u = true ↔ IsMadeOf isUnitChar u := by
    intro u
    rw [isUnit, Bool.and_eq_true, List.all_eq_true]
    exact ⟨fun h => ⟨by simpa using h.1, h.2⟩, fun h => ⟨by simpa using h.ne_nil, h.all⟩⟩
  -- splitting at the separator and joining with it undo each other, because no unit has it
  have hif : units? c s = some us ↔ ((∀ u ∈ s.splitOn c, IsMadeOf isUnitChar u) ∧
      ((s.splitOn c).length = 2 ∨ (s.splitOn c).length = 3)) ∧ s.splitOn c = us := by
    simp [units?, hunit]
  rw [hif]
  constructor
  · rintro ⟨⟨hall, hlength⟩, rfl⟩
    exact ⟨hlength, hall, (List.intercalate_splitOn c).symm⟩
  · rintro ⟨hlength, hall, rfl⟩
    have hne : us ≠ [] := by
      rintro rfl
      simp at hlength
    rw [List.splitOn_intercalate c (fun u hu => (hall u hu).notMem hc) hne]
    exact ⟨⟨hall, hlength⟩, rfl⟩

/-- A text that has units is made of their characters and the one between them. -/
theorem isMadeOf_of_units? {c : Char} (hc : isUnitChar c = false) {s : List Char}
    {us : List (List Char)} (h : units? c s = some us) :
    IsMadeOf (fun d => isUnitChar d || d == c) s := by
  obtain ⟨hlength, hall, rfl⟩ := (units?_eq_some_iff hc).mp h
  have hne : us ≠ [] := by
    rintro rfl
    simp at hlength
  exact IsMadeOf.intercalate (by simp) hne fun u hu => (hall u hu).mono fun d hd => by simp [hd]

section Word

variable {x x' : Expression} {s : List Char}

/-- A word is taken as days of the week if it is made of their characters, whatever they say. -/
theorem addWeekday?_eq_some_iff : x.addWeekday? s = some x' ↔
    IsMadeOf isWeekdayChar s ∧ x' = { x with weekday := some s } := by
  have hpart : isWeekdayPart s = true ↔ IsMadeOf isWeekdayChar s := by
    rw [isWeekdayPart, Bool.and_eq_true, List.all_eq_true]
    exact ⟨fun h => ⟨by simpa using h.1, h.2⟩, fun h => ⟨by simpa using h.ne_nil, h.all⟩⟩
  simp [addWeekday?, hpart, eq_comm]

/-- A word is taken as a date if it is a month and a day, with or without a year in front. -/
theorem addDate?_eq_some_iff (hx : x.year = none) : x.addDate? s = some x' ↔
    ∃ y m d, (∀ u ∈ y.toList ++ [m, d], IsMadeOf isUnitChar u) ∧
      s = dateWord y m d ∧
      x' = { x with year := y, monthDay := some (m, d) } := by
  have hunits : ∀ us, units? '-' s = some us ↔ _ := fun us => units?_eq_some_iff (by rfl)
  constructor
  · intro h
    rw [addDate?] at h
    -- two units are a month and a day, and three have a year in front
    split at h
    · next m d hus =>
      obtain ⟨-, hall, hs⟩ := (hunits _).mp hus
      exact ⟨none, m, d, hall, hs, by rw [← Option.some.inj h, hx]⟩
    · next y m d hus =>
      obtain ⟨-, hall, hs⟩ := (hunits _).mp hus
      exact ⟨some y, m, d, hall, hs, (Option.some.inj h).symm⟩
    · cases h
  · rintro ⟨y, m, d, hall, hs, rfl⟩
    have hus := (hunits _).mpr ⟨by cases y <;> simp, hall, hs⟩
    cases y with
    | none => simp only [addDate?, hus, Option.toList_none, List.nil_append, hx]
    | some y => simp only [addDate?, hus, Option.toList_some, List.cons_append, List.nil_append]

/-- A word is taken as a time of day if it is hours and minutes, with or without seconds behind
them. -/
theorem addTime?_eq_some_iff (hx : x.second = none) : x.addTime? s = some x' ↔
    ∃ h m t, (∀ u ∈ [h, m] ++ t.toList, IsMadeOf isUnitChar u) ∧
      s = timeWord h m t ∧
      x' = { x with hourMinute := some (h, m), second := t } := by
  have hunits : ∀ us, units? ':' s = some us ↔ _ := fun us => units?_eq_some_iff (by rfl)
  constructor
  · intro heq
    rw [addTime?] at heq
    -- two units are hours and minutes, and three have seconds behind them
    split at heq
    · next h m hus =>
      obtain ⟨-, hall, hs⟩ := (hunits _).mp hus
      exact ⟨h, m, none, hall, hs, by rw [← Option.some.inj heq, hx]⟩
    · next h m t hus =>
      obtain ⟨-, hall, hs⟩ := (hunits _).mp hus
      exact ⟨h, m, some t, hall, hs, (Option.some.inj heq).symm⟩
    · cases heq
  · rintro ⟨h, m, t, hall, hs, rfl⟩
    have hus := (hunits _).mpr ⟨by cases t <;> simp, hall, hs⟩
    cases t with
    | none => simp only [addTime?, hus, Option.toList_none, List.append_nil, hx]
    | some t => simp only [addTime?, hus, Option.toList_some, List.cons_append, List.nil_append]

/-- A character that stands in no list of days tells that a word is none. -/
theorem addWeekday?_eq_none {c : Char} (hs : c ∈ s) (hc : isWeekdayChar c = false) :
    x.addWeekday? s = none := by
  rw [Option.eq_none_iff_forall_ne_some]
  exact fun x' h => (addWeekday?_eq_some_iff.mp h).1.notMem hc hs

/-- A date has a hyphen, which no other word has. -/
theorem mem_dateWord (y : Option (List Char)) (m d : List Char) : '-' ∈ dateWord y m d := by
  cases y <;> simp [dateWord]

/-- A date has a hyphen, so it is no list of days. -/
theorem addWeekday?_dateWord (y : Option (List Char)) (m d : List Char) :
    x.addWeekday? (dateWord y m d) = none :=
  addWeekday?_eq_none (mem_dateWord y m d) (by rfl)

/-- A time of day has a colon, which no other word has. -/
theorem mem_timeWord (h m : List Char) (t : Option (List Char)) : ':' ∈ timeWord h m t := by
  cases t <;> simp [timeWord]

/-- So a time of day is not taken for days of the week. -/
theorem addWeekday?_timeWord (h m : List Char) (t : Option (List Char)) :
    x.addWeekday? (timeWord h m t) = none :=
  addWeekday?_eq_none (mem_timeWord h m t) (by rfl)

/-- A time has a colon, so it is no date. -/
theorem addDate?_timeWord (h m : List Char) (t : Option (List Char)) :
    x.addDate? (timeWord h m t) = none := by
  have hnone : units? '-' (timeWord h m t) = none := by
    rw [Option.eq_none_iff_forall_ne_some]
    intro us hus
    exact (isMadeOf_of_units? (by rfl) hus).notMem (by decide) (mem_timeWord h m t)
  rw [addDate?, hnone]

end Word

/-! ## All words -/

/-- The lists of an expression, word by word. -/
theorem isFormed_iff {x : Expression} : x.IsFormed ↔ x.parts ≠ [] ∧
    (∀ w ∈ x.weekday, IsMadeOf isWeekdayChar w) ∧
    (∀ md ∈ x.monthDay, ∀ u ∈ x.year.toList ++ [md.1, md.2], IsMadeOf isUnitChar u) ∧
    (x.monthDay = none → x.year = none) ∧
    (∀ hm ∈ x.hourMinute, ∀ u ∈ [hm.1, hm.2] ++ x.second.toList, IsMadeOf isUnitChar u) ∧
    (x.hourMinute = none → x.second = none) := by
  obtain ⟨w, y, md, hm, t⟩ := x
  constructor
  -- from lists by component to lists by word: a date has up to three units, a time up to three
  · rintro ⟨hparts, hyear, hsecond, hlists⟩
    obtain ⟨hw, hy, hmonth, hday, hhour, hminute, ht⟩ := Component.forall_iff.mp hlists
    refine ⟨hparts, hw, ?_, hyear, ?_, hsecond⟩
    -- each unit of the date is the list of its component
    · rintro md rfl u hu
      simp only [List.mem_append, Option.mem_toList, List.mem_cons, List.not_mem_nil,
        or_false] at hu
      obtain hu | rfl | rfl := hu
      · exact hy u hu
      · exact hmonth _ rfl
      · exact hday _ rfl
    -- and each unit of the time is
    · rintro hm rfl u hu
      simp only [List.mem_append, Option.mem_toList, List.mem_cons, List.not_mem_nil,
        or_false] at hu
      obtain (rfl | rfl) | hu := hu
      · exact hhour _ rfl
      · exact hminute _ rfl
      · exact ht u hu
  -- back: a component that is written is a unit of the date or of the time
  · rintro ⟨hparts, hw, hdate, hyear, htime, hsecond⟩
    refine ⟨hparts, hyear, hsecond, Component.forall_iff.mpr ⟨hw, ?_, ?_, ?_, ?_, ?_, ?_⟩⟩
    · rintro y rfl
      cases md with
      -- a year alone is no date
      | none => exact absurd (hyear rfl) (by simp)
      | some md => exact hdate md rfl y (by simp)
    · rintro _ hl
      obtain ⟨md, rfl, rfl⟩ := Option.map_eq_some_iff.mp hl
      exact hdate md rfl _ (by simp)
    · rintro _ hl
      obtain ⟨md, rfl, rfl⟩ := Option.map_eq_some_iff.mp hl
      exact hdate md rfl _ (by simp)
    · rintro _ hl
      obtain ⟨hm, rfl, rfl⟩ := Option.map_eq_some_iff.mp hl
      exact htime hm rfl _ (by simp)
    · rintro _ hl
      obtain ⟨hm, rfl, rfl⟩ := Option.map_eq_some_iff.mp hl
      exact htime hm rfl _ (by simp)
    · rintro t rfl
      cases hm with
      -- and seconds alone are no time
      | none => exact absurd (hsecond rfl) (by simp)
      | some hm => exact htime hm rfl t (by simp)

/-- What the reader of words finds has them as its words. -/
theorem of_ofWords? {ws : List (List Char)} {x : Expression} (h : ofWords? ws = some x) :
    x.IsFormed ∧ ws = x.parts := by
  rw [isFormed_iff]
  -- by the number of words, as `ofWords?` has them; a single word can be any of the three
  rcases ws with _ | ⟨a, _ | ⟨b, _ | ⟨c, _ | ⟨d, r⟩⟩⟩⟩
  · cases h
  · simp only [ofWords?, Option.or_eq_some_iff] at h
    obtain h | ⟨-, h | ⟨-, h⟩⟩ := h
    · obtain ⟨ha, rfl⟩ := addWeekday?_eq_some_iff.mp h
      simp [parts, date?, time?, ha]
    · obtain ⟨y, m, d, hall, rfl, rfl⟩ := (addDate?_eq_some_iff rfl).mp h
      simpa [parts, date?, time?] using hall
    · obtain ⟨h, m, t, hall, rfl, rfl⟩ := (addTime?_eq_some_iff rfl).mp h
      simpa [parts, date?, time?] using hall
  · simp only [ofWords?] at h
    -- with two words, the first one is days of the week or a date
    split at h
    · next x' hx' =>
      obtain ⟨ha, rfl⟩ := addWeekday?_eq_some_iff.mp hx'
      obtain h | ⟨-, h⟩ := Option.or_eq_some_iff.mp h
      · obtain ⟨y, m, d, hall, rfl, rfl⟩ := (addDate?_eq_some_iff rfl).mp h
        simpa [parts, date?, time?, ha] using hall
      · obtain ⟨h, m, t, hall, rfl, rfl⟩ := (addTime?_eq_some_iff rfl).mp h
        simpa [parts, date?, time?, ha] using hall
    · obtain ⟨x', hx', h⟩ := Option.bind_eq_some_iff.mp h
      obtain ⟨y, m, d, hdate, rfl, rfl⟩ := (addDate?_eq_some_iff rfl).mp hx'
      obtain ⟨h, m, t, htime, rfl, rfl⟩ := (addTime?_eq_some_iff rfl).mp h
      have hunits := And.intro hdate htime
      simpa [parts, date?, time?] using hunits
  · simp only [ofWords?] at h
    obtain ⟨x', hx', h⟩ := Option.bind_eq_some_iff.mp h
    obtain ⟨x'', hx'', hx'⟩ := Option.bind_eq_some_iff.mp hx'
    obtain ⟨ha, rfl⟩ := addWeekday?_eq_some_iff.mp hx''
    obtain ⟨y, m, d, hdate, rfl, rfl⟩ := (addDate?_eq_some_iff rfl).mp hx'
    obtain ⟨h, m, t, htime, rfl, rfl⟩ := (addTime?_eq_some_iff rfl).mp h
    have hunits := And.intro hdate htime
    simpa [parts, date?, time?, ha] using hunits
  · cases h

/-- The reader of words finds the expression whose words they are. -/
theorem ofWords?_parts {x : Expression} (hx : x.IsFormed) : ofWords? x.parts = some x := by
  obtain ⟨hparts, hw, hdate, hyear, htime, hsecond⟩ := isFormed_iff.mp hx
  obtain ⟨w, y, md, hm, t⟩ := x
  have addWeekday : ∀ v ∈ w, ∀ x : Expression,
      x.addWeekday? v = some { x with weekday := some v } := fun v hv x =>
    addWeekday?_eq_some_iff.mpr ⟨hw v hv, rfl⟩
  have addDate : ∀ m d, md = some (m, d) → ∀ x : Expression, x.year = none →
      x.addDate? (dateWord y m d) = some { x with year := y, monthDay := some (m, d) } :=
    fun m d hmd x hx => (addDate?_eq_some_iff hx).mpr ⟨y, m, d, hdate (m, d) hmd, rfl, rfl⟩
  have addTime : ∀ h m, hm = some (h, m) → ∀ x : Expression, x.second = none →
      x.addTime? (timeWord h m t) = some { x with hourMinute := some (h, m), second := t } :=
    fun h m hhm x hx => (addTime?_eq_some_iff hx).mpr ⟨h, m, t, htime (h, m) hhm, rfl, rfl⟩
  -- which words there are decides which of them is tried as what
  rcases md with _ | ⟨m, d⟩
  · obtain rfl : y = none := hyear rfl
    rcases hm with _ | ⟨h, m⟩
    · obtain rfl : t = none := hsecond rfl
      cases w with
      | none => exact absurd rfl hparts
      | some w => simp [parts, date?, time?, ofWords?, addWeekday w rfl]
    · cases w with
      | none => simp [parts, date?, time?, ofWords?, addWeekday?_timeWord, addDate?_timeWord,
          addTime h m rfl]
      | some w => simp [parts, date?, time?, ofWords?, addWeekday w rfl, addDate?_timeWord,
          addTime h m rfl]
  · rcases hm with _ | ⟨h, m'⟩
    · obtain rfl : t = none := hsecond rfl
      cases w with
      | none => simp [parts, date?, time?, ofWords?, addWeekday?_dateWord, addDate m d rfl]
      | some w => simp [parts, date?, time?, ofWords?, addWeekday w rfl, addDate m d rfl]
    · cases w with
      | none => simp [parts, date?, time?, ofWords?, addWeekday?_dateWord, addDate m d rfl,
          addTime h m' rfl]
      | some w => simp [parts, date?, time?, ofWords?, addWeekday w rfl, addDate m d rfl,
          addTime h m' rfl]

/-- **The words of an expression.** Words have the form of an expression if and only if they are
its words. -/
theorem ofWords?_eq_some_iff {ws : List (List Char)} {x : Expression} :
    ofWords? ws = some x ↔ x.IsFormed ∧ ws = x.parts :=
  ⟨of_ofWords?, fun ⟨hx, hws⟩ => hws ▸ ofWords?_parts hx⟩

/-! ## Words without blanks -/

/-- Units have no blanks, so a date or a time is one word. -/
theorem isBlank_of_isUnitChar {c : Char} (h : isUnitChar c = true) : isBlank c = false :=
  isBlank_of_class (p := isUnitChar) (by decide) h

/-- Neither have days of the week. -/
theorem isBlank_of_isWeekdayChar {c : Char} (h : isWeekdayChar c = true) : isBlank c = false :=
  isBlank_of_class (p := isWeekdayChar) (by decide) h

/-- Units with a character between them that is no blank are a word without blanks. -/
theorem isMadeOf_units {c : Char} (hc : isBlank c = false) {us : List (List Char)} (hne : us ≠ [])
    (h : ∀ u ∈ us, IsMadeOf isUnitChar u) : IsMadeOf (!isBlank ·) ([c].intercalate us) :=
  IsMadeOf.intercalate (by simp [hc]) hne fun u hu =>
    (h u hu).mono fun _ hx => by simp [isBlank_of_isUnitChar hx]

/-- No word of an expression has a blank in it. -/
theorem IsFormed.isMadeOf_parts {x : Expression} (hx : x.IsFormed) :
    ∀ w ∈ x.parts, IsMadeOf (!isBlank ·) w := by
  obtain ⟨-, hw, hdate, -, htime, -⟩ := isFormed_iff.mp hx
  intro w hmem
  simp only [parts, List.mem_append, Option.mem_toList] at hmem
  obtain (hmem | hmem) | hmem := hmem
  · exact (hw w hmem).mono fun _ hx => by simp [isBlank_of_isWeekdayChar hx]
  · obtain ⟨md, hmd, rfl⟩ := Option.map_eq_some_iff.mp hmem
    exact isMadeOf_units (by decide) (by simp) (hdate md hmd)
  · obtain ⟨hm, hhm, rfl⟩ := Option.map_eq_some_iff.mp hmem
    exact isMadeOf_units (by decide) (by simp) (htime hm hhm)

end Expression

end Timetable
