import Timetable.Proofs.Expression.Form
import Timetable.Proofs.Text.Capture

/-!
The rules of expressions.

The grammar is a list of seven rules. Each has a form for the whole text, and steps
that take the captured parts to the components of an event. A text is tried against
one rule after another, and the first one that fits is applied.

There is one rule for each choice of parts that an expression can have. A text that
fits a rule has the words of an expression with these parts, and they are its words
in one way only; the lists of the expression are what is captured. So no text fits
two rules, and none fits a rule in two ways.
-/

set_option autoImplicit false

namespace Timetable

open Text

namespace Expression

/-! ## Rules -/

/-- What is done with a captured part, which is known by its number. -/
inductive Step where
  /-- A part that is always there goes to a component. -/
  | set (c : Component) (group : Nat)
  /-- A part goes to a component if it is there. -/
  | optional (c : Component) (group : Nat)
  /-- A part goes to a component, or 0 if it is not there. -/
  | orZero (c : Component) (group : Nat)
  /-- Hour, minute and second become 0. -/
  | midnight
  deriving DecidableEq, Repr

/-- A rule of the grammar: the forms of the words of a text, and what is done with what they
capture. -/
structure Rule where
  parts : List Form
  steps : List Step

/-- The form of a whole text. Its capture with the number 0 is the text. -/
def Rule.form (r : Rule) : Form :=
  .captured (.spaced r.parts)

/-- A list of numbers and ranges. -/
def unitForm : Form :=
  .captured (.many isUnitChar)

/-- A list of days of the week. -/
def weekdayForm : Form :=
  .captured (.many isWeekdayChar)

/-- A date, `[YEAR-]MONTH-DAY`. -/
def dateForm : Form :=
  .seq (.optional (.seq unitForm (.word ['-'])))
    (.seq unitForm (.seq (.word ['-']) unitForm))

/-- A time of day, `HOUR:MINUTE[:SECOND]`. -/
def timeForm : Form :=
  .seq unitForm (.seq (.word [':']) (.seq unitForm (.optional (.seq (.word [':']) unitForm))))

/-- The rules of the grammar, in the order in which they are tried. -/
def rules : List Rule :=
  [{ parts := [weekdayForm, dateForm, timeForm]
     steps := [.set .weekday 1, .optional .year 2, .set .month 3, .set .day 4, .set .hour 5,
      .set .minute 6, .orZero .second 7] },
   { parts := [dateForm]
     steps := [.optional .year 1, .set .month 2, .set .day 3, .midnight] },
   { parts := [timeForm]
     steps := [.set .hour 1, .set .minute 2, .orZero .second 3] },
   { parts := [dateForm, timeForm]
     steps := [.optional .year 1, .set .month 2, .set .day 3, .set .hour 4, .set .minute 5,
      .orZero .second 6] },
   { parts := [weekdayForm]
     steps := [.set .weekday 1, .midnight] },
   { parts := [weekdayForm, dateForm]
     steps := [.set .weekday 1, .optional .year 2, .set .month 3, .set .day 4, .midnight] },
   { parts := [weekdayForm, timeForm]
     steps := [.set .weekday 1, .set .hour 2, .set .minute 3, .orZero .second 4] }]

/-- The part with a number, if it is there. -/
def group (cs : Captures) (i : Nat) : Option (List Char) :=
  cs[i]?.join

/-- Inserts a list into a component. -/
def insertList : Component → Event → List Char → Except SelectionError Event
  | .weekday => insertWeekdays
  | .year => insertYears
  | c => insertUnit c

/-- Inserts 0 into a component. -/
def insertZero (e : Event) (c : Component) : Except SelectionError Event := do
  return e.set c (← (e.get c).insert 0)

/-- Applies a step to an event. -/
def Step.apply (cs : Captures) (e : Event) : Step → Except SelectionError Event
  | .set c i | .optional c i => whenWritten (insertList c) e (group cs i)
  | .orZero c i =>
    match group cs i with
    | some l => insertList c e l
    | none => insertZero e c
  | .midnight => [.hour, .minute, .second].foldlM insertZero e

/-- Applies the steps of a rule, from left to right, to an event that restricts nothing. -/
def Rule.event (r : Rule) (cs : Captures) : Except SelectionError Event :=
  r.steps.foldlM (Step.apply cs) .anytime

end Expression

/-- What a text is read as: nothing fits it, or what fits it has an event or is refused. -/
def Event.ofFound (text : String) :
    Option (Except SelectionError Event) → Except EventError Event
  | none => .error (.unrecognized text)
  | some (.ok e) => .ok e
  | some (.error cause) => .error (.invalid text cause)

/-- Reads a calendar expression by rules: `order` has the rules as they are tried, and `find` looks
for the captures of a form. -/
def Event.parseBy (find : Form → List Char → Option Captures) (order : List Expression.Rule)
    (text : String) : Except EventError Event :=
  let t := trim text.toList
  if t.isEmpty then .error .empty
  else
    match Keyword.ofName? (String.ofList (t.map lowerLetter)) with
    | some k => .ok k.event
    | none => ofFound text (order.findSome? fun r => (find r.form t).map r.event)

namespace Expression

/-! ## One rule for each outline -/

/-- Which parts an expression has. -/
structure Outline where
  weekday : Bool
  date : Bool
  time : Bool
  deriving DecidableEq, Repr

/-- The parts that are written in an expression. -/
def outline (x : Expression) : Outline :=
  ⟨x.weekday.isSome, x.monthDay.isSome, x.hourMinute.isSome⟩

namespace Outline

/-- The forms of the parts of an outline. -/
def parts (o : Outline) : List Form :=
  (if o.weekday then [weekdayForm] else []) ++ (if o.date then [dateForm] else []) ++
    (if o.time then [timeForm] else [])

/-- The number of the first part of the date. -/
def dateGroup (o : Outline) : Nat :=
  if o.weekday then 2 else 1

/-- The number of the first part of the time. -/
def timeGroup (o : Outline) : Nat :=
  if o.date then o.dateGroup + 3 else o.dateGroup

/-- The steps for the date. -/
def dateSteps (o : Outline) : List Step :=
  if o.date then
    [.optional .year o.dateGroup, .set .month (o.dateGroup + 1), .set .day (o.dateGroup + 2)]
  else []

/-- The steps for the time, or for midnight. -/
def timeSteps (o : Outline) : List Step :=
  if o.time then
    [.set .hour o.timeGroup, .set .minute (o.timeGroup + 1), .orZero .second (o.timeGroup + 2)]
  else [.midnight]

/-- The rule of an outline. -/
def rule (o : Outline) : Rule where
  parts := o.parts
  steps := (if o.weekday then [.set .weekday 1] else []) ++ o.dateSteps ++ o.timeSteps

/-- The outlines of the rules. -/
def all : List Outline :=
  [⟨true, true, true⟩, ⟨false, true, false⟩, ⟨false, false, true⟩, ⟨false, true, true⟩,
    ⟨true, false, false⟩, ⟨true, true, false⟩, ⟨true, false, true⟩]

/-- The outlines of the rules are those that have a part. -/
theorem mem_all_iff {o : Outline} : o ∈ all ↔ o.parts ≠ [] := by
  obtain ⟨w, d, t⟩ := o
  cases w <;> cases d <;> cases t <;> simp [all, parts]

end Outline

/-- **There is one rule for each outline.** -/
theorem rules_eq : rules = Outline.all.map Outline.rule :=
  rfl

/-! ## What the forms fit -/

/-- What fits a unit: characters of a list of numbers, captured as one part. -/
theorem fits_unitForm_iff {w : List Char} {cs : Captures} :
    unitForm.Fits w cs ↔ IsMadeOf isUnitChar w ∧ cs = [some w] :=
  Form.fits_captured_many

/-- What fits days of the week. -/
theorem fits_weekdayForm_iff {w : List Char} {cs : Captures} :
    weekdayForm.Fits w cs ↔ IsMadeOf isWeekdayChar w ∧ cs = [some w] :=
  Form.fits_captured_many

/-- The same in the direction in which texts are put together. -/
theorem fits_unitForm {u : List Char} (hu : IsMadeOf isUnitChar u) : unitForm.Fits u [some u] :=
  fits_unitForm_iff.mpr ⟨hu, rfl⟩

/-- **The form of a date** fits dates, and captures their units. -/
theorem fits_dateForm_iff {w : List Char} {cs : Captures} : dateForm.Fits w cs ↔
    ∃ y m d, (∀ u ∈ y.toList ++ [m, d], IsMadeOf isUnitChar u) ∧ w = dateWord y m d ∧
      cs = [y, some m, some d] := by
  constructor
  -- taken apart from the right, because the year is optional
  · rintro ⟨_, _, _, _, hyear, ⟨m, _, _, _, hm, hday, rfl, rfl⟩, rfl, rfl⟩
    obtain ⟨_, d, _, _, ⟨rfl, rfl⟩, hd, rfl, rfl⟩ := hday
    obtain ⟨hm', rfl⟩ := fits_unitForm_iff.mp hm
    obtain ⟨hd', rfl⟩ := fits_unitForm_iff.mp hd
    obtain ⟨y, _, _, _, hy, ⟨rfl, rfl⟩, rfl, rfl⟩ | ⟨rfl, rfl⟩ := hyear
    · obtain ⟨hy', rfl⟩ := fits_unitForm_iff.mp hy
      exact ⟨some y, m, d, by simp [hy', hm', hd'], by simp [dateWord], rfl⟩
    · exact ⟨none, m, d, by simp [hm', hd'], by simp [dateWord], rfl⟩
  · rintro ⟨y, m, d, hall, rfl, rfl⟩
    have hmonthDay := (fits_unitForm (hall m (by simp))).seq
      ((Form.fits_word ['-']).seq (fits_unitForm (hall d (by simp))))
    -- put together with or without a year
    cases y with
    | none =>
      have hyear : (Form.optional (.seq unitForm (.word ['-']))).Fits [] [none] :=
        Form.fits_optional_nil _
      simpa [dateForm, dateWord] using hyear.seq hmonthDay
    | some y =>
      have hyear := ((fits_unitForm (hall y (by simp))).seq (Form.fits_word ['-'])).optional
      simpa [dateForm, dateWord] using hyear.seq hmonthDay

/-- **The form of a time** fits times, and captures their units. -/
theorem fits_timeForm_iff {w : List Char} {cs : Captures} : timeForm.Fits w cs ↔
    ∃ h m t, (∀ u ∈ [h, m] ++ t.toList, IsMadeOf isUnitChar u) ∧ w = timeWord h m t ∧
      cs = [some h, some m, t] := by
  constructor
  · rintro ⟨h, _, _, _, hh, ⟨_, _, _, _, ⟨rfl, rfl⟩, hminute, rfl, rfl⟩, rfl, rfl⟩
    obtain ⟨m, _, _, _, hm, hsecond, rfl, rfl⟩ := hminute
    obtain ⟨hh', rfl⟩ := fits_unitForm_iff.mp hh
    obtain ⟨hm', rfl⟩ := fits_unitForm_iff.mp hm
    obtain ⟨_, t, _, _, ⟨rfl, rfl⟩, ht, rfl, rfl⟩ | ⟨rfl, rfl⟩ := hsecond
    · obtain ⟨ht', rfl⟩ := fits_unitForm_iff.mp ht
      exact ⟨h, m, some t, by simp [hh', hm', ht'], by simp [timeWord], rfl⟩
    · exact ⟨h, m, none, by simp [hh', hm'], by simp [timeWord], rfl⟩
  · rintro ⟨h, m, t, hall, rfl, rfl⟩
    have hhour := fits_unitForm (hall h (by simp))
    have hminute := fits_unitForm (hall m (by simp))
    -- put together with or without seconds
    cases t with
    | none =>
      have hsecond : (Form.optional (.seq (.word [':']) unitForm)).Fits [] [none] :=
        Form.fits_optional_nil _
      have htime := hhour.seq ((Form.fits_word [':']).seq (hminute.seq hsecond))
      simpa [timeForm, timeWord] using htime
    | some t =>
      have hsecond := ((Form.fits_word [':']).seq (fits_unitForm (hall t (by simp)))).optional
      have htime := hhour.seq ((Form.fits_word [':']).seq (hminute.seq hsecond))
      simpa [timeForm, timeWord] using htime

/-! ## What a rule fits -/

/-- What is captured of a date. -/
def dateCaptures (year : Option (List Char)) (monthDay : Option (List Char × List Char)) :
    Captures :=
  match monthDay with
  | none => []
  | some (m, d) => [year, some m, some d]

/-- What is captured of a time. -/
def timeCaptures (hourMinute : Option (List Char × List Char)) (second : Option (List Char)) :
    Captures :=
  match hourMinute with
  | none => []
  | some (h, m) => [some h, some m, second]

/-- What is captured of the words of an expression. -/
def captures (x : Expression) : Captures :=
  x.weekday.toList.map some ++ dateCaptures x.year x.monthDay ++
    timeCaptures x.hourMinute x.second

section FitWords

variable {b : Bool} {ws : List (List Char)} {cs : Captures}

/-- A form that is there or not fits one word or none. -/
theorem fitWords_if_iff {f : Form} : Form.FitWords (if b then [f] else []) ws cs ↔
    (b = false ∧ ws = [] ∧ cs = []) ∨ (b = true ∧ ∃ w, f.Fits w cs ∧ ws = [w]) := by
  cases b with
  | false => simp [Form.FitWords]
  | true =>
    simp only [if_true, Form.FitWords, Bool.true_eq_false, false_and, false_or, true_and]
    constructor
    · rintro ⟨w, _, ds, _, hw, ⟨rfl, rfl⟩, rfl, rfl⟩
      exact ⟨w, by simpa using hw, rfl⟩
    · rintro ⟨w, hw, rfl⟩
      exact ⟨w, [], cs, [], hw, ⟨rfl, rfl⟩, rfl, by simp⟩

/-- The days of the week of an outline: the word is there or it is not, as the outline says. -/
theorem fitWords_weekday_iff : Form.FitWords (if b then [weekdayForm] else []) ws cs ↔
    ∃ w : Option (List Char), w.isSome = b ∧ (∀ l ∈ w, IsMadeOf isWeekdayChar l) ∧
      ws = w.toList ∧ cs = w.toList.map some := by
  rw [fitWords_if_iff]
  constructor
  · rintro (⟨rfl, rfl, rfl⟩ | ⟨rfl, w, hw, rfl⟩)
    · exact ⟨none, by simp⟩
    · obtain ⟨hmade, rfl⟩ := fits_weekdayForm_iff.mp hw
      exact ⟨some w, by simpa using hmade⟩
  · rintro ⟨w, rfl, hw, rfl, rfl⟩
    cases w with
    | none => exact .inl ⟨rfl, rfl, rfl⟩
    | some w => exact .inr ⟨rfl, w, fits_weekdayForm_iff.mpr ⟨hw w rfl, rfl⟩, rfl⟩

/-- The date of an outline, with its captures; a date may have no year. -/
theorem fitWords_date_iff : Form.FitWords (if b then [dateForm] else []) ws cs ↔
    ∃ (y : Option (List Char)) (md : Option (List Char × List Char)), md.isSome = b ∧
      (∀ p ∈ md, ∀ u ∈ y.toList ++ [p.1, p.2], IsMadeOf isUnitChar u) ∧ (md = none → y = none) ∧
      ws = (md.map fun (m, d) => dateWord y m d).toList ∧ cs = dateCaptures y md := by
  rw [fitWords_if_iff]
  constructor
  · rintro (⟨rfl, rfl, rfl⟩ | ⟨rfl, w, hw, rfl⟩)
    · exact ⟨none, none, by simp [dateCaptures]⟩
    · obtain ⟨y, m, d, hall, rfl, rfl⟩ := fits_dateForm_iff.mp hw
      exact ⟨y, some (m, d), rfl, by simpa using hall, by simp, rfl, rfl⟩
  · rintro ⟨y, md, rfl, hall, hnone, rfl, rfl⟩
    rcases md with _ | ⟨m, d⟩
    · exact .inl ⟨rfl, rfl, rfl⟩
    · exact .inr ⟨rfl, _, fits_dateForm_iff.mpr ⟨y, m, d, hall (m, d) rfl, rfl, rfl⟩, rfl⟩

/-- The time of an outline; a time may have no seconds. -/
theorem fitWords_time_iff : Form.FitWords (if b then [timeForm] else []) ws cs ↔
    ∃ (hm : Option (List Char × List Char)) (t : Option (List Char)), hm.isSome = b ∧
      (∀ p ∈ hm, ∀ u ∈ [p.1, p.2] ++ t.toList, IsMadeOf isUnitChar u) ∧ (hm = none → t = none) ∧
      ws = (hm.map fun (h, m) => timeWord h m t).toList ∧ cs = timeCaptures hm t := by
  rw [fitWords_if_iff]
  constructor
  · rintro (⟨rfl, rfl, rfl⟩ | ⟨rfl, w, hw, rfl⟩)
    · exact ⟨none, none, by simp [timeCaptures]⟩
    · obtain ⟨h, m, t, hall, rfl, rfl⟩ := fits_timeForm_iff.mp hw
      exact ⟨some (h, m), t, rfl, by simpa using hall, by simp, rfl, rfl⟩
  · rintro ⟨hm, t, rfl, hall, hnone, rfl, rfl⟩
    rcases hm with _ | ⟨h, m⟩
    · exact .inl ⟨rfl, rfl, rfl⟩
    · exact .inr ⟨rfl, _, fits_timeForm_iff.mpr ⟨h, m, t, hall (h, m) rfl, rfl, rfl⟩, rfl⟩

/-- **Words fit the forms of an outline** if and only if they are the words of an expression with
this outline; then its lists are what is captured. -/
theorem fitWords_parts_iff {o : Outline} (hws : ws ≠ []) : Form.FitWords o.parts ws cs ↔
    ∃ x : Expression, x.IsFormed ∧ x.outline = o ∧ ws = x.parts ∧ cs = x.captures := by
  constructor
  · intro h
    obtain ⟨_, _, _, _, hfront, htime, rfl, rfl⟩ := Form.fitWords_append_iff.mp h
    obtain ⟨_, _, _, _, hweekday, hdate, rfl, rfl⟩ := Form.fitWords_append_iff.mp hfront
    obtain ⟨w, hw, hdays, rfl, rfl⟩ := fitWords_weekday_iff.mp hweekday
    obtain ⟨y, md, hmd, hdateUnits, hyear, rfl, rfl⟩ := fitWords_date_iff.mp hdate
    obtain ⟨hm, t, hhm, htimeUnits, hsecond, rfl, rfl⟩ := fitWords_time_iff.mp htime
    -- the parts that are there are those of the outline, because it says which
    have houtline : outline ⟨w, y, md, hm, t⟩ = o := by
      obtain ⟨b₁, b₂, b₃⟩ := o
      exact congr (congr (congrArg Outline.mk hw) hmd) hhm
    exact ⟨⟨w, y, md, hm, t⟩,
      isFormed_iff.mpr ⟨hws, hdays, hdateUnits, hyear, htimeUnits, hsecond⟩, houtline, rfl, rfl⟩
  · rintro ⟨x, hx, rfl, rfl, rfl⟩
    obtain ⟨-, hdays, hdateUnits, hyear, htimeUnits, hsecond⟩ := isFormed_iff.mp hx
    have hweekday := fitWords_weekday_iff.mpr ⟨x.weekday, rfl, hdays, rfl, rfl⟩
    have hdate := fitWords_date_iff.mpr ⟨x.year, x.monthDay, rfl, hdateUnits, hyear, rfl, rfl⟩
    have htime := fitWords_time_iff.mpr
      ⟨x.hourMinute, x.second, rfl, htimeUnits, hsecond, rfl, rfl⟩
    have hfront := Form.fitWords_append_iff.mpr ⟨_, _, _, _, hweekday, hdate, rfl, rfl⟩
    exact Form.fitWords_append_iff.mpr ⟨_, _, _, _, hfront, htime, rfl, rfl⟩

end FitWords

/-- The forms of a rule fit words without blanks. -/
theorem isMadeOf_of_fits {o : Outline} {f : Form} (hf : f ∈ o.parts) {w : List Char}
    {cs : Captures} (h : f.Fits w cs) : IsMadeOf (!isBlank ·) w := by
  simp only [Outline.parts, List.mem_append, List.mem_ite_nil_right, List.mem_singleton] at hf
  obtain (⟨-, rfl⟩ | ⟨-, rfl⟩) | ⟨-, rfl⟩ := hf
  · exact (fits_weekdayForm_iff.mp h).1.mono fun c hc => by simp [isBlank_of_isWeekdayChar hc]
  · obtain ⟨y, m, d, hall, rfl, -⟩ := fits_dateForm_iff.mp h
    exact isMadeOf_units (c := '-') (by decide) (by simp) hall
  · obtain ⟨h, m, t, hall, rfl, -⟩ := fits_timeForm_iff.mp h
    exact isMadeOf_units (c := ':') (by decide) (by simp) hall

/-- **What a rule fits.** A text fits the rule of an outline if and only if it is made of the words
of an expression with this outline. It is captured itself, and then the lists of the expression. -/
theorem fits_rule_iff {o : Outline} (ho : o ∈ Outline.all) {t : List Char} {cs : Captures} :
    o.rule.form.Fits t cs ↔ ∃ x : Expression, x.IsFormed ∧ x.outline = o ∧ Joined t x.parts ∧
      cs = some t :: x.captures := by
  have hspaced : ∀ ds, (Form.spaced o.parts).Fits t ds ↔ _ := fun ds =>
    Form.fits_spaced_iff (Outline.mem_all_iff.mp ho) (fun f hf w cs => isMadeOf_of_fits hf)
  simp only [Rule.form, Outline.rule, Form.Fits, hspaced]
  constructor
  · rintro ⟨ds, ⟨ws, hws, hfit⟩, rfl⟩
    obtain ⟨x, hx, houtline, rfl, rfl⟩ := (fitWords_parts_iff hws.ne_nil).mp hfit
    exact ⟨x, hx, houtline, hws, rfl⟩
  · rintro ⟨x, hx, houtline, hws, rfl⟩
    exact ⟨_, ⟨x.parts, hws, (fitWords_parts_iff hws.ne_nil).mpr ⟨x, hx, houtline, rfl, rfl⟩⟩, rfl⟩

/-- The outline of an expression that can be written is one of a rule. -/
theorem IsFormed.outline_mem_all {x : Expression} (hx : x.IsFormed) : x.outline ∈ Outline.all := by
  have hfit := (fitWords_parts_iff hx.parts_ne_nil).mpr ⟨x, hx, rfl, rfl, rfl⟩
  refine Outline.mem_all_iff.mpr fun hnil => hx.parts_ne_nil (List.length_eq_zero_iff.mp ?_)
  rw [hfit.length_eq, hnil, List.length_nil]

/-- The words of a text are those of one expression at most. -/
theorem eq_of_joined {x y : Expression} (hx : x.IsFormed) (hy : y.IsFormed) {t : List Char}
    (hxt : Joined t x.parts) (hyt : Joined t y.parts) : x = y := by
  have hparts : x.parts = y.parts := hxt.spaced.words_eq.symm.trans hyt.spaced.words_eq
  refine Option.some.inj ?_
  rw [← ofWords?_parts hx, hparts, ofWords?_parts hy]

/-- **A text that fits two rules fits one**, with the same captures. -/
theorem eq_of_fits {o o' : Outline} (ho : o ∈ Outline.all) (ho' : o' ∈ Outline.all)
    {t : List Char} {cs cs' : Captures} (h : o.rule.form.Fits t cs)
    (h' : o'.rule.form.Fits t cs') : o = o' ∧ cs = cs' := by
  obtain ⟨x, hx, rfl, hxt, rfl⟩ := (fits_rule_iff ho).mp h
  obtain ⟨y, hy, rfl, hyt, rfl⟩ := (fits_rule_iff ho').mp h'
  obtain rfl := eq_of_joined hx hy hxt hyt
  exact ⟨rfl, rfl⟩

end Expression

end Timetable
