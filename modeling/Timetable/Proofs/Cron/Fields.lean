import Timetable.Proofs.Cron.Reading
import Timetable.Proofs.Cron.TimeFields

/-!
Time fields that are written can be read.

The writer and the reader of a field meet in the numbers that the text of a field
inserts. A number inserts itself, a run inserts its numbers, and a list inserts
what its parts insert, one after another. So a field inserts the members of the
selection that it was written for, and an empty selection then has these members.
The days of the week are counted from Sunday in between.
-/

set_option autoImplicit false

namespace Timetable

/-- An event as it is read from the time fields of another one, or merged from its intervals: the
fields agree, it is second 0, and the year is free. -/
structure Event.IsReadOf (e' e : Event) : Prop where
  minute : e'.minute.Agrees e.minute
  hour : e'.hour.Agrees e.hour
  day : e'.day.Agrees e.day
  month : e'.month.Agrees e.month
  weekday : e'.weekday.Agrees e.weekday
  second : e'.second = .ofList [0]
  year : e'.year = .any

namespace Cron

open Text Selection

variable {d : Domain}

/-! ## What a field inserts -/

/-- A text that, as a field, inserts some numbers. It begins with a digit. -/
structure Inserts (d : Domain) (t : List Char) (ns : List Nat) : Prop where
  digit : ∃ c rest, c.isDigit = true ∧ t = c :: rest
  insert : ∀ s s' : Selection d, ns.foldlM Selection.insert s = .ok s' →
    (t.splitOn ',').foldlM insertItem s = .ok s'

/-- Two texts with a comma between them insert what the first one does and then what the second one
does. -/
theorem Inserts.append_cons {t t' : List Char} {ns ns' : List Nat} (h : Inserts d t ns)
    (h' : Inserts d t' ns') : Inserts d (t ++ ',' :: t') (ns ++ ns') := by
  obtain ⟨c, rest, hc, rfl⟩ := h.digit
  refine ⟨⟨c, rest ++ ',' :: t', hc, rfl⟩, fun s s' hs => ?_⟩
  rw [List.foldlM_append] at hs
  obtain ⟨s₁, h₁, h₂⟩ := bind_eq_ok.mp hs
  rw [List.splitOn, List.splitOnP_append_cons _ _ (by simp), List.foldlM_append, bind_eq_ok]
  exact ⟨s₁, h.insert s s₁ h₁, h'.insert s₁ s' h₂⟩

/-- A list inserts what its parts insert. -/
theorem inserts_intercalate {α : Type} {f : α → List Char} {g : α → List Nat} {as : List α}
    (hne : as ≠ []) (h : ∀ a ∈ as, Inserts d (f a) (g a)) :
    Inserts d ([','].intercalate (as.map f)) (as.flatMap g) := by
  induction as with
  | nil => exact absurd rfl hne
  | cons a as ih =>
    cases as with
    | nil => simpa using h a (by simp)
    -- only between two parts there is a comma
    | cons b bs =>
      have hrest := ih (by simp) fun x hx => h x (by simp [hx])
      simpa [List.intercalate_cons_cons] using (h a (by simp)).append_cons hrest

/-! ## Numbers and runs -/

section Number

variable {t t' : List Char} {n m : Nat}

/-- A number inserts itself. -/
theorem inserts_number (h : IsNumber t n) : Inserts d t [n] := by
  refine ⟨h.exists_eq_cons, fun s s' hs => ?_⟩
  have hinsert : s.insert n = .ok s' := by simpa using hs
  have hitem : insertItem s t = .ok s' :=
    insertItem_eq_ok_iff.mpr ⟨.number n, .number (.inl h), hinsert⟩
  rw [splitOn_of_notMem (h.notMem (by decide)), List.foldlM_cons, bind_eq_ok]
  exact ⟨s', hitem, rfl⟩

/-- Two numbers of the domain with a dash between them insert all numbers from one to the
other. -/
theorem inserts_range (h : IsNumber t n) (h' : IsNumber t' m)
    (hn : d.holds n = true) (hm : d.holds m = true) :
    Inserts d (t ++ '-' :: t') (List.range' n (m + 1 - n)) := by
  obtain ⟨c, rest, hc, ht⟩ := h.exists_eq_cons
  refine ⟨⟨c, rest ++ '-' :: t', hc, by rw [ht]; rfl⟩, fun s s' hs => ?_⟩
  -- neither number has a comma in it, so the field is one item
  have hcomma : ',' ∉ t ++ '-' :: t' := by
    simp [h.notMem (by decide : ','.isDigit = false), h'.notMem (by decide : ','.isDigit = false)]
  have hspelled : Item.Spelled ['-'] Reads (t ++ ['-'] ++ t') (.range n m) :=
    .range (.inl h) (.inl h')
  rw [List.append_assoc, List.singleton_append] at hspelled
  have hitem : insertItem s (t ++ '-' :: t') = .ok s' :=
    insertItem_eq_ok_iff.mpr
      ⟨.range n m, hspelled, insertRange_eq_ok_iff.mpr ⟨fun _ => ⟨hn, hm⟩, hs⟩⟩
  rw [splitOn_of_notMem hcomma, List.foldlM_cons, bind_eq_ok]
  exact ⟨s', hitem, rfl⟩

end Number

/-- **A run inserts its numbers.** -/
theorem inserts_runText {r : Run} (hr : r.IsOrdered) (hd : d.hi < wordLimit)
    (hholds : ∀ n ∈ r.toList, d.holds n = true) : Inserts d (runText r).toList r.toList := by
  have hfirst : r.first ∈ r.toList := by
    simp only [Run.toList, Run.length, List.mem_range'_1]
    omega
  have hlast : r.last ∈ r.toList := by
    simp only [Run.IsOrdered] at hr
    simp only [Run.toList, Run.length, List.mem_range'_1]
    omega
  -- the ends of a run are written with two digits at least, which read as the same numbers
  have hone := isNumber_twoDigits (lt_wordLimit_of_holds (hholds _ hfirst) hd)
  have htwo := isNumber_twoDigits (lt_wordLimit_of_holds (hholds _ hlast) hd)
  simp only [Run.IsOrdered] at hr
  rw [runText]
  split
  · next hlength =>
    have hlist : r.toList = [r.first] := by simp [Run.toList, Run.length, hlength]
    simpa [hlist] using inserts_number (d := d) hone
  · next hlength =>
    have hlist : r.toList = [r.first] ++ [r.last] := by
      have hsucc : r.first + 1 = r.last := by omega
      simp [Run.toList, Run.length, hlength, List.range'_succ, hsucc]
    simpa [hlist] using (inserts_number (d := d) hone).append_cons (inserts_number htwo)
  -- three numbers or more are written as a range
  · have hrange := inserts_range hone htwo (hholds _ hfirst) (hholds _ hlast)
    have hlist : r.toList = List.range' r.first (r.last + 1 - r.first) := by
      rw [Run.toList, Run.length]
      congr 1
      omega
    simpa [hlist] using hrange

/-! ## Fields -/

/-- A field that inserts numbers begins with a digit, so it is no star. -/
theorem Inserts.ne_star {t : List Char} {ns : List Nat} (h : Inserts d t ns) : t ≠ ['*'] := by
  obtain ⟨c, rest, hc, rfl⟩ := h.digit
  rintro heq
  rw [(List.cons.inj heq).1] at hc
  exact absurd hc (by decide)

/-- A field that inserts numbers of the domain is read as a selection of these numbers. -/
theorem Inserts.exists_readField {t : List Char} {ns : List Nat} (h : Inserts d t ns)
    (hd : d.width < wordLimit) (hns : ∀ n ∈ ns, d.holds n = true) :
    ∃ s, readField d t = .ok s ∧ s.Reached ∧ ∀ n, n ∈ s.members ↔ n ∈ ns := by
  obtain ⟨s, hs, hreached, hmembers⟩ := Reached.any.exists_foldlM_insert hd hns
  refine ⟨s, ?_, hreached, fun n => by simp [hmembers]⟩
  rw [readField, beq_eq_false_iff_ne.mpr h.ne_star]
  exact h.insert .any s hs

theorem readField_star : readField d "*".toList = .ok .any :=
  rfl

/-- **The field of a selection inserts its members**, if there are any. -/
theorem inserts_fieldText {s : Selection d} (hs : s.Reached) (hp : s.isPopulated = true)
    (hd : d.hi < wordLimit) : Inserts d (fieldText s).toList s.members := by
  obtain ⟨hordered, hnumbers⟩ := Run.ofMembers_spec s.members
  have hholds : ∀ r ∈ s.runs, ∀ n ∈ r.toList, d.holds n = true := by
    intro r hr n hn
    exact hs.holds (hnumbers ▸ List.mem_flatMap_of_mem hr hn)
  have hne : s.runs ≠ [] := fun h => hs.members_ne_nil hp (ofMembers_eq_nil h)
  have hruns := inserts_intercalate (f := fun r => (runText r).toList) hne fun r hr =>
    inserts_runText (hordered r hr) hd (hholds r hr)
  rw [runs, hnumbers] at hruns
  simpa [fieldText, hp, String.toList_intercalate, Function.comp_def, runs] using hruns

/-- **A field is read as what it was written for.** -/
theorem exists_readField_fieldText {s : Selection d} (hs : s.Reached) (hd : d.hi + 1 < wordLimit) :
    ∃ s', readField d (fieldText s).toList = .ok s' ∧ s'.Agrees s := by
  by_cases hp : s.isPopulated = true
  · have hinserts := inserts_fieldText hs hp (by omega)
    have hwidth : d.width < wordLimit := by
      rw [Domain.width]
      omega
    obtain ⟨s', hread, hreached, hmembers⟩ :=
      hinserts.exists_readField hwidth fun n hn => hs.holds hn
    exact ⟨s', hread, agrees_of_mem_iff hreached hs hmembers⟩
  -- nothing is stored, and the field is a star
  · cases s with
    | any => exact ⟨.any, readField_star, rfl, rfl⟩
    | one n => exact absurd rfl hp
    | many flags => exact absurd rfl hp

/-! ## The day of the week -/

/-- What is read for a day of the week, counted as an event counts it, is that day. -/
theorem mem_eventWeekdays_iff {s : Selection (Component.domain .weekday)} (hs : s.Reached)
    {days : Selection weekDomain}
    (hdays : ∀ k, k ∈ days.members ↔ k ∈ s.members.map daySinceSunday) (n : Nat) :
    n ∈ (eventWeekdays days).members ↔ n ∈ s.members := by
  have hholds : ∀ m ∈ s.members, 1 ≤ m ∧ m ≤ 7 := fun m hm => holds_iff.mp (hs.holds hm)
  rw [eventWeekdays, mem_members_ofList (by decide), List.mem_map]
  constructor
  · rintro ⟨⟨k, hk, rfl⟩, -⟩
    obtain ⟨m, hm, rfl⟩ := List.mem_map.mp ((hdays k).mp hk)
    -- the seventh day is written as 0, which is read as the seventh day
    have hback : (if daySinceSunday m = 0 then 7 else daySinceSunday m) = m := by
      have := hholds m hm
      unfold daySinceSunday
      split <;> omega
    rwa [hback]
  · intro hn
    refine ⟨⟨daySinceSunday n, (hdays _).mpr (List.mem_map_of_mem hn), ?_⟩, hs.holds hn⟩
    have := hholds n hn
    unfold daySinceSunday
    split <;> omega

/-- **The field of the days of the week inserts them**, counted from Sunday, if there are any. -/
theorem inserts_weekdayText {s : Selection d} (hs : s.Reached) (hp : s.isPopulated = true) :
    Inserts weekDomain (weekdayText s).toList (s.members.map daySinceSunday) := by
  have hday : ∀ n ∈ s.members, Inserts weekDomain (decimal (daySinceSunday n))
      [daySinceSunday n] := by
    intro n _
    have hsmall : daySinceSunday n < 7 := Nat.mod_lt n (by decide)
    exact inserts_number (isNumber_decimal (hsmall.trans (by decide)))
  have hdays := inserts_intercalate (hs.members_ne_nil hp) hday
  simpa [weekdayText, hp, String.toList_intercalate, Function.comp_def, decimal,
    ← List.map_eq_flatMap] using hdays

/-- **The days of the week are read as they were written.** -/
theorem exists_readField_weekdayText {s : Selection (Component.domain .weekday)}
    (hs : s.Reached) :
    ∃ days, readField weekDomain (weekdayText s).toList = .ok days ∧
      (eventWeekdays days).Agrees s := by
  by_cases hp : s.isPopulated = true
  · have hholds : ∀ k ∈ s.members.map daySinceSunday, weekDomain.holds k = true := by
      intro k hk
      obtain ⟨n, -, rfl⟩ := List.mem_map.mp hk
      have hsmall : daySinceSunday n < 7 := Nat.mod_lt n (by decide)
      simp [Domain.holds, weekDomain, Nat.le_of_lt hsmall]
    obtain ⟨days, hread, -, hdays⟩ :=
      (inserts_weekdayText hs hp).exists_readField (by decide) hholds
    exact ⟨days, hread, agrees_of_mem_iff (reached_ofList _) hs (mem_eventWeekdays_iff hs hdays)⟩
  · cases s with
    | any => exact ⟨.any, readField_star, rfl, rfl⟩
    | one n => exact absurd rfl hp
    | many flags => exact absurd rfl hp

/-! ## All five fields -/

/-- The characters of time fields are no blanks. -/
theorem isBlank_of_isTimeChar {c : Char} (h : isTimeChar c = true) : isBlank c = false :=
  isBlank_of_class (by decide +kernel) h

theorem readNamed_eq_ok {t : List Char} {s : Selection d} (h : readField d t = .ok s) :
    readNamed d t = .ok s := by
  rw [readNamed, h]

/-- The words of the written fields are the fields. -/
theorem words_timeFields {e : Event} (he : e.Reached) :
    words (timeFields e).toList = (fieldTexts e).map String.toList := by
  rw [timeFields, String.toList_intercalate]
  refine (spaced_intercalate fun w hw => ?_).words_eq
  obtain ⟨f, hf, rfl⟩ := List.mem_map.mp hw
  -- a field has no blank in it, so the words are the fields
  have htime : IsTimeField f.toList :=
    (isTimeField_of_mem_fieldTexts hf).resolve_right fun h => h.2 he
  exact htime.mono fun c hc => by simp [isBlank_of_isTimeChar hc]

/-- **Time fields are read as they were written.** -/
theorem exists_readFields_timeFields {e : Event} (he : e.Reached) :
    ∃ e', readFields (timeFields e).toList = .ok e' ∧ e'.IsReadOf e := by
  obtain ⟨minute, hminute, hminute'⟩ := exists_readField_fieldText (he .minute) (by decide)
  obtain ⟨hour, hhour, hhour'⟩ := exists_readField_fieldText (he .hour) (by decide)
  obtain ⟨day, hday, hday'⟩ := exists_readField_fieldText (he .day) (by decide)
  obtain ⟨month, hmonth, hmonth'⟩ := exists_readField_fieldText (he .month) (by decide)
  obtain ⟨days, hdays, hdays'⟩ := exists_readField_weekdayText (he .weekday)
  refine ⟨{ minute, hour, day, month, weekday := eventWeekdays days, second := .ofList [0] }, ?_,
    hminute', hhour', hday', hmonth', hdays', rfl, rfl⟩
  simp only [readFields, words_timeFields he, fieldTexts, List.map_cons, List.map_nil, bind_eq_ok,
    pure_eq_ok]
  exact ⟨minute, readNamed_eq_ok hminute, hour, readNamed_eq_ok hhour, day, readNamed_eq_ok hday,
    month, readNamed_eq_ok hmonth, days, readNamed_eq_ok hdays, rfl⟩

/-! ## Writing again what was read -/

/-- The field of a selection shows nothing but the numbers that it takes. -/
theorem fieldText_congr {d' : Domain} {s : Selection d} {s' : Selection d'} (h : s.Agrees s') :
    fieldText s = fieldText s' := by
  rw [fieldText, fieldText, runs, runs, h.members, h.isPopulated]

theorem weekdayText_congr {d' : Domain} {s : Selection d} {s' : Selection d'} (h : s.Agrees s') :
    weekdayText s = weekdayText s' := by
  rw [weekdayText, weekdayText, h.members, h.isPopulated]

/-- An event that is read from the fields of another one has the same fields. -/
theorem timeFields_congr {e e' : Event} (h : e'.IsReadOf e) : timeFields e' = timeFields e := by
  rw [timeFields, timeFields, fieldText_congr h.minute, fieldText_congr h.hour,
    fieldText_congr h.day, fieldText_congr h.month, weekdayText_congr h.weekday]

/-- **Time fields decode to the event that they were written from.** The fields of every event that
operations lead to can be read. What is read has the members of the event in minute, hour, day,
month and weekday, which are free exactly where they are free in the event; it comes at second 0 of
every year, and its fields are written with the same text. -/
theorem readFields_timeFields {e : Event} (he : e.Reached) :
    ∃ e', readFields (timeFields e).toList = .ok e' ∧ e'.IsReadOf e ∧
      timeFields e' = timeFields e := by
  obtain ⟨e', hread, hagrees⟩ := exists_readFields_timeFields he
  exact ⟨e', hread, hagrees, timeFields_congr hagrees⟩

/-- Single hours, a pair and a run of them, and a Sunday among the days of the week. -/
theorem readFields_timeFields_weekend :
    let e : Event :=
      { weekday := .ofList [7, 6, 1], year := .one 2026, hour := .ofList [10, 11, 14, 15, 16, 20],
        minute := .one 5, second := .ofList [30, 45] }
    e.Reached ∧ timeFields e = "05 10,11,14-16,20 * * 1,6,0" ∧
      ∃ e', readFields "05 10,11,14-16,20 * * 1,6,0".toList = .ok e' ∧ e'.IsReadOf e ∧
        timeFields e' = "05 10,11,14-16,20 * * 1,6,0" := by
  intro e
  have he : e.Reached := by
    intro c
    cases c with
    | day | month => exact .any
    | weekday | hour | second => exact reached_ofList _
    | year | minute => exact reached_one (by decide) (by decide)
  have htext : timeFields e = "05 10,11,14-16,20 * * 1,6,0" := by decide
  exact ⟨he, htext, htext ▸ readFields_timeFields he⟩

end Cron

end Timetable
