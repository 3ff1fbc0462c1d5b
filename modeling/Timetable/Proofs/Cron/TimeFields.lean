import Timetable.Cron.Removal
import Timetable.Proofs.Event
import Timetable.Proofs.Text.Blank
import Timetable.Proofs.Text.Numeral

/-!
The time fields that are written.

The text of an event's five fields has nothing in it but characters of time
fields and single blanks between the fields. In particular there is neither a tab
nor a line end in it. For an event that operations lead to, no field is empty,
because a selection with something in it has members and members have runs.
-/

set_option autoImplicit false

namespace Timetable

namespace Cron

open Text

/-- A time field as it may stand in a line: at least one character, all of time fields. -/
abbrev IsTimeField (f : List Char) : Prop :=
  IsMadeOf isTimeChar f

/-! ## Numbers and runs -/

/-- Every digit of a number may stand in a time field. -/
theorem isTimeChar_of_isDigit {c : Char} (h : c.isDigit = true) : isTimeChar c = true := by
  simp [isTimeChar, isDecimalDigit, h]

/-- A number makes a time field. -/
theorem isTimeField_decimal (n : Nat) : IsTimeField (decimal n) :=
  ⟨decimal_ne_nil n, fun _ hc => isTimeChar_of_isDigit (isDigit_of_mem_decimal hc)⟩

/-- A number that is filled up makes one. -/
theorem isTimeField_twoDigits (n : Nat) : IsTimeField (twoDigits n) :=
  ⟨twoDigits_ne_nil n, fun _ hc => isTimeChar_of_isDigit (isDigit_of_mem_twoDigits hc)⟩

/-- So does a run, which is a number, two of them, or a range. -/
theorem isTimeField_runText (r : Run) : IsTimeField (runText r).toList := by
  have hfirst := isTimeField_twoDigits r.first
  have hlast := isTimeField_twoDigits r.last
  rw [runText]
  split
  · simpa using hfirst
  · simpa using hfirst.append_cons (c := ',') (by rfl) hlast
  · simpa using hfirst.append_cons (c := '-') (by rfl) hlast

/-! ## Fields -/

/-- What is written for a list of numbers or runs: a field, or nothing if the list is empty. -/
theorem isTimeField_of_list {α : Type} {f : α → String} (hf : ∀ a, IsTimeField (f a).toList)
    (as : List α) : as = [] ∨ IsTimeField (",".intercalate (as.map f)).toList := by
  -- the fields as characters, which is what the text is put together from
  have hall : ∀ t ∈ as.map (String.toList ∘ f), IsTimeField t := by
    rintro t ht
    obtain ⟨a, -, rfl⟩ := List.mem_map.mp ht
    exact hf a
  obtain hnil | hne := eq_or_ne as []
  · exact .inl hnil
  · have hfield := IsMadeOf.intercalate (c := ',') (by rfl) (by simpa using hne) hall
    exact .inr (by simpa [String.toList_intercalate] using hfield)

/-- The star is a time field. -/
theorem isTimeField_star : IsTimeField "*".toList :=
  ⟨by simp, by simp [isTimeChar]⟩

/-- A list of members falls into no runs only if it is empty. -/
theorem ofMembers_eq_nil {ns : List Nat} (h : Run.ofMembers ns = []) : ns = [] := by
  cases ns with
  | nil => rfl
  | cons n ns =>
    rw [Run.ofMembers, List.foldr_cons, Run.extend.eq_def] at h
    split at h
    · simp at h
    · split at h <;> simp at h

/-- The text of a selection is a field. It is empty only for a selection that no operations lead
to. -/
theorem isTimeField_fieldText {d : Domain} (s : Selection d) :
    IsTimeField (fieldText s).toList ∨ (fieldText s = "" ∧ ¬ s.Reached) := by
  rw [fieldText]
  split
  · next hp =>
    obtain hnil | hfield := isTimeField_of_list isTimeField_runText s.runs
    · exact .inr ⟨by simp [hnil], fun hs => hs.members_ne_nil hp (ofMembers_eq_nil hnil)⟩
    · exact .inl hfield
  · exact .inl isTimeField_star

/-- The field of the days of the week has characters, unless the selection has flags and none of
them is set; no reached one is like that. -/
theorem isTimeField_weekdayText {d : Domain} (s : Selection d) :
    IsTimeField (weekdayText s).toList ∨ (weekdayText s = "" ∧ ¬ s.Reached) := by
  rw [weekdayText]
  split
  · next hp =>
    have hday (n : Nat) : IsTimeField (toString (daySinceSunday n)).toList := by
      rw [Nat.toString_eq_ofList_toDigits, String.toList_ofList]
      exact isTimeField_decimal _
    obtain hnil | hfield := isTimeField_of_list hday s.members
    · exact .inr ⟨by simp [hnil], fun hs => hs.members_ne_nil hp hnil⟩
    · exact .inl hfield
  · exact .inl isTimeField_star

/-! ## All five fields -/

/-- The texts of the five fields of an event. -/
def fieldTexts (e : Event) : List String :=
  [fieldText e.minute, fieldText e.hour, fieldText e.day, fieldText e.month,
    weekdayText e.weekday]

/-- The same for all five fields. -/
theorem isTimeField_of_mem_fieldTexts {e : Event} {f : String} (hf : f ∈ fieldTexts e) :
    IsTimeField f.toList ∨ (f = "" ∧ ¬ e.Reached) := by
  have orelse {f : String} {p q : Prop} (h : IsTimeField f.toList ∨ (f = "" ∧ ¬ p))
      (hqp : q → p) : IsTimeField f.toList ∨ (f = "" ∧ ¬ q) :=
    h.imp_right fun ⟨hf, hp⟩ => ⟨hf, fun hq => hp (hqp hq)⟩
  simp only [fieldTexts, List.mem_cons, List.not_mem_nil, or_false] at hf
  rcases hf with rfl | rfl | rfl | rfl | rfl
  · exact orelse (isTimeField_fieldText e.minute) fun he => he .minute
  · exact orelse (isTimeField_fieldText e.hour) fun he => he .hour
  · exact orelse (isTimeField_fieldText e.day) fun he => he .day
  · exact orelse (isTimeField_fieldText e.month) fun he => he .month
  · exact orelse (isTimeField_weekdayText e.weekday) fun he => he .weekday

/-- The characters of time fields and the blanks between them are all there is in the text of an
event's fields. -/
theorem mem_timeFields {e : Event} {c : Char} (h : c ∈ (timeFields e).toList) :
    isTimeChar c = true ∨ c = ' ' := by
  have hfields : ∀ f ∈ fieldTexts e, c ∈ f.toList → isTimeChar c = true := by
    intro f hf hc
    obtain hfield | ⟨rfl, -⟩ := isTimeField_of_mem_fieldTexts hf
    · exact hfield.all c hc
    · simp at hc
  simp only [fieldTexts, List.mem_cons, List.not_mem_nil, or_false, forall_eq_or_imp,
    forall_eq] at hfields
  simp only [timeFields, String.toList_intercalate, List.map_cons, List.map_nil,
    List.intercalate_cons_cons, List.intercalate_singleton, List.mem_append] at h
  simp only [String.reduceToList, List.mem_singleton, or_assoc] at h
  obtain ⟨hminute, hhour, hday, hmonth, hweekday⟩ := hfields
  -- a character is in one of the fields, or it is one of the blanks between them
  rcases h with h | h | h | h | h | h | h | h | h
  · exact .inl (hminute h)
  · exact .inr h
  · exact .inl (hhour h)
  · exact .inr h
  · exact .inl (hday h)
  · exact .inr h
  · exact .inl (hmonth h)
  · exact .inr h
  · exact .inl (hweekday h)

/-- The time fields are on one line. -/
theorem newline_notMem_timeFields (e : Event) : '\n' ∉ (timeFields e).toList := by
  intro h
  obtain h | h := mem_timeFields h
  · exact absurd h (by decide)
  · exact absurd h (by decide)

/-- They have no tab, so the first tab of a written line ends them. -/
theorem tab_notMem_timeFields (e : Event) : '\t' ∉ (timeFields e).toList := by
  intro h
  obtain h | h := mem_timeFields h
  · exact absurd h (by decide)
  · exact absurd h (by decide)

/-- **The five fields.** The text of an event's fields is five time fields with single blanks
between them, if operations lead to the event. -/
theorem exists_timeFields {e : Event} (he : e.Reached) :
    ∃ f₁ f₂ f₃ f₄ f₅, (IsTimeField f₁ ∧ IsTimeField f₂ ∧ IsTimeField f₃ ∧ IsTimeField f₄ ∧
      IsTimeField f₅) ∧
      (timeFields e).toList =
        f₁ ++ ' ' :: (f₂ ++ ' ' :: (f₃ ++ ' ' :: (f₄ ++ ' ' :: f₅))) := by
  have hfields : ∀ f ∈ fieldTexts e, IsTimeField f.toList := fun f hf =>
    (isTimeField_of_mem_fieldTexts hf).resolve_right fun h => h.2 he
  simp only [fieldTexts, List.mem_cons, List.not_mem_nil, or_false, forall_eq_or_imp,
    forall_eq] at hfields
  exact ⟨_, _, _, _, _, hfields, by simp [timeFields]⟩

/-- The text of the fields begins with a character of a time field. -/
theorem exists_timeFields_eq_cons {e : Event} (he : e.Reached) :
    ∃ c rest, isTimeChar c = true ∧ (timeFields e).toList = c :: rest := by
  obtain ⟨f₁, _, _, _, _, ⟨h₁, -⟩, htime⟩ := exists_timeFields he
  obtain ⟨c, f, rfl⟩ := List.exists_cons_of_ne_nil h₁.ne_nil
  exact ⟨c, _, h₁.all c (by simp), by rw [htime, List.cons_append]⟩

end Cron

end Timetable
