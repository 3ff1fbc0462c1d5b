import Mathlib.Logic.Relator
import Timetable.Proofs.Cron.Reading

/-!
The language of time fields.

Which lines are read, what they mean and how the others are refused is told
without a reader. A line has five fields. Each is a star or a list of items, and a
list can be understood in one way only, because no number has a comma or a dash in
it. A field names the numbers of its items; a range with its ends in the wrong
order has none, and as a day of the week 0 is Sunday as much as 7. The event that
is read has these numbers and no others in each of its components. A line that is
refused has another number of fields, or there is a first field that is neither a
star nor a list of items that are taken, and the error shows it.
-/

set_option autoImplicit false

namespace Timetable

open Text Selection

/-! ## Lists are understood in one way -/

/-- An item is understood in one way if its numbers are and none of them has the mark in it. -/
theorem Item.Spelled.unique {c : Char} {L : List Char → Nat → Prop}
    (hL : Relator.RightUnique L) (hmark : ∀ t n, L t n → c ∉ t) {t : List Char} {i j : Item}
    (hi : Item.Spelled [c] L t i) (hj : Item.Spelled [c] L t j) : i = j := by
  have hsplit : ∀ u v : List Char, u ++ [c] ++ v = u ++ c :: v := by simp
  -- a number has no mark in it, and a range has exactly one
  cases hi with
  | number hn =>
    generalize ht : t = t' at hj
    cases hj with
    | number hm => rw [hL hn (ht ▸ hm)]
    | range => exact absurd (ht ▸ by simp) (hmark _ _ hn)
  | @range u v a b ha hb =>
    generalize ht : u ++ [c] ++ v = t' at hj
    cases hj with
    | number hm => exact absurd (ht ▸ by simp) (hmark _ _ hm)
    | @range u' v' a' b' ha' hb' =>
      rw [hsplit, hsplit] at ht
      obtain ⟨rfl, rfl⟩ := append_cons_inj_left (hmark _ _ ha) (hmark _ _ ha') ht
      rw [hL ha ha', hL hb hb']

/-- A list is understood in one way if each of its pieces is. -/
theorem Listing.unique {P : List Char → Option Item → Prop}
    (hP : Relator.RightUnique P) {l : List Char} {is js : List Item} (hi : Listing P l is)
    (hj : Listing P l js) : is = js := by
  obtain ⟨os, hos, rfl⟩ := hi
  obtain ⟨os', hos', rfl⟩ := hj
  rw [hP.forall₂ hos hos']

namespace Cron

variable {c : Component} {f t : List Char} {n : Nat}

/-- A number of a field is digits, with a plus sign in front of them or not, that are worth a number
of 32 bits. -/
theorem reads_iff : Reads t n ↔
    ∃ ds, (t = ds ∨ t = '+' :: ds) ∧ IsDecimal ds n ∧ n < wordLimit := by
  rw [Reads, isNumber_iff]
  simp only [isNumber_iff]
  constructor
  · rintro (h | ⟨ds, ht, h⟩)
    · exact ⟨t, .inl rfl, h⟩
    · exact ⟨ds, .inr ht, h⟩
  · rintro ⟨ds, rfl | ht, h⟩
    · exact .inl h
    · exact .inr ⟨ds, ht, h⟩

/-- A text is a number of a field in one way only: it is what the reader makes of it. -/
theorem rightUnique_reads : Relator.RightUnique Reads := by
  intro t n m hn hm
  have hboth := (readNumber_eq_ok_iff.mpr hn).symm.trans (readNumber_eq_ok_iff.mpr hm)
  exact Except.ok.inj hboth

/-- A field lists its items in one way only. -/
theorem Lists.unique {is js : List Item} (hi : Lists f is) (hj : Lists f js) : is = js := by
  refine Listing.unique (fun t o o' h h' => ?_) hi hj
  obtain ⟨i, rfl, hi⟩ := h
  obtain ⟨j, rfl, hj⟩ := h'
  exact congrArg some (hi.unique rightUnique_reads (fun _ _ hn => hn.notMem) hj)

/-! ## What a field says -/

/-- A field as it may stand for a component: a star, or a list of items that are taken. -/
def IsField (c : Component) (f : List Char) : Prop :=
  f = ['*'] ∨ ∃ items, Lists f items ∧ ∀ i ∈ items, i.IsTaken (fieldDomain c)

/-- A number of a field as an event counts it: as a day of the week, 0 is Sunday. -/
def eventNumber : Component → Nat → Nat
  | .weekday, 0 => 7
  | _, n => n

/-- The numbers of an event that a field names for a component. -/
def Names (c : Component) (f : List Char) (n : Nat) : Prop :=
  ∃ items, Lists f items ∧ ∃ i ∈ items, ∃ m ∈ i.numbers, eventNumber c m = n

/-- A field can be read exactly if it is one of the language. -/
theorem exists_fills_iff : (∃ s, Fills (fieldDomain c) f s) ↔ IsField c f := by
  constructor
  · rintro ⟨s, ⟨hstar, -⟩ | ⟨items, hlists, htaken, -⟩⟩
    · exact .inl hstar
    · exact .inr ⟨items, hlists, htaken⟩
  · rintro (hstar | ⟨items, hlists, htaken⟩)
    · exact ⟨.any, .inl ⟨hstar, rfl⟩⟩
    · exact ⟨_, .inr ⟨items, hlists, htaken, rfl⟩⟩

/-- The numbers that a field names are those of its items. -/
theorem names_iff {items : List Item} (h : Lists f items) :
    Names c f n ↔ ∃ i ∈ items, ∃ m ∈ i.numbers, eventNumber c m = n := by
  constructor
  · rintro ⟨items', h', hn⟩
    rwa [h.unique h']
  · exact fun hn => ⟨items, h, hn⟩

/-- A star names no number; it stands for all of them. -/
theorem not_names_star : ¬ Names c ['*'] n :=
  fun ⟨_, h, _⟩ => not_lists_star h

section Fills

variable {s : Selection (fieldDomain c)} (h : Fills (fieldDomain c) f s)

include h

/-- What is read from a field has the numbers that are inserted, before they are counted as an event
counts them. -/
theorem Fills.names_iff_mem : Names c f n ↔ ∃ m ∈ s.members, eventNumber c m = n := by
  obtain ⟨rfl, rfl⟩ | ⟨items, hlists, htaken, rfl⟩ := id h
  · simp [not_names_star]
  -- what is inserted from a list are its numbers, which the domain holds
  · have hwidth : (fieldDomain c).width < wordLimit := by cases c <;> decide
    have hholds : ∀ m ∈ items.flatMap Item.numbers, (fieldDomain c).holds m = true := by
      intro m hm
      obtain ⟨i, hi, hm⟩ := List.mem_flatMap.mp hm
      exact (htaken i hi).holds hm
    rw [names_iff hlists]
    simp only [(inserted_spec hwidth hholds).2, List.mem_flatMap]
    constructor
    · rintro ⟨i, hi, m, hm, rfl⟩
      exact ⟨m, ⟨i, hi, hm⟩, rfl⟩
    · rintro ⟨m, ⟨i, hi, hm⟩, rfl⟩
      exact ⟨i, hi, m, hm, rfl⟩

/-- What is read of a field is reached by insertions. -/
theorem Fills.reached_ofField : (ofField c s).Reached := by
  have hs := h.reached
  cases c with
  | weekday => exact reached_ofList _
  | _ => exact hs

/-- **A component has the numbers that its field names.** -/
theorem Fills.contains_iff_names : (ofField c s).contains n = true ↔ Names c f n := by
  have hs := h.reached
  rw [h.names_iff_mem, contains_iff]
  -- Sunday may be 0 or 7 in the field, and it is 7 in the event
  cases c with
  | weekday =>
    have hday : ∀ m, (if m = 0 then 7 else m) = eventNumber .weekday m := by
      intro m
      cases m <;> rfl
    have hholds : ∀ m ∈ s.members, (Component.domain .weekday).holds (eventNumber .weekday m) := by
      intro m hm
      have hends : 0 ≤ m ∧ m ≤ 7 := holds_iff.mp (hs.holds hm)
      rw [← hday]
      refine holds_iff.mpr ?_
      show 1 ≤ _ ∧ _ ≤ 7
      split <;> omega
    have hmem : n ∈ (eventWeekdays s).members ↔ _ := mem_members_ofList (by decide)
    refine hmem.trans ?_
    simp only [List.mem_map, hday]
    constructor
    · exact fun hn => hn.1
    · rintro ⟨m, hm, rfl⟩
      exact ⟨⟨m, hm, rfl⟩, hholds m hm⟩
  | _ => exact ⟨fun hn => ⟨n, hn, rfl⟩, fun ⟨_, hm, hn⟩ => hn ▸ hm⟩

/-- A component is free exactly if its field names no number. -/
theorem Fills.ofField_eq_any_iff : ofField c s = .any ↔ ∀ n, ¬ Names c f n := by
  simp only [← h.contains_iff_names, contains_iff]
  rw [← isPopulated_eq_false_iff, ← Bool.not_eq_true, h.reached_ofField.isPopulated_iff, not_not,
    List.eq_nil_iff_forall_not_mem]

end Fills

/-! ## Lines that are refused -/

/-- The reader of one field takes exactly the language. -/
theorem exists_readNamed_iff : (∃ s, readNamed (fieldDomain c) f = .ok s) ↔ IsField c f := by
  simp only [readNamed_eq_ok_iff, exists_fills_iff]

/-- The error of a field shows the field. -/
theorem of_readNamed_eq_error {err : FieldsError} (h : readNamed (fieldDomain c) f = .error err) :
    ¬ IsField c f ∧ ∃ fault, err = .field (String.ofList f) fault := by
  constructor
  · rw [← exists_readNamed_iff, h]
    rintro ⟨s, hs⟩
    cases hs
  · rw [readNamed] at h
    split at h
    · cases h
    · next fault _ => exact ⟨fault, (Except.error.inj h).symm⟩

/-- The first field of some that is refused, and the error for it. -/
def RefusedAt (field : Component → List Char) (cs : List Component) (err : FieldsError) : Prop :=
  ∃ before c after fault, cs = before ++ c :: after ∧ (∀ d ∈ before, IsField d (field d)) ∧
    ¬ IsField c (field c) ∧ err = .field (String.ofList (field c)) fault

/-- One field more in front: it is refused, or it is not and one behind it is. -/
theorem RefusedAt.of_bind {α : Type} {field : Component → List Char} {cs : List Component}
    {err : FieldsError} {next : Selection (fieldDomain c) → Except FieldsError α}
    (h : readNamed (fieldDomain c) (field c) >>= next = .error err)
    (hnext : ∀ s, next s = .error err → RefusedAt field cs err) :
    RefusedAt field (c :: cs) err := by
  obtain h | ⟨s, hs, h⟩ := bind_eq_error.mp h
  · obtain ⟨hrefused, fault, herr⟩ := of_readNamed_eq_error h
    exact ⟨[], c, cs, fault, rfl, by simp, hrefused, herr⟩
  · obtain ⟨before, d, after, fault, rfl, hbefore, hrefused, herr⟩ := hnext s h
    have hfirst : IsField c (field c) := exists_readNamed_iff.mp ⟨s, hs⟩
    exact ⟨c :: before, d, after, fault, rfl, List.forall_mem_cons.mpr ⟨hfirst, hbefore⟩,
      hrefused, herr⟩

/-- A refused line has another number of fields, or a field that is refused behind accepted ones. -/
theorem of_readFields_eq_error {line : List Char} {err : FieldsError}
    (h : readFields line = .error err) :
    (∃ ws, Spaced line ws ∧ ws.length ≠ 5 ∧
      err = .count ws.length (String.ofList (trim line))) ∨
    ∃ field : Component → List Char, Spaced line (fieldOrder.map field) ∧
      RefusedAt field fieldOrder err := by
  unfold readFields at h
  split at h
  · next minute hour day month weekday hwords =>
    let field : Component → List Char
      | .minute => minute
      | .hour => hour
      | .day => day
      | .month => month
      | _ => weekday
    refine .inr ⟨field, words_eq_iff.mp hwords, ?_⟩
    -- the fields are read from left to right
    refine .of_bind (c := .minute) h fun _ h => ?_
    refine .of_bind (c := .hour) h fun _ h => ?_
    refine .of_bind (c := .day) h fun _ h => ?_
    refine .of_bind (c := .month) h fun _ h => ?_
    refine .of_bind (c := .weekday) h fun _ h => ?_
    cases h
  · next hfive =>
    refine .inl ⟨_, spaced_words line, fun hlength => ?_, (Except.error.inj h).symm⟩
    generalize hwords : words line = ws at hlength
    match ws, hlength with
    | [minute, hour, day, month, weekday], _ => exact hfive minute hour day month weekday hwords

/-! ## The language -/

/-- **The language of time fields.** A line is read if and only if it has five fields and each of
them is a star or a list of items that are taken. The event that is read comes in every year at
second 0, and each component has exactly the numbers that its field names; it is free exactly if the
field names none. A line that is refused has another number of words, which the error counts, or
else the error shows the first of its five fields that cannot stand there. A number is digits, with
a plus sign in front of them or not, that are worth a number of 32 bits. -/
theorem readFields_language (line : List Char) :
    ((∃ e, readFields line = .ok e) ↔ ∃ field : Component → List Char,
      Spaced line (fieldOrder.map field) ∧ ∀ c ∈ fieldOrder, IsField c (field c)) ∧
    (∀ e, readFields line = .ok e → ∃ field : Component → List Char,
      Spaced line (fieldOrder.map field) ∧ e.year = .any ∧ e.second = .one 0 ∧
      ∀ c ∈ fieldOrder, (∀ n, (e.get c).contains n = true ↔ Names c (field c) n) ∧
        (e.get c = .any ↔ ∀ n, ¬ Names c (field c) n)) ∧
    (∀ err, readFields line = .error err →
      (∃ ws, Spaced line ws ∧ ws.length ≠ 5 ∧
        err = .count ws.length (String.ofList (trim line))) ∨
      ∃ field : Component → List Char, Spaced line (fieldOrder.map field) ∧
        RefusedAt field fieldOrder err) ∧
    ∀ t n, Reads t n ↔ ∃ ds, (t = ds ∨ t = '+' :: ds) ∧ IsDecimal ds n ∧ n < wordLimit := by
  refine ⟨?_, fun e he => ?_, fun err => of_readFields_eq_error, fun t n => reads_iff⟩
  · simp only [exists_readFields_iff, exists_fills_iff]
  · obtain ⟨field, hspaced, hfields, hyear, hsecond⟩ := readFields_eq_ok_iff.mp he
    refine ⟨field, hspaced, hyear, hsecond, fun c hc => ?_⟩
    obtain ⟨s, hs, hget⟩ := hfields c hc
    rw [hget]
    exact ⟨fun n => hs.contains_iff_names, hs.ofField_eq_any_iff⟩

/-- A range with its ends in the wrong order leaves its field free, and 0 is Sunday. Of two fields
that cannot stand where they are the error shows the first, and four fields are counted. -/
theorem readFields_language_sunday :
    (∃ e, readFields "5,+10-12 * 20-10 * 0".toList = .ok e ∧ e.weekday = .one 7 ∧
      ∃ field : Component → List Char,
        Spaced "5,+10-12 * 20-10 * 0".toList (fieldOrder.map field) ∧ e.year = .any ∧
        e.second = .one 0 ∧
        ∀ c ∈ fieldOrder, (∀ n, (e.get c).contains n = true ↔ Names c (field c) n) ∧
          (e.get c = .any ↔ ∀ n, ¬ Names c (field c) n)) ∧
    (∃ field : Component → List Char, Spaced "1 24 * 32 *".toList (fieldOrder.map field) ∧
      RefusedAt field fieldOrder (.field "24" (.refused (.outOfRange 24 ⟨0, 23⟩)))) ∧
    ∃ ws, Spaced "0 12 * *".toList ws ∧ ws.length ≠ 5 := by
  refine ⟨?_, ?_, ?_⟩
  · have hread : readFields "5,+10-12 * 20-10 * 0".toList = .ok
        { minute := .ofList [5, 10, 11, 12], weekday := .one 7, second := .one 0 } :=
      rfl
    exact ⟨_, hread, rfl, (readFields_language _).2.1 _ hread⟩
  · have hread : readFields "1 24 * 32 *".toList =
        .error (.field "24" (.refused (.outOfRange 24 ⟨0, 23⟩))) :=
      rfl
    obtain ⟨ws, -, -, hcount⟩ | hrefused := (readFields_language _).2.2.1 _ hread
    · cases hcount
    · exact hrefused
  · have hread : readFields "0 12 * *".toList = .error (.count 4 "0 12 * *") :=
      rfl
    obtain ⟨ws, hspaced, hne, -⟩ | ⟨field, -, before, c, after, fault, -, -, -, herr⟩ :=
      (readFields_language _).2.2.1 _ hread
    · exact ⟨ws, hspaced, hne⟩
    · cases herr

end Cron

end Timetable
