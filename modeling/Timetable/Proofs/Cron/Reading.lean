import Timetable.Cron.Fields
import Timetable.Proofs.Selection.Listing
import Timetable.Proofs.Text.Spacing

/-!
What time fields mean.

A field is a star, or it has an item between any two of its commas: a number, or
two numbers with a dash between them. A number may have a plus sign in front of
its digits. The items are inserted as those of a calendar list are, so a range
with its ends in the wrong order names nothing and is not looked at. A line is
read if and only if it has five fields and each of them is one of these, and the
day of the week, which is read over a domain with two Sundays, is then counted as
an event counts it.
-/

set_option autoImplicit false

namespace Timetable

namespace Cron

open Text

/-! ## Items of a field -/

/-- The texts that are read as a number of a field. -/
def Reads (t : List Char) (n : Nat) : Prop :=
  IsNumber t n ∨ ∃ ds, t = '+' :: ds ∧ IsNumber ds n

/-- The items of a field, one between any two commas. -/
def Lists (f : List Char) (items : List Item) : Prop :=
  Listing (fun t o => ∃ i, o = some i ∧ Item.Spelled ['-'] Reads t i) f items

theorem readNumber_eq_ok_iff {t : List Char} {n : Nat} : readNumber t = .ok n ↔ Reads t n := by
  rw [Reads, ← readNumeral_eq_ok_iff, readNumber]
  split
  · next m h => simp [h]
  · next e h => simp [h]

/-- A number is written without a dash. -/
theorem Reads.notMem {t : List Char} {n : Nat} (h : Reads t n) : '-' ∉ t := by
  obtain h | ⟨ds, rfl, h⟩ := h
  · exact h.notMem (by decide)
  · simpa using h.notMem (by decide : '-'.isDigit = false)

section Field

variable {d : Domain}

theorem refusal_eq_ok_iff {α : Type} {x : Except SelectionError α} {a : α} :
    refusal x = .ok a ↔ x = .ok a := by
  cases x <;> simp [refusal]

/-- What stands between two commas is inserted as the item that it is. -/
theorem insertItem_eq_ok_iff {s s' : Selection d} {t : List Char} : insertItem s t = .ok s' ↔
    ∃ i, Item.Spelled ['-'] Reads t i ∧ s.insertItem i = .ok s' := by
  constructor
  · intro h
    rw [insertItem] at h
    split at h
    -- a dash between two numbers
    · next first last hcut =>
      obtain ⟨rfl, -⟩ := eq_append_of_cutAt? (by simp) hcut
      obtain ⟨a, ha, h⟩ := bind_eq_ok.mp h
      obtain ⟨b, hb, h⟩ := bind_eq_ok.mp h
      exact ⟨.range a b, .range (readNumber_eq_ok_iff.mp ha) (readNumber_eq_ok_iff.mp hb),
        refusal_eq_ok_iff.mp h⟩
    · obtain ⟨a, ha, h⟩ := bind_eq_ok.mp h
      exact ⟨.number a, .number (readNumber_eq_ok_iff.mp ha), refusal_eq_ok_iff.mp h⟩
  · rintro ⟨i, hi, h⟩
    cases hi with
    -- a number has no dash, so nothing is cut
    | @number _ n hn =>
      have hcut : cutAt? ['-'] t = none := by
        rw [cutAt?_eq_none_iff (by simp)]
        exact fun hin => hn.notMem (hin.subset (by simp))
      rw [insertItem, hcut]
      exact bind_eq_ok.mpr ⟨n, readNumber_eq_ok_iff.mpr hn, refusal_eq_ok_iff.mpr h⟩
    -- the first number has no dash, so the text is cut behind it
    | @range t t' a b ha hb =>
      have hcut : cutAt? ['-'] (t ++ ['-'] ++ t') = some (t, t') := by
        simpa using cutAt?_singleton ha.notMem t'
      rw [insertItem, hcut]
      exact bind_eq_ok.mpr ⟨a, readNumber_eq_ok_iff.mpr ha,
        bind_eq_ok.mpr ⟨b, readNumber_eq_ok_iff.mpr hb, refusal_eq_ok_iff.mpr h⟩⟩

/-- A list of a field is inserted as the items that it lists. -/
theorem foldlM_insertItem_eq_ok_iff {f : List Char} {s s' : Selection d} :
    (f.splitOn ',').foldlM insertItem s = .ok s' ↔
      ∃ items, Lists f items ∧ items.foldlM Selection.insertItem s = .ok s' := by
  simp only [Lists]
  -- a field ends with an item or goes on behind a comma
  induction f using piece_induction ',' generalizing s with
  | last t ht =>
    simp only [splitOn_of_notMem ht, List.foldlM_cons, List.foldlM_nil, bind_pure,
      Listing.iff_of_notMem ht, insertItem_eq_ok_iff]
    constructor
    · rintro ⟨i, hi, h⟩
      exact ⟨[i], ⟨some i, ⟨i, rfl, hi⟩, rfl⟩, by simpa using h⟩
    · rintro ⟨-, ⟨-, ⟨i, rfl, hi⟩, rfl⟩, h⟩
      exact ⟨i, hi, by simpa using h⟩
  | piece t f ht ih =>
    simp only [splitOn_append_cons ht, List.foldlM_cons, bind_eq_ok, insertItem_eq_ok_iff, ih,
      Listing.append_comma_iff ht]
    constructor
    · rintro ⟨s₁, ⟨i, hi, h₁⟩, is, his, h⟩
      exact ⟨i :: is, ⟨some i, is, ⟨i, rfl, hi⟩, his, rfl⟩, bind_eq_ok.mpr ⟨s₁, h₁, h⟩⟩
    · rintro ⟨-, ⟨-, is, ⟨i, rfl, hi⟩, his, rfl⟩, h⟩
      obtain ⟨s₁, h₁, h⟩ := bind_eq_ok.mp h
      exact ⟨s₁, ⟨i, hi, h₁⟩, is, his, h⟩

/-- What a field makes of a selection that is empty before. -/
def Fills (d : Domain) (f : List Char) (s : Selection d) : Prop :=
  (f = ['*'] ∧ s = .any) ∨ ∃ items, Lists f items ∧ (∀ i ∈ items, i.IsTaken d) ∧
    s = Selection.inserted d (items.flatMap Item.numbers)

/-- A star is no item. -/
theorem not_lists_star {items : List Item} : ¬ Lists ['*'] items := by
  rw [Lists, Listing.iff_of_notMem (by simp)]
  rintro ⟨-, ⟨i, -, hi⟩, -⟩
  generalize hstar : ['*'] = f at hi
  cases hi with
  | number h =>
    subst hstar
    -- a number begins with a digit or a plus sign
    obtain h | ⟨ds, hds, -⟩ := h
    · exact absurd (h.isDigit '*' (by simp)) (by decide)
    · simp at hds
  | @range t t' =>
    have hdash : '-' ∈ ['*'] := hstar ▸ by simp
    simp at hdash

/-- **A field is read if and only if it is a star or lists items that are taken.** -/
theorem readField_eq_ok_iff (hd : d.width < wordLimit) {f : List Char} {s : Selection d} :
    readField d f = .ok s ↔ Fills d f s := by
  by_cases hstar : f = ['*']
  · subst hstar
    have hnone : ∀ items, ¬ Lists ['*'] items := fun _ => not_lists_star
    simp [readField, Fills, hnone, eq_comm]
  · have hread : readField d f = (f.splitOn ',').foldlM insertItem .any := by
      simp [readField, hstar]
    rw [hread, foldlM_insertItem_eq_ok_iff, Fills]
    simp only [hstar, false_and, false_or]
    refine exists_congr fun items => and_congr_right fun _ => ?_
    exact Selection.foldlM_any_eq_ok_iff (f := Selection.insertItem)
      (fun _ _ _ => Selection.insertItem_eq_ok_iff) hd fun i hi n hn => hi.holds hn

end Field

/-! ## All five fields -/

/-- The components of a line in the order of its fields. -/
def fieldOrder : List Component :=
  [.minute, .hour, .day, .month, .weekday]

/-- The domain over which the field of a component is read. -/
def fieldDomain : Component → Domain
  | .weekday => weekDomain
  | c => c.domain

/-- A selection as it is read from a field, as an event counts. -/
def ofField : (c : Component) → Selection (fieldDomain c) → Selection c.domain
  | .weekday => eventWeekdays
  | .year | .month | .day | .hour | .minute | .second => id

/-- The name of the field matters only where it cannot be read. -/
theorem readNamed_eq_ok_iff (c : Component) {f : List Char} {s : Selection (fieldDomain c)} :
    readNamed (fieldDomain c) f = .ok s ↔ Fills (fieldDomain c) f s := by
  have hd : (fieldDomain c).width < wordLimit := by cases c <;> decide
  rw [← readField_eq_ok_iff hd, readNamed]
  split
  · next h => simp [h]
  · next h => simp [h]

/-- **Time fields are read if and only if there are five of them and each can be read.** What is
read comes at second 0 of every year. -/
theorem readFields_eq_ok_iff {line : List Char} {e : Event} : readFields line = .ok e ↔
    ∃ field : Component → List Char, Spaced line (fieldOrder.map field) ∧
      (∀ c ∈ fieldOrder, ∃ s, Fills (fieldDomain c) (field c) s ∧ e.get c = ofField c s) ∧
      e.year = .any ∧ e.second = .one 0 := by
  constructor
  · intro h
    rw [readFields] at h
    split at h
    -- five words, and each of them has been read as the field of its component
    · next minute hour day month weekday hwords =>
      obtain ⟨s₁, h₁, h⟩ := bind_eq_ok.mp h
      obtain ⟨s₂, h₂, h⟩ := bind_eq_ok.mp h
      obtain ⟨s₃, h₃, h⟩ := bind_eq_ok.mp h
      obtain ⟨s₄, h₄, h⟩ := bind_eq_ok.mp h
      obtain ⟨s₅, h₅, h⟩ := bind_eq_ok.mp h
      rw [pure_eq_ok] at h
      subst h
      refine ⟨fun
        | .minute => minute
        | .hour => hour
        | .day => day
        | .month => month
        | _ => weekday, words_eq_iff.mp hwords, ?_, rfl, rfl⟩
      simp only [fieldOrder, List.forall_mem_cons]
      exact ⟨⟨s₁, (readNamed_eq_ok_iff .minute).mp h₁, rfl⟩,
        ⟨s₂, (readNamed_eq_ok_iff .hour).mp h₂, rfl⟩,
        ⟨s₃, (readNamed_eq_ok_iff .day).mp h₃, rfl⟩,
        ⟨s₄, (readNamed_eq_ok_iff .month).mp h₄, rfl⟩,
        ⟨s₅, (readNamed_eq_ok_iff .weekday).mp h₅, rfl⟩, by simp⟩
    · cases h
  · rintro ⟨field, hspaced, hfields, hyear, hsecond⟩
    simp only [fieldOrder, List.forall_mem_cons] at hfields
    obtain ⟨⟨s₁, h₁, he₁⟩, ⟨s₂, h₂, he₂⟩, ⟨s₃, h₃, he₃⟩, ⟨s₄, h₄, he₄⟩, ⟨s₅, h₅, he₅⟩, -⟩ := hfields
    -- the other way round the five selections are put together again
    rw [readFields, hspaced.words_eq]
    simp only [fieldOrder, List.map_cons, List.map_nil]
    refine bind_eq_ok.mpr ⟨s₁, (readNamed_eq_ok_iff .minute).mpr h₁, ?_⟩
    refine bind_eq_ok.mpr ⟨s₂, (readNamed_eq_ok_iff .hour).mpr h₂, ?_⟩
    refine bind_eq_ok.mpr ⟨s₃, (readNamed_eq_ok_iff .day).mpr h₃, ?_⟩
    refine bind_eq_ok.mpr ⟨s₄, (readNamed_eq_ok_iff .month).mpr h₄, ?_⟩
    refine bind_eq_ok.mpr ⟨s₅, (readNamed_eq_ok_iff .weekday).mpr h₅, ?_⟩
    -- second and year are the two components that have no field
    refine pure_eq_ok.mpr (Event.ext_get fun c => ?_)
    cases c with
    | weekday => exact he₅.symm
    | year => exact hyear.symm
    | month => exact he₄.symm
    | day => exact he₃.symm
    | hour => exact he₂.symm
    | minute => exact he₁.symm
    | second => exact hsecond.symm

/-- Fields that can be read describe an event. -/
theorem exists_readFields_iff {line : List Char} : (∃ e, readFields line = .ok e) ↔
    ∃ field : Component → List Char, Spaced line (fieldOrder.map field) ∧
      ∀ c ∈ fieldOrder, ∃ s, Fills (fieldDomain c) (field c) s := by
  constructor
  · rintro ⟨e, he⟩
    obtain ⟨field, hspaced, hfields, -⟩ := readFields_eq_ok_iff.mp he
    exact ⟨field, hspaced, fun c hc => (hfields c hc).imp fun _ h => h.1⟩
  · rintro ⟨field, hspaced, hfields⟩
    have hselection : ∀ c, ∃ s, c ∈ fieldOrder → Fills (fieldDomain c) (field c) s := by
      intro c
      by_cases hc : c ∈ fieldOrder
      · obtain ⟨s, hs⟩ := hfields c hc
        exact ⟨s, fun _ => hs⟩
      · exact ⟨.any, fun h => absurd h hc⟩
    -- the selections come one for each field, so an event has to be made of them
    choose s hs using hselection
    refine ⟨⟨ofField .weekday (s .weekday), .any, s .month, s .day, s .hour, s .minute, .one 0⟩,
      readFields_eq_ok_iff.mpr ⟨field, hspaced, fun c hc => ⟨s c, hs c hc, ?_⟩, rfl, rfl⟩⟩
    simp only [fieldOrder, List.mem_cons, List.not_mem_nil, or_false] at hc
    obtain rfl | rfl | rfl | rfl | rfl := hc <;> rfl

/-! ## Restricted components -/

/-- What a field makes comes from insertions. -/
theorem Fills.reached {c : Component} {f : List Char} {s : Selection (fieldDomain c)}
    (h : Fills (fieldDomain c) f s) : s.Reached := by
  obtain ⟨-, rfl⟩ | ⟨items, -, htaken, rfl⟩ := h
  · exact .any
  · have hd : (fieldDomain c).width < wordLimit := by cases c <;> decide
    refine (Selection.inserted_spec hd fun n hn => ?_).1
    obtain ⟨i, hi, hn⟩ := List.mem_flatMap.mp hn
    exact (htaken i hi).holds hn

/-- Counting both Sundays as one day leaves no day out and makes none. -/
theorem isPopulated_eventWeekdays {s : Selection weekDomain} (hs : s.Reached) :
    (eventWeekdays s).isPopulated = s.isPopulated := by
  have hmem : ∀ m, m ∈ (eventWeekdays s).members ↔ _ := fun m =>
    Selection.mem_members_ofList (by decide)
  -- no day is lost: a Sunday that is written as 0 is the seventh day
  have hday : ∀ n ∈ s.members, (if n = 0 then 7 else n) ∈ (eventWeekdays s).members := by
    intro n hn
    have hends : 0 ≤ n ∧ n ≤ 7 := Selection.holds_iff.mp (hs.holds hn)
    refine (hmem _).mpr ⟨List.mem_map_of_mem hn, Selection.holds_iff.mpr ?_⟩
    simp only [Component.domain]
    split <;> omega
  have hreached : (eventWeekdays s).Reached := Selection.reached_ofList _
  rw [Bool.eq_iff_iff, hreached.isPopulated_iff, hs.isPopulated_iff]
  refine not_congr ⟨fun h => ?_, fun h => ?_⟩
  · refine List.eq_nil_iff_forall_not_mem.mpr fun n hn => ?_
    simpa [h] using hday n hn
  · refine List.eq_nil_iff_forall_not_mem.mpr fun m hm => ?_
    simpa [h] using ((hmem m).mp hm).1

/-- A component is restricted if and only if what was read from its field is. -/
theorem isPopulated_ofField {c : Component} {s : Selection (fieldDomain c)} (hs : s.Reached) :
    (ofField c s).isPopulated = s.isPopulated := by
  cases c with
  | weekday => exact isPopulated_eventWeekdays hs
  | _ => rfl

end Cron

end Timetable
