import Timetable.Proofs.Cron.Reading
import Timetable.Proofs.Expression.Documented

/-!
Which texts are accepted, and which components they restrict.

Two forms of text describe an event: calendar expressions and the time fields of a
crontab line. In both, a text is accepted if and only if every item of its lists
is. The numbers of an item are checked against the domain of the component, but
those of a range with its ends in the wrong order are not, because such a range
names nothing: nothing is left to check in it. In a calendar list of days of the
week it names days again, and then its second end is checked and the first one is
not. The names of days may have zeros in front, because they are read as numbers
once they have been replaced.

A component is restricted by every item that names something. What names nothing
is an empty item, a star and a range with its ends in the wrong order.
-/

set_option autoImplicit false

namespace Timetable

open Text Expression

/-! ## Days of the week with zeros in front -/

/-- A number of one digit in a list of days is written in digits, or it is a name with zeros in
front. -/
theorem Component.of_reads_weekday {t : List Char} {n : Nat} (h : Component.Reads .weekday t n)
    (hn : n < 10) : IsDecimal t n ∨
      ∃ k v, t = List.replicate k '0' ++ v ∧ (v.map Char.toLower, n) ∈ weekdayWords := by
  obtain ⟨u, hu, hnumber⟩ := h
  have hdecimal := (isNumber_iff.mp hnumber).1
  -- the digits are either all written, or the last one comes from a name
  obtain heq | ⟨k, v, heq, hv⟩ := hu.of_isDecimal hdecimal hn
  · have hsame := map_toLower_of_isAlpha fun c hc => isAlpha_of_isNumber hnumber c (heq ▸ hc)
    exact .inl (hsame.symm.trans heq ▸ hdecimal)
  · obtain ⟨z, w, rfl, hz, hw⟩ := List.map_eq_append_iff.mp heq
    have hzeros : z.map Char.toLower = z := by
      refine map_toLower_of_isAlpha fun c hc => ?_
      rw [hz] at hc
      rw [List.eq_of_mem_replicate hc]
      rfl
    exact .inr ⟨k, w, by rw [← hzeros.symm.trans hz], hw ▸ hv⟩

/-! ## What is accepted -/

/-- **The texts that are accepted.** A calendar text is a keyword, or an expression is written in it
all of whose items are accepted. A crontab line has five fields, each a star or a list of items that
are taken. In both, every number that is written is in the domain, unless it is an end of a range
with its ends in the wrong order. In a list of days a number of one digit is digits, or a name with
zeros in front. -/
theorem accepted_iff (text : String) (line : List Char) :
    ((∃ e, Event.parse text = .ok e) ↔ (∃ k : Keyword, k.WrittenIn text) ∨
      ∃ (x : Expression) (items : Component → List Item), x.WrittenIn text ∧
        ∀ c : Component, ∀ l ∈ x.list? c, c.Lists l (items c) ∧ ∀ i ∈ items c, c.Accepts i) ∧
    (∀ (c : Component) (i : Item), c.Accepts i → ¬ i.IsReversed →
      ∀ n ∈ i.ends, c.domain.holds n = true) ∧
    (∀ t n, Component.Reads .weekday t n → n < 10 → IsDecimal t n ∨
      ∃ k v, t = List.replicate k '0' ++ v ∧ (v.map Char.toLower, n) ∈ weekdayWords) ∧
    ((∃ e, Cron.readFields line = .ok e) ↔
      ∃ field : Component → List Char, Spaced line (Cron.fieldOrder.map field) ∧
        ∀ c ∈ Cron.fieldOrder, field c = ['*'] ∨ ∃ items, Cron.Lists (field c) items ∧
          ∀ i ∈ items, i.IsTaken (Cron.fieldDomain c)) ∧
    ∀ (d : Domain) (i : Item), i.IsTaken d → ¬ i.IsReversed → ∀ n ∈ i.ends, d.holds n = true := by
  refine ⟨?_, fun c i => Component.Accepts.holds_ends, fun t n => Component.of_reads_weekday, ?_,
    fun d i => Item.IsTaken.holds_ends⟩
  · constructor
    · rintro ⟨e, he⟩
      -- what is read is a keyword or an expression, and so is what is accepted
      obtain ⟨k, hk, -⟩ | ⟨x, items, hx, hitems⟩ := Event.parse_eq_ok_iff.mp he
      · exact .inl ⟨k, hk⟩
      · exact .inr ⟨x, items, hx, fun c l hl => ⟨hitems.lists c l hl, hitems.accepts c l hl⟩⟩
    · rintro (⟨k, hk⟩ | ⟨x, items, hx, hlists⟩)
      · exact ⟨k.event, Event.parse_eq_ok_iff.mpr (.inl ⟨k, hk, rfl⟩)⟩
      · obtain ⟨e, he⟩ := exists_describes (fun c l hl => (hlists c l hl).1)
          fun c l hl => (hlists c l hl).2
        exact ⟨e, Event.parse_eq_ok_iff.mpr (.inr ⟨x, items, hx, he⟩)⟩
  · rw [Cron.exists_readFields_iff]
    refine exists_congr fun field => and_congr_right fun _ => forall₂_congr fun c _ => ?_
    constructor
    · rintro ⟨s, ⟨hstar, -⟩ | ⟨items, hlists, htaken, -⟩⟩
      · exact .inl hstar
      · exact .inr ⟨items, hlists, htaken⟩
    · rintro (hstar | ⟨items, hlists, htaken⟩)
      · exact ⟨.any, .inl ⟨hstar, rfl⟩⟩
      · exact ⟨_, .inr ⟨items, hlists, htaken, rfl⟩⟩

/-- A name with zeros in front of it is accepted as a day, and ranges in order are checked. -/
theorem accepted_iff_zeros :
    (Component.Reads .weekday "00Mon".toList 1 ∧ 1 < 10 ∧
      (IsDecimal "00Mon".toList 1 ∨ ∃ k v, "00Mon".toList = List.replicate k '0' ++ v ∧
        (v.map Char.toLower, 1) ∈ weekdayWords)) ∧
    (Component.Accepts .hour (.range 3 5) ∧ ∀ n ∈ (Item.range 3 5).ends,
      (Component.domain .hour).holds n = true) ∧
    ((Item.range 0 7).IsTaken (Cron.fieldDomain .weekday) ∧ ∀ n ∈ (Item.range 0 7).ends,
      (Cron.fieldDomain .weekday).holds n = true) := by
  obtain ⟨-, haccepts, hnames, -, htaken⟩ := accepted_iff "00Mon" []
  have hreads : Component.Reads .weekday "00Mon".toList 1 :=
    Component.reads_weekday_iff.mpr ⟨by decide, by decide, by decide⟩
  have hhours : Component.Accepts .hour (.range 3 5) := ⟨by decide, by decide⟩
  have hdays : (Item.range 0 7).IsTaken (Cron.fieldDomain .weekday) :=
    fun _ => ⟨by decide, by decide⟩
  exact ⟨⟨hreads, by decide, hnames _ _ hreads (by decide)⟩,
    ⟨hhours, haccepts _ _ hhours (by simp [Item.IsReversed])⟩,
    ⟨hdays, htaken _ _ hdays (by simp [Item.IsReversed])⟩⟩

/-- A list of days with a number that is no day, and a crontab line with two minutes that are
none. -/
theorem accepted_outside_domain :
    let x : Expression := { weekday := some "8..3".toList }
    x.WrittenIn "8..3" ∧ Component.Lists .weekday "8..3".toList [.range 8 3] ∧
      (Component.domain .weekday).holds 8 = false ∧ (∃ e, Event.parse "8..3" = .ok e) ∧
      Cron.Lists "70-65".toList [.range 70 65] ∧
      (Component.domain .minute).holds 70 = false ∧
      ∃ e, Cron.readFields "70-65 * * * *".toList = .ok e := by
  intro x
  have hx : x.WrittenIn "8..3" :=
    ⟨by decide, by decide, by decide, by
      intro c l hl
      cases c <;> cases hl
      decide, words_eq_iff.mp (by decide)⟩
  have hlists : Component.Lists .weekday "8..3".toList [.range 8 3] :=
    (Component.lists_weekday_iff (by decide)).mpr (by decide)
  have hfield : Cron.Lists "70-65".toList [.range 70 65] := by
    refine (Listing.iff_of_notMem (by decide)).mpr ⟨some (.range 70 65), ⟨_, rfl, ?_⟩, rfl⟩
    have hitem : Item.Spelled ['-'] Cron.Reads ("70".toList ++ ['-'] ++ "65".toList)
        (.range 70 65) :=
      .range (.inl ⟨by decide, by decide, by decide⟩) (.inl ⟨by decide, by decide, by decide⟩)
    exact hitem
  have hparse : Event.parse "8..3" = .ok
      { weekday := .many (Selection.flagsOf (Component.domain .weekday) [1, 2, 3])
        hour := .one 0
        minute := .one 0
        second := .one 0 } := by
    decide
  have hread : Cron.readFields "70-65 * * * *".toList = .ok { second := .one 0 } := by
    decide
  exact ⟨hx, hlists, by decide, ⟨_, hparse⟩, hfield, by decide, ⟨_, hread⟩⟩

/-! ## What is restricted -/

/-- **Nothing that is restricted becomes free, except by a range with its ends in the wrong order.**
In an event that was read from an expression, a component with a list is restricted if there is an
item in the list that is no such range, or is a range of days of the week; and it is restricted
only if there is such an item. In an event that was read from a crontab line a component is free
where there is a star, and else it is restricted if and only if there is an item that is no range
with its ends in the wrong order. -/
theorem populated_of_accepted (text : String) (line : List Char) (e : Event) :
    (Event.parse text = .ok e → (∃ k : Keyword, k.WrittenIn text ∧ e = k.event) ∨
      ∃ (x : Expression) (items : Component → List Item), x.WrittenIn text ∧
        ∀ c : Component, ∀ l ∈ x.list? c, c.Lists l (items c) ∧
          ((∃ i ∈ items c, ¬ i.IsReversed ∨
            c = .weekday ∧ ∀ n ∈ i.ends, c.domain.holds n = true) →
              (e.get c).isPopulated = true) ∧
          ((e.get c).isPopulated = true → ∃ i ∈ items c, ¬ i.IsReversed ∨ c = .weekday)) ∧
    (Cron.readFields line = .ok e →
      ∃ (field : Component → List Char) (items : Component → List Item),
        Spaced line (Cron.fieldOrder.map field) ∧
        ∀ c ∈ Cron.fieldOrder, (field c = ['*'] ∧ e.get c = .any) ∨
          (Cron.Lists (field c) (items c) ∧
            ((e.get c).isPopulated = true ↔ ∃ i ∈ items c, ¬ i.IsReversed))) := by
  constructor
  · intro he
    obtain hkeyword | ⟨x, items, hx, hitems⟩ := Event.parse_eq_ok_iff.mp he
    · exact .inl hkeyword
    refine .inr ⟨x, items, hx, fun c l hl => ⟨hitems.lists c l hl, ?_⟩⟩
    -- what an item names is what goes in, so the question is which items name nothing
    rw [hitems.get_eq c l hl, Selection.isPopulated_inserted_flatMap]
    constructor
    · rintro ⟨i, hi, h⟩
      exact ⟨i, hi, Component.numbers_ne_nil h⟩
    · rintro ⟨i, hi, h⟩
      exact ⟨i, hi, Component.of_numbers_ne_nil h⟩
  · intro he
    obtain ⟨field, hspaced, hfields, -⟩ := Cron.readFields_eq_ok_iff.mp he
    have hitems : ∀ c, ∃ items, c ∈ Cron.fieldOrder → (field c = ['*'] ∧ e.get c = .any) ∨
        (Cron.Lists (field c) items ∧
          ((e.get c).isPopulated = true ↔ ∃ i ∈ items, ¬ i.IsReversed)) := by
      intro c
      by_cases hc : c ∈ Cron.fieldOrder
      · obtain ⟨s, hs, heq⟩ := hfields c hc
        rw [heq]
        obtain ⟨hstar, rfl⟩ | ⟨items, hlists, -, rfl⟩ := id hs
        · exact ⟨[], fun _ => .inl ⟨hstar, by cases c <;> rfl⟩⟩
        · refine ⟨items, fun _ => .inr ⟨hlists, ?_⟩⟩
          rw [Cron.isPopulated_ofField hs.reached, Selection.isPopulated_inserted_flatMap]
          simp only [ne_eq, Item.numbers_eq_nil_iff]
      · exact ⟨[], fun h => absurd h hc⟩
    -- the items come field by field
    choose items hall using hitems
    exact ⟨field, items, hspaced, hall⟩

/-- A range in the wrong order leaves its component to the number behind it: the hour of an
expression, and the minute of a crontab line. -/
theorem populated_of_accepted_behind :
    let e : Event := { hour := .one 5, minute := .one 30, second := .one 0 }
    let e' : Event := { minute := .one 5, second := .one 0 }
    (Event.parse "22..20,5:30" = .ok e ∧
      ∃ (x : Expression) (items : Component → List Item), x.WrittenIn "22..20,5:30" ∧
        ∀ l ∈ x.list? .hour, Component.Lists .hour l (items .hour) ∧
          ∃ i ∈ items .hour, ¬ i.IsReversed ∨ Component.hour = .weekday) ∧
    Cron.readFields "30-20,5 * * * *".toList = .ok e' ∧
      ∃ (field : Component → List Char) (items : Component → List Item),
        Spaced "30-20,5 * * * *".toList (Cron.fieldOrder.map field) ∧
        Cron.Lists (field .minute) (items .minute) ∧ ∃ i ∈ items .minute, ¬ i.IsReversed := by
  intro e e'
  have hparse : Event.parse "22..20,5:30" = .ok e := by decide
  have hread : Cron.readFields "30-20,5 * * * *".toList = .ok e' := by decide
  refine ⟨⟨hparse, ?_⟩, hread, ?_⟩
  · obtain ⟨k, -, hk⟩ | ⟨x, items, hx, hall⟩ := (populated_of_accepted _ [] e).1 hparse
    · have hne : ∀ k : Keyword, e ≠ k.event := by
        intro k
        cases k <;> decide
      exact absurd hk (hne k)
    · exact ⟨x, items, hx, fun l hl => ⟨(hall .hour l hl).1, (hall .hour l hl).2.2 rfl⟩⟩
  · obtain ⟨field, items, hspaced, hall⟩ := (populated_of_accepted "" _ e').2 hread
    obtain ⟨-, hfree⟩ | ⟨hlists, hpopulated⟩ := hall .minute (by decide)
    · cases hfree
    · exact ⟨field, items, hspaced, hlists, hpopulated.mp rfl⟩

/-- A range of hours in the wrong order leaves the hour free. -/
theorem free_of_reversed :
    let x : Expression := { hourMinute := some ("20..10".toList, "00".toList) }
    x.WrittenIn "20..10:00" ∧ Component.Lists .hour "20..10".toList [.range 20 10] ∧
      ∃ e, Event.parse "20..10:00" = .ok e ∧ e.hour.isPopulated = false := by
  intro x
  have hx : x.WrittenIn "20..10:00" :=
    ⟨by decide, by decide, by decide, by
      intro c l hl
      cases c <;> cases hl <;> decide, words_eq_iff.mp (by decide)⟩
  have hlists : Component.Lists .hour "20..10".toList [.range 20 10] :=
    (Component.lists_iff_readList (by decide) (by decide) ⟨by decide, by decide⟩).mpr
      (by decide)
  have hparse : Event.parse "20..10:00" = .ok { minute := .one 0, second := .one 0 } := by
    decide
  exact ⟨hx, hlists, _, hparse, rfl⟩

end Timetable
