import Timetable.Proofs.Expression.Meaning

/-!
Expressions as they are documented.

A documented list has numbers in decimal, names of days, and ranges of them; years
below 1000 are counted from 2000 before anything else is asked of them. All its
numbers are in the domain, and a range has its ends in order unless it is one of
days of the week. Every expression of such lists is read, and each of its
components has exactly the numbers for which its items stand.
-/

set_option autoImplicit false

namespace Timetable

open Text Expression

/-- The numbers for which an item stands. A range with its ends in the wrong order runs through the
end of the week. -/
def Item.Covers : Item → Nat → Prop
  | .number m, n => n = m
  | .range a b, n => if a ≤ b then a ≤ n ∧ n ≤ b else a ≤ n ∧ n ≤ 7 ∨ 1 ≤ n ∧ n ≤ b

namespace Component

/-- The documented texts of the numbers of a component. -/
def Names : Component → List Char → Nat → Prop
  | weekday, t, n => IsDecimal t n ∨ (t.map Char.toLower, n) ∈ weekdayWords
  | year, t, n => ∃ y, IsDecimal t y ∧ fullYear y = n
  | _, t, n => IsDecimal t n

/-- A documented list of a component and its items. -/
structure Documents (c : Component) (l : List Char) (items : List Item) : Prop where
  listing : Listing (Item.Piece (c ≠ weekday) c.Names) l items
  holds : ∀ i ∈ items, ∀ n ∈ i.ends, c.domain.holds n = true
  ordered : ∀ i ∈ items, c = weekday ∨ ¬ i.IsReversed

/-- A documented text of a number of the domain is read as it. -/
theorem reads_of_names {c : Component} {t : List Char} {n : Nat} (h : c.Names t n)
    (hn : c.domain.holds n = true) : c.Reads t n := by
  by_cases hweekday : c = weekday
  · subst hweekday
    -- a day is written in digits, which stay as they are, or by its name, which gets two digits
    obtain h | h := h
    · have hnumber := isNumber_of_isDecimal h hn
      have hsame : t.map Char.toLower = t := by
        refine map_toLower_of_isAlpha fun y hy => ?_
        obtain ⟨x, hx, rfl⟩ := List.mem_map.mp hy
        exact (Char.isAlpha_toLower_eq_isAlpha x).trans (isAlpha_of_isNumber hnumber x hx)
      exact ⟨t, hsame.symm ▸ .of_isAlpha (isAlpha_of_isNumber hnumber), hnumber⟩
    · exact ⟨twoDigits n, by simpa using Numbered.name h .nil,
        isNumber_of_isDecimal (isDecimal_twoDigits n) hn⟩
  · by_cases hyear : c = year
    · subst hyear
      obtain ⟨y, hy, rfl⟩ := h
      -- a year that is completed is greater than the one that is written
      have hlt : y < wordLimit := by
        have hfull := Selection.lt_wordLimit_of_holds hn (hi_lt .year)
        rw [fullYear] at hfull
        split at hfull <;> omega
      exact ⟨y, isNumber_iff.mpr ⟨hy, hlt⟩, rfl⟩
    · have hdecimal : IsDecimal t n := by
        cases c with
        | weekday => exact absurd rfl hweekday
        | year => exact absurd rfl hyear
        | _ => exact h
      exact (reads_iff hweekday hyear).mpr (isNumber_of_isDecimal hdecimal hn)

namespace Documents

variable {c : Component} {l : List Char} {items : List Item} (h : c.Documents l items)

include h

/-- A documented list is read as its items. -/
theorem lists : c.Lists l items := by
  refine h.listing.mono fun t o ho hp => ?_
  cases hp with
  | empty => exact .empty
  | star hc => exact .star hc
  | @item _ i hi =>
    have hends : ∀ n ∈ i.ends, c.domain.holds n = true := h.holds i (ho i rfl)
    cases hi with
    | number hn => exact .item (.number (reads_of_names hn (hends _ (by simp [Item.ends]))))
    | range ha hb =>
      exact .item (.range (reads_of_names ha (hends _ (by simp [Item.ends])))
        (reads_of_names hb (hends _ (by simp [Item.ends]))))

/-- Numbers of the domain are accepted, and a range of days checks its second end alone. -/
theorem accepts {i : Item} (hi : i ∈ items) : c.Accepts i := by
  have hends := h.holds i hi
  cases i with
  | number n => exact hends n (by simp [Item.ends])
  | range a b =>
    have ha := hends a (by simp [Item.ends])
    have hb := hends b (by simp [Item.ends])
    rw [Accepts]
    split
    · exact ⟨ha, hb⟩
    · exact fun _ => (Selection.holds_iff.mp hb).2

/-- An item inserts the numbers for which it stands. -/
theorem mem_numbers_iff {i : Item} (hi : i ∈ items) {n : Nat} : n ∈ c.numbers i ↔ i.Covers n := by
  have hordered := h.ordered i hi
  cases i with
  | number m => simp [numbers_number, Item.Covers]
  | range a b =>
    rw [mem_numbers_range, Item.Covers]
    rw [Item.IsReversed] at hordered
    split
    · have hfalse : ¬ b < a := by omega
      simp [hfalse]
    · have hlt : b < a := by omega
      -- only in the week there are ranges in the wrong order
      have hc : c = weekday := hordered.resolve_right (absurd hlt)
      simp only [hc, hlt, true_and]
      omega

/-- What a documented list makes of its component. -/
theorem inserted_spec :
    ((Selection.inserted c.domain (items.flatMap c.numbers)).isPopulated = false ↔ items = []) ∧
    ∀ n, (Selection.inserted c.domain (items.flatMap c.numbers)).contains n = true ↔
      ∃ i ∈ items, i.Covers n := by
  have hin : ∀ n ∈ items.flatMap c.numbers, c.domain.holds n = true := by
    intro n hn
    obtain ⟨i, hi, hn⟩ := List.mem_flatMap.mp hn
    exact (h.accepts hi).holds hn
  constructor
  · rw [Selection.isPopulated_eq_false_iff, Selection.inserted_eq_any_iff, List.flatMap_eq_nil_iff]
    constructor
    · intro hnil
      refine List.eq_nil_iff_forall_not_mem.mpr fun i hi => numbers_ne_nil ?_ (hnil i hi)
      -- an item of a documented list always names something
      exact (h.ordered i hi).symm.imp_right fun hc => ⟨hc, h.holds i hi⟩
    · rintro rfl
      simp
  · intro n
    rw [Selection.contains_iff, (Selection.inserted_spec (width_lt c) hin).2, List.mem_flatMap]
    exact exists_congr fun i => and_congr_right fun hi => h.mem_numbers_iff hi

end Documents

end Component

namespace Event

/-- **Every documented expression means what it says.** An expression of documented lists, written
with any blanks between and around its words, is read. A component with a list takes exactly the
numbers for which its items stand and is free if there is no item, and a component without a list
is free or, in the time of day, 0. -/
theorem parse_documented {text : String} {x : Expression} {items : Component → List Item}
    (hx : x.WrittenIn text)
    (hlists : ∀ c : Component, ∀ l ∈ x.list? c, c.Documents l (items c)) :
    ∃ e, parse text = .ok e ∧ ∀ c : Component,
      (∀ l ∈ x.list? c, ((e.get c).isPopulated = false ↔ items c = []) ∧
        ∀ n, (e.get c).contains n = true ↔ ∃ i ∈ items c, i.Covers n) ∧
      (x.list? c = none → e.get c =
        if c = .hour ∨ c = .minute ∨ c = .second then .one 0 else .any) := by
  obtain ⟨e, he⟩ := exists_describes (fun c l hl => (hlists c l hl).lists)
    fun c l hl i hi => (hlists c l hl).accepts hi
  refine ⟨e, parse_eq_ok_iff.mpr (.inr ⟨x, items, hx, he⟩), fun c => ⟨?_, ?_⟩⟩
  · intro l hl
    rw [he.get_eq c l hl]
    exact (hlists c l hl).inserted_spec
  · intro hnone
    rw [he.get_unwritten c hnone]
    cases c <;> rfl

/-- A range of days through the end of the week, a year of this century, a free month, an empty
item and no time. -/
theorem parse_documented_weekend :
    ∃ e, parse " \tFri..MON  99-*-,15..17 " = .ok e ∧
      (∀ n, e.weekday.contains n = true ↔ 5 ≤ n ∧ n ≤ 7 ∨ 1 ≤ n ∧ n ≤ 1) ∧
      (∀ n, e.year.contains n = true ↔ n = 2099) ∧ e.month.isPopulated = false ∧
      (∀ n, e.day.contains n = true ↔ 15 ≤ n ∧ n ≤ 17) ∧ e.hour = .one 0 := by
  let x : Expression :=
    { weekday := some "Fri..MON".toList
      year := some "99".toList
      monthDay := some ("*".toList, ",15..17".toList) }
  let items : Component → List Item
    | .weekday => [.range 5 1]
    | .year => [.number 2099]
    | .day => [.range 15 17]
    | _ => []
  have hx : x.WrittenIn " \tFri..MON  99-*-,15..17 " :=
    ⟨by decide, by decide, by decide, by
      intro c l hl
      cases c <;> cases hl <;> decide, words_eq_iff.mp (by decide)⟩
  have hlists : ∀ c : Component, ∀ l ∈ x.list? c, c.Documents l (items c) := by
    intro c l hl
    cases c with
    | weekday =>
      cases hl
      have hitem : Item.Spelled ['.', '.'] (Component.Names .weekday)
          ("Fri".toList ++ ['.', '.'] ++ "MON".toList) (.range 5 1) :=
        .range (.inr (by decide)) (.inr (by decide))
      exact ⟨(Listing.iff_of_notMem (by decide)).mpr ⟨_, .item hitem, rfl⟩, by decide, by simp⟩
    | year =>
      cases hl
      have hitem : Item.Spelled ['.', '.'] (Component.Names .year) "99".toList (.number 2099) :=
        .number ⟨99, ⟨by decide, by decide, rfl⟩, rfl⟩
      exact ⟨(Listing.iff_of_notMem (by decide)).mpr ⟨_, .item hitem, rfl⟩, by decide,
        by simp [items, Item.IsReversed]⟩
    | month =>
      cases hl
      exact ⟨(Listing.iff_of_notMem (by decide)).mpr ⟨_, .star (by decide), rfl⟩, by decide,
        by simp [items]⟩
    | day =>
      cases hl
      have hitem : Item.Spelled ['.', '.'] (Component.Names .day)
          ("15".toList ++ ['.', '.'] ++ "17".toList) (.range 15 17) :=
        .range ⟨by decide, by decide, rfl⟩ ⟨by decide, by decide, rfl⟩
      exact ⟨(Listing.append_comma_iff (t := []) (by decide)).mpr ⟨none, _, .empty,
        (Listing.iff_of_notMem (by decide)).mpr ⟨_, .item hitem, rfl⟩, rfl⟩, by decide,
        by simp [items, Item.IsReversed]⟩
    | _ => cases hl
  obtain ⟨e, he, hfields⟩ := parse_documented hx hlists
  refine ⟨e, he, ?_, ?_, ?_, ?_, ?_⟩
  · simpa [items, Item.Covers, Event.get] using ((hfields .weekday).1 _ rfl).2
  · simpa [items, Item.Covers, Event.get] using ((hfields .year).1 _ rfl).2
  · exact ((hfields .month).1 _ rfl).1.mpr rfl
  · simpa [items, Item.Covers, Event.get] using ((hfields .day).1 _ rfl).2
  · exact (hfields .hour).2 rfl

end Event

end Timetable
