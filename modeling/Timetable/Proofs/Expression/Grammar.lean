import Timetable.Proofs.Expression.Form
import Timetable.Proofs.Expression.Weekday
import Timetable.Proofs.Selection.Listing

/-!
What an expression means.

Each component has its own texts of numbers: years below 1000 are counted from
2000, days of the week may be named, and every other number is written in digits.
What an item may be also depends on the component, because a range of days with
its ends in the wrong order runs through the end of the week, while in every other
component it names nothing. With these two the written lists of an expression say
which event it describes. A list fills its component with the numbers of its
items, and a component without a list keeps what the expression leaves out.

So a text is read if and only if it is a keyword, or an expression is written in
it each of whose lists fills its component.
-/

set_option autoImplicit false

namespace Timetable

open Text Expression

namespace Component

/-! ## The domains of the components -/

/-- The numbers of every part fit into machine words, so none is too large to be read. -/
theorem hi_lt (c : Component) : c.domain.hi < wordLimit := by
  cases c <;> decide

/-- No part has the width that machine words cannot count. -/
theorem width_lt (c : Component) : c.domain.width < wordLimit := by
  cases c <;> decide

/-- A number of a component can be read from any digits that are worth it. -/
theorem isNumber_of_isDecimal {c : Component} {t : List Char} {n : Nat} (h : IsDecimal t n)
    (hn : c.domain.holds n = true) : IsNumber t n :=
  isNumber_iff.mpr ⟨h, Selection.lt_wordLimit_of_holds hn c.hi_lt⟩

/-! ## Items of a component -/

/-- The texts that are read as a number in the lists of a component. -/
def Reads : Component → List Char → Nat → Prop
  | weekday, t, n => ∃ u, Numbered weekdayWords (t.map Char.toLower) u ∧ IsNumber u n
  | year, t, n => ∃ y, IsNumber t y ∧ fullYear y = n
  | _, t, n => IsNumber t n

/-- The items that a list of a component is read as. Stars stand in all lists but those of days of
the week. -/
def Lists (c : Component) (l : List Char) (items : List Item) : Prop :=
  Listing (Item.Piece (c ≠ weekday) c.Reads) l items

/-- The items as which a component takes an item: days of the week are cyclic. -/
def spread (c : Component) (i : Item) : List Item :=
  if c = weekday then i.unwrap c.domain else [i]

/-- The numbers that an item inserts into a component. -/
def numbers (c : Component) (i : Item) : List Nat :=
  (c.spread i).flatMap Item.numbers

/-- An item that a component accepts. Its numbers are in the domain, but of a range with its ends in
the wrong order only the second end is looked at, and only if it is one of days of the week. -/
def Accepts (c : Component) : Item → Prop
  | .number n => c.domain.holds n = true
  | .range a b =>
    if a ≤ b then c.domain.holds a = true ∧ c.domain.holds b = true
    else c = weekday → b ≤ c.domain.hi

/-- What the documentation accepts of an item is what `insertItem` takes of the items that it is
spread to. -/
theorem accepts_iff {c : Component} {i : Item} :
    c.Accepts i ↔ ∀ j ∈ c.spread i, j.IsTaken c.domain := by
  -- only a reversed range of days of the week is spread, into two
  cases i with
  | number n => by_cases hc : c = weekday <;> simp [Accepts, spread, hc, Item.unwrap, Item.IsTaken]
  | range a b =>
    by_cases hc : c = weekday
    · subst hc
      by_cases hle : a ≤ b
      · simp [Accepts, spread, hle, Item.unwrap, Nat.not_lt.mpr hle, Item.IsTaken]
      · have hlt : b < a := by omega
        simp only [Accepts, hle, if_false, spread, if_true, Item.unwrap, hlt, List.forall_mem_cons,
          Item.IsTaken, Selection.holds_iff, domain, List.not_mem_nil, false_implies, implies_true,
          and_true, true_implies]
        omega
    · by_cases hle : a ≤ b
      · simp [Accepts, spread, hc, hle, Item.IsTaken]
      · simp [Accepts, spread, hc, hle, Item.IsTaken]

/-- An accepted item has numbers of the part's domain only. -/
theorem Accepts.holds {c : Component} {i : Item} (h : c.Accepts i) {n : Nat}
    (hn : n ∈ c.numbers i) : c.domain.holds n = true := by
  obtain ⟨j, hj, hn⟩ := List.mem_flatMap.mp hn
  exact (accepts_iff.mp h j hj).holds hn

/-- The ends of an accepted item are numbers of the domain, unless it is a reversed range: its ends
are looked at by nobody. -/
theorem Accepts.holds_ends {c : Component} {i : Item} (h : c.Accepts i) (hi : ¬ i.IsReversed) :
    ∀ n ∈ i.ends, c.domain.holds n = true := by
  cases i with
  | number n => simpa [Item.ends, Accepts] using h
  | range a b =>
    rw [Item.IsReversed] at hi
    rw [Accepts, if_pos (by omega)] at h
    simp [Item.ends, h.1, h.2]

/-- What an item inserts, in terms of its ends. -/
theorem mem_numbers_range {c : Component} {a b n : Nat} : n ∈ c.numbers (.range a b) ↔
    (a ≤ n ∧ n ≤ b) ∨ (c = weekday ∧ b < a ∧ (a ≤ n ∧ n ≤ 7 ∨ 1 ≤ n ∧ n ≤ b)) := by
  by_cases hc : c = weekday
  · subst hc
    -- a reversed range of days of the week goes on from Sunday to Monday
    by_cases hlt : b < a
    · simp only [numbers, spread, if_true, Item.unwrap, hlt, List.flatMap_cons, List.flatMap_nil,
        List.append_nil, List.mem_append, Item.numbers, List.mem_range'_1, domain, true_and]
      omega
    · simp only [numbers, spread, if_true, Item.unwrap, hlt, if_false, List.flatMap_cons,
        List.flatMap_nil, List.append_nil, Item.numbers, List.mem_range'_1, true_and, false_and,
        or_false]
      omega
  · simp only [numbers, spread, hc, if_false, List.flatMap_cons, List.flatMap_nil,
      List.append_nil, Item.numbers, List.mem_range'_1, false_and, or_false]
    omega

/-- A number stands for itself; only ranges are spread. -/
theorem numbers_number (c : Component) (n : Nat) : c.numbers (.number n) = [n] := by
  by_cases hc : c = weekday <;> simp [numbers, spread, hc, Item.unwrap, Item.numbers]

/-- A range in the right order inserts something, and so does any range of days of the week. -/
theorem numbers_ne_nil {c : Component} {i : Item}
    (h : ¬ i.IsReversed ∨ c = weekday ∧ ∀ n ∈ i.ends, c.domain.holds n = true) :
    c.numbers i ≠ [] := by
  cases i with
  | number n => simp [numbers_number]
  | range a b =>
    refine List.ne_nil_of_mem (a := a) (mem_numbers_range.mpr ?_)
    obtain h | ⟨rfl, hends⟩ := h
    · rw [Item.IsReversed] at h
      omega
    · have ha : a ≤ 7 := (Selection.holds_iff.mp (hends a (by simp [Item.ends]))).2
      simp only [true_and]
      omega

/-- A range in the wrong order inserts nothing but into days of the week. -/
theorem of_numbers_ne_nil {c : Component} {i : Item} (h : c.numbers i ≠ []) :
    ¬ i.IsReversed ∨ c = weekday := by
  cases i with
  | number n => exact .inl (by simp [Item.IsReversed])
  | range a b =>
    obtain ⟨n, hn⟩ := List.exists_mem_of_ne_nil _ h
    obtain hn | ⟨hc, -⟩ := mem_numbers_range.mp hn
    · rw [Item.IsReversed]
      exact .inl (by omega)
    · exact .inr hc

/-- What an expression leaves out: without a time it means midnight, and without seconds second
0. -/
def unwritten : (c : Component) → Selection c.domain
  | weekday | year | month | day => .any
  | hour | minute | second => .ofList [0]

/-- What a written list, or its absence, makes of a component. -/
def Fills (c : Component) : Option (List Char) → Selection c.domain → Prop
  | none, s => s = c.unwritten
  | some l, s => ∃ items, c.Lists l items ∧ (∀ i ∈ items, c.Accepts i) ∧
      s = Selection.inserted c.domain (items.flatMap c.numbers)

/-! ## The lists of a component -/

/-- Away from days of the week and years a number is read as it is written. -/
theorem reads_iff {c : Component} (hweekday : c ≠ weekday) (hyear : c ≠ year) {t : List Char}
    {n : Nat} : c.Reads t n ↔ IsNumber t n := by
  cases c with
  | weekday => exact absurd rfl hweekday
  | year => exact absurd rfl hyear
  | _ => rfl

/-- The lists of numbers are written in characters that no reader of items trims. -/
theorem isPlainChar_of_isUnitChar {x : Char} (h : isUnitChar x = true) : Item.IsPlainChar x := by
  refine ⟨isBlank_of_isUnitChar h, ?_⟩
  rintro rfl
  exact absurd h (by decide)

/-- So are lists of days of the week. -/
theorem isPlainChar_of_isWeekdayChar {x : Char} (h : isWeekdayChar x = true) :
    Item.IsPlainChar x := by
  refine ⟨isBlank_of_isWeekdayChar h, ?_⟩
  rintro rfl
  exact absurd h (by decide)

/-- A list of a component whose numbers have no other texts is read as it is. -/
theorem lists_iff_readList {c : Component} (hweekday : c ≠ weekday) (hyear : c ≠ year)
    {l : List Char} (hl : IsMadeOf isUnitChar l) {items : List Item} :
    c.Lists l items ↔ Item.readList l = .ok items := by
  rw [Item.readList_eq_ok_iff fun x hx => isPlainChar_of_isUnitChar (hl.all x hx)]
  constructor
  · exact fun h => h.mono fun _ _ _ hp => hp.mono (fun _ => trivial)
      fun _ _ => (reads_iff hweekday hyear).mp
  · exact fun h => h.mono fun _ _ _ hp => hp.mono (fun _ => hweekday)
      fun _ _ => (reads_iff hweekday hyear).mpr

/-- A list of years is read as it is, and then its years are counted in full. -/
theorem lists_year_iff {l : List Char} (hl : IsMadeOf isUnitChar l) {items : List Item} :
    Lists .year l items ↔
      ∃ is, Item.readList l = .ok is ∧ items = is.map (Item.map fullYear) := by
  have hread : ∀ is, Item.readList l = .ok is ↔ _ := fun is =>
    Item.readList_eq_ok_iff fun x hx => isPlainChar_of_isUnitChar (hl.all x hx)
  -- both sides list the same pieces, so it is enough to compare the items of each
  simp only [hread, ← Listing.map_iff]
  constructor
  · intro h
    refine h.mono fun t _ o hp => ?_
    cases hp with
    | empty => exact ⟨none, .empty, rfl⟩
    | star => exact ⟨none, .star trivial, rfl⟩
    | item hi =>
      cases hi with
      | number h =>
        obtain ⟨y, hy, rfl⟩ := h
        exact ⟨some (.number y), .item (.number hy), rfl⟩
      | range h h' =>
        obtain ⟨y, hy, rfl⟩ := h
        obtain ⟨y', hy', rfl⟩ := h'
        exact ⟨some (.range y y'), .item (.range hy hy'), rfl⟩
  · intro h
    refine h.mono fun t _ o hp => ?_
    obtain ⟨o', hp, rfl⟩ := hp
    cases hp with
    | empty => exact .empty
    | star => exact .star (by decide)
    | item hi =>
      cases hi with
      | number h => exact .item (.number ⟨_, h, rfl⟩)
      | range h h' => exact .item (.range ⟨_, h, rfl⟩ ⟨_, h', rfl⟩)

/-! ## Lists of days of the week -/

/-- A number has no letters, so it is not taken for the name of a day. -/
theorem isAlpha_of_isNumber {t : List Char} {n : Nat} (h : IsNumber t n) :
    ∀ c ∈ t, c.isAlpha = false :=
  fun c hc => isAlpha_of_isDigit (h.isDigit c hc)

/-- A character that is no letter is in a text if it is in the text in lower case. -/
theorem mem_of_mem_map_toLower {t : List Char} {c : Char} (hc : c.isAlpha = false)
    (h : c ∈ t.map Char.toLower) : c ∈ t := by
  obtain ⟨d, hd, rfl⟩ := List.mem_map.mp h
  rwa [toLower_of_isAlpha hc]

/-- The text in lower case is taken apart where the text is. -/
theorem exists_of_map_toLower {t a b : List Char} {c : Char} (hc : c.isAlpha = false)
    (h : t.map Char.toLower = a ++ c :: b) :
    ∃ x y, t = x ++ c :: y ∧ x.map Char.toLower = a ∧ y.map Char.toLower = b := by
  obtain ⟨x, y', rfl, hx, hy'⟩ := List.map_eq_append_iff.mp h
  obtain ⟨d, y, rfl, rfl, hy⟩ := List.map_eq_cons_iff.mp hy'
  exact ⟨x, y, by rw [toLower_of_isAlpha hc], hx, hy⟩

section Weekday

variable {t : List Char}

/-- A day of the week is read by making names into numbers and reading the number. -/
theorem reads_weekday_iff {n : Nat} : Reads .weekday t n ↔ IsNumber (numberWeekdays t) n := by
  constructor
  · rintro ⟨u, hu, hn⟩
    rwa [(numberWeekdays_eq_iff (isAlpha_of_isNumber hn)).mpr hu]
  · exact fun h => ⟨_, (numberWeekdays_eq_iff (isAlpha_of_isNumber h)).mp rfl, h⟩

/-- No name is empty, and none is made into nothing. -/
theorem numberWeekdays_eq_nil_iff : numberWeekdays t = [] ↔ t = [] := by
  constructor
  · intro h
    exact List.map_eq_nil_iff.mp ((numberWeekdays_eq_iff (by simp)).mp h).eq_nil_of_nil
  · rintro rfl
    rfl

/-- A point among the numbers is a point of the list, if there is no letter left. -/
theorem exists_of_numberWeekdays {a b : List Char} (hu : ∀ c ∈ a ++ '.' :: b, c.isAlpha = false)
    (h : numberWeekdays t = a ++ '.' :: b) :
    ∃ x y, t = x ++ '.' :: y ∧ numberWeekdays x = a ∧ numberWeekdays y = b := by
  obtain ⟨x', y', ht, hx, hy⟩ :=
    ((numberWeekdays_eq_iff hu).mp h).exists_of_append_cons (by decide)
  obtain ⟨x, y, rfl, rfl, rfl⟩ := exists_of_map_toLower (by decide) ht
  exact ⟨x, y, rfl, (numberWeekdays_eq_iff fun c hc => hu c (by simp [hc])).mpr hx,
    (numberWeekdays_eq_iff fun c hc => hu c (by simp [hc])).mpr hy⟩

/-- Names are found on both sides of the points of a range, because no name has a point in it. -/
theorem numberWeekdays_append_points (a b : List Char) :
    numberWeekdays (a ++ ['.', '.'] ++ b) =
      numberWeekdays a ++ ['.', '.'] ++ numberWeekdays b := by
  have hpoint : ∀ a b, numberWeekdays (a ++ '.' :: b) =
      numberWeekdays a ++ '.' :: numberWeekdays b :=
    numberWeekdays_append_cons (by decide) (by decide)
  have hnil : numberWeekdays [] = [] := numberWeekdays_eq_nil_iff.mpr rfl
  have hsecond : numberWeekdays ('.' :: b) = '.' :: numberWeekdays b := by
    simpa [hnil] using hpoint [] b
  simp only [List.append_assoc, List.cons_append, List.nil_append, hpoint, hsecond]

/-- What is left as a range was written as one. -/
theorem exists_of_numberWeekdays_points {a b : List Char} (ha : ∀ c ∈ a, c.isAlpha = false)
    (hb : ∀ c ∈ b, c.isAlpha = false) (h : numberWeekdays t = a ++ ['.', '.'] ++ b) :
    ∃ x y, t = x ++ ['.', '.'] ++ y ∧ numberWeekdays x = a ∧ numberWeekdays y = b := by
  have hpoint : '.'.isAlpha = false := by decide
  have hsecond : ∀ c ∈ '.' :: b, c.isAlpha = false := List.forall_mem_cons.mpr ⟨hpoint, hb⟩
  rw [List.append_assoc, List.cons_append, List.singleton_append] at h
  obtain ⟨x, y', rfl, rfl, hy'⟩ := exists_of_numberWeekdays
    (List.forall_mem_append.mpr ⟨ha, List.forall_mem_cons.mpr ⟨hpoint, hsecond⟩⟩) h
  obtain ⟨z, y, rfl, hz, rfl⟩ := exists_of_numberWeekdays (a := []) hsecond hy'
  obtain rfl := numberWeekdays_eq_nil_iff.mp hz
  exact ⟨x, y, by simp, rfl, rfl⟩

/-- What stands between two commas is read with numbers in place of names. -/
theorem piece_weekday_iff (ht : ∀ c ∈ t, isWeekdayChar c = true) {o : Option Item} :
    Item.Piece (Component.weekday ≠ .weekday) (Reads .weekday) t o ↔
      Item.Piece True IsNumber (numberWeekdays t) o := by
  constructor
  · intro h
    cases h with
    | empty => exact .empty
    | star h => exact absurd rfl h
    | item h =>
      cases h with
      | number h => exact .item (.number (reads_weekday_iff.mp h))
      | range h h' =>
        rw [numberWeekdays_append_points]
        exact .item (.range (reads_weekday_iff.mp h) (reads_weekday_iff.mp h'))
  · intro h
    -- the names that were made into numbers are looked for behind the items that were read
    generalize hu : numberWeekdays t = u at h
    cases h with
    | empty => exact (numberWeekdays_eq_nil_iff.mp hu) ▸ .empty
    | star =>
      have hmem : '*' ∈ numberWeekdays t := by simp [hu]
      obtain hdigit | hmem := mem_numberWeekdays hmem
      · exact absurd hdigit (by decide)
      · exact absurd (ht _ (mem_of_mem_map_toLower (by decide) hmem)) (by decide)
    | item h =>
      cases h with
      | number h => exact .item (.number (reads_weekday_iff.mpr (hu ▸ h)))
      | range h h' =>
        obtain ⟨x, y, rfl, rfl, rfl⟩ := exists_of_numberWeekdays_points (isAlpha_of_isNumber h)
          (isAlpha_of_isNumber h') hu
        exact .item (.range (reads_weekday_iff.mpr h) (reads_weekday_iff.mpr h'))

/-- A character among the numbers is one of a list of days again. -/
theorem isWeekdayChar_of_mem (ht : ∀ c ∈ t, isWeekdayChar c = true) {c : Char}
    (hc : c ∈ numberWeekdays t) : isWeekdayChar c = true := by
  obtain hdigit | hmem := mem_numberWeekdays hc
  · simp [isWeekdayChar, hdigit]
  · by_cases halpha : c.isAlpha = true
    · simp [isWeekdayChar, halpha]
    · exact ht c (mem_of_mem_map_toLower (by simpa using halpha) hmem)

/-- Making names into numbers brings no characters but digits. -/
theorem notMem_numberWeekdays {c : Char} (hdigit : c.isDigit = false) (halpha : c.isAlpha = false)
    (hc : c ∉ t) : c ∉ numberWeekdays t := by
  intro h
  obtain h | h := mem_numberWeekdays h
  · rw [hdigit] at h
    exact Bool.noConfusion h
  · exact hc (mem_of_mem_map_toLower halpha h)

end Weekday

/-- A list of days of the week is read with numbers in place of names. -/
theorem lists_weekday_iff {l : List Char} (hl : ∀ c ∈ l, isWeekdayChar c = true)
    {items : List Item} :
    Lists .weekday l items ↔ Item.readList (numberWeekdays l) = .ok items := by
  have hplain : ∀ t : List Char, (∀ c ∈ t, isWeekdayChar c = true) →
      ∀ c ∈ numberWeekdays t, Item.IsPlainChar c :=
    fun t ht c hc => isPlainChar_of_isWeekdayChar (isWeekdayChar_of_mem ht hc)
  rw [Lists]
  -- piece by piece, as the list is split at its commas
  induction l using piece_induction ',' generalizing items with
  | last t ht =>
    rw [Listing.iff_of_notMem ht, Item.readList_eq_ok_iff_piece (hplain t hl)
      (notMem_numberWeekdays (by decide) (by decide) ht)]
    simp only [piece_weekday_iff hl]
  | piece t l ht ih =>
    have hfirst : ∀ c ∈ t, isWeekdayChar c = true := fun c hc => hl c (by simp [hc])
    have hrest : ∀ c ∈ l, isWeekdayChar c = true := fun c hc => hl c (by simp [hc])
    rw [Listing.append_comma_iff ht, numberWeekdays_append_cons (by decide) (by decide),
      Item.readList_append_comma_eq_ok_iff]
    simp only [Item.readList_eq_ok_iff_piece (hplain t hfirst)
      (notMem_numberWeekdays (by decide) (by decide) ht), piece_weekday_iff hfirst, ih hrest]
    constructor
    · rintro ⟨o, is, ho, his, rfl⟩
      exact ⟨o.toList, is, ⟨o, ho, rfl⟩, his, rfl⟩
    · rintro ⟨-, is, ⟨o, ho, rfl⟩, his, rfl⟩
      exact ⟨o, is, ho, his, rfl⟩

/-! ## The characters of a list -/

/-- A character stands in a name, or it is still there after names are made into numbers. -/
theorem isAlpha_or_mem_of_numbered {t u : List Char} (h : Numbered weekdayWords t u) {c : Char}
    (hc : c ∈ t) : c.isAlpha = true ∨ c ∈ u := by
  induction h with
  | nil => simp at hc
  | keep _ _ ih =>
    obtain rfl | hc := List.mem_cons.mp hc
    · exact .inr (by simp)
    · exact (ih hc).imp_right fun h => by simp [h]
  | name hv _ ih =>
    obtain hc | hc := List.mem_append.mp hc
    · exact .inl ((of_mem_weekdayWords hv).1.all c hc)
    · exact (ih hc).imp_right fun h => by simp [h]

/-- A digit may stand in the list of every part. -/
theorem isListChar_of_isDigit (c : Component) {x : Char} (h : x.isDigit = true) :
    c.isListChar x = true := by
  cases c <;> simp [isListChar, isWeekdayChar, isUnitChar, h]

/-- The text of a number has only characters of the lists. -/
theorem isListChar_of_reads {c : Component} {t : List Char} {n : Nat} (h : c.Reads t n) {x : Char}
    (hx : x ∈ t) : c.isListChar x = true := by
  -- a character of a name is a letter, and all others are digits
  by_cases hweekday : c = weekday
  · subst hweekday
    obtain ⟨u, hu, hn⟩ := h
    obtain halpha | hmem := isAlpha_or_mem_of_numbered hu (List.mem_map_of_mem hx)
    · simp [isListChar, isWeekdayChar, (Char.isAlpha_toLower_eq_isAlpha x).symm.trans halpha]
    · have hdigit := hn.isDigit _ hmem
      rw [toLower_of_isAlpha (isAlpha_of_isDigit hdigit)] at hdigit
      exact isListChar_of_isDigit _ hdigit
  · by_cases hyear : c = year
    · subst hyear
      obtain ⟨y, hy, -⟩ := h
      exact isListChar_of_isDigit _ (hy.isDigit x hx)
    · exact isListChar_of_isDigit c (((reads_iff hweekday hyear).mp h).isDigit x hx)

/-- A list has only characters of the lists. -/
theorem Lists.isListChar {c : Component} {l : List Char} {items : List Item} (h : c.Lists l items)
    {x : Char} (hx : x ∈ l) : c.isListChar x = true := by
  have hpoint : c.isListChar '.' = true := by cases c <;> decide
  have hcomma : c.isListChar ',' = true := by cases c <;> decide
  have hpiece : ∀ {t o}, Item.Piece (c ≠ weekday) c.Reads t o → ∀ x ∈ t, c.isListChar x = true := by
    intro t o hp x hx
    cases hp with
    | empty => simp at hx
    | star hc =>
      obtain rfl := List.mem_singleton.mp hx
      cases c <;> first | exact absurd rfl hc | decide
    | item hi =>
      cases hi with
      | number h => exact isListChar_of_reads h hx
      | range h h' =>
        simp only [List.mem_append, List.mem_cons, List.not_mem_nil, or_false, or_self] at hx
        obtain (hx | rfl) | hx := hx
        · exact isListChar_of_reads h hx
        · exact hpoint
        · exact isListChar_of_reads h' hx
  rw [Lists] at h
  -- a character stands in a piece, or it is a comma between two
  induction l using piece_induction ',' generalizing items with
  | last t ht =>
    obtain ⟨o, ho, -⟩ := (Listing.iff_of_notMem ht).mp h
    exact hpiece ho x hx
  | piece t l ht ih =>
    obtain ⟨o, is, ho, his, -⟩ := (Listing.append_comma_iff ht).mp h
    obtain hx | hx := List.mem_append.mp hx
    · exact hpiece ho x hx
    · obtain rfl | hx := List.mem_cons.mp hx
      · exact hcomma
      · exact ih his hx

/-! ## Filling a component -/

section Fills

variable {l : List Char}

/-- A list of days of the week fills them if its items are inserted as cyclic ones. -/
theorem fills_weekday_iff {s : Selection (domain .weekday)} : Fills .weekday (some l) s ↔
    ∃ items, Lists .weekday l items ∧ items.foldlM Selection.insertCyclic .any = .ok s := by
  have hstep : ∀ (s : Selection (domain .weekday)) (i : Item) s',
      s.insertCyclic i = .ok s' ↔
        Accepts .weekday i ∧ (numbers .weekday i).foldlM Selection.insert s = .ok s' := by
    intro s i s'
    rw [accepts_iff]
    exact Selection.insertCyclic_eq_ok_iff
  refine exists_congr fun items => and_congr_right fun _ => ?_
  rw [Selection.foldlM_any_eq_ok_iff hstep (width_lt _) fun i hi n hn => hi.holds hn]

/-- A list of another component fills it if its items are inserted as they are. -/
theorem fills_iff {c : Component} (hc : c ≠ weekday) {s : Selection c.domain} :
    c.Fills (some l) s ↔
      ∃ items, c.Lists l items ∧ items.foldlM Selection.insertItem .any = .ok s := by
  have hstep : ∀ (s : Selection c.domain) (i : Item) s',
      s.insertItem i = .ok s' ↔
        c.Accepts i ∧ (c.numbers i).foldlM Selection.insert s = .ok s' := by
    intro s i s'
    rw [accepts_iff, Selection.insertItem_eq_ok_iff]
    simp [spread, numbers, hc]
  refine exists_congr fun items => and_congr_right fun _ => ?_
  rw [Selection.foldlM_any_eq_ok_iff hstep (width_lt _) fun i hi n hn => hi.holds hn]

end Fills

end Component

namespace Expression

open Component

section Insert

variable {e r : Event} {l : List Char}

/-- **Reading a list into a part** that is free succeeds exactly if the list fills it, and then it
sets this part only. The statement is the same for all parts, as are the next two for years and for
days of the week. -/
theorem insertUnit_eq_ok_iff {c : Component} (hweekday : c ≠ .weekday) (hyear : c ≠ .year)
    (hfree : e.get c = .any) (hl : IsMadeOf isUnitChar l) :
    insertUnit c e l = .ok r ↔ ∃ s, c.Fills (some l) s ∧ r = e.set c s := by
  have hinsert : insertUnit c e l = .ok r ↔
      ∃ s, (e.get c).insertText l = (s, .ok ()) ∧ r = e.set c s := by
    rw [insertUnit]
    split
    · next s h => simp [h, eq_comm]
    · next s err h => simp [h]
  rw [hinsert]
  simp only [Selection.insertText_eq_ok_iff, hfree, fills_iff hweekday,
    lists_iff_readList hweekday hyear hl]

/-- The same for years, which may be written with two digits. -/
theorem insertYears_eq_ok_iff (hfree : e.year = .any) (hl : IsMadeOf isUnitChar l) :
    insertYears e l = .ok r ↔ ∃ s, Fills .year (some l) s ∧ r = e.set .year s := by
  simp only [insertYears, bind_eq_ok, pure_eq_ok, hfree, fills_iff (c := .year) (by decide),
    lists_year_iff hl]
  constructor
  · rintro ⟨is, his, s, hs, rfl⟩
    exact ⟨s, ⟨_, ⟨is, his, rfl⟩, hs⟩, rfl⟩
  · rintro ⟨s, ⟨-, ⟨is, his, rfl⟩, hs⟩, rfl⟩
    exact ⟨is, his, s, hs, rfl⟩

/-- The same for days of the week, which may be written as names. -/
theorem insertWeekdays_eq_ok_iff (hfree : e.weekday = .any) (hl : IsMadeOf isWeekdayChar l) :
    insertWeekdays e l = .ok r ↔
      ∃ s, Fills .weekday (some l) s ∧ r = e.set .weekday s := by
  simp only [insertWeekdays, bind_eq_ok, pure_eq_ok, hfree, fills_weekday_iff,
    lists_weekday_iff hl.all]
  constructor
  · rintro ⟨items, hitems, s, hs, rfl⟩
    exact ⟨s, ⟨items, hitems, hs⟩, rfl⟩
  · rintro ⟨s, ⟨items, hitems, hs⟩, rfl⟩
    exact ⟨items, hitems, s, hs, rfl⟩

/-- A step on a list that may be missing from a free component. -/
theorem whenWritten_eq_ok_iff {c : Component}
    {step : Event → List Char → Except SelectionError Event}
    (hc : c.unwritten = .any) (hfree : e.get c = .any) {o : Option (List Char)}
    (hstep : ∀ l ∈ o, step e l = .ok r ↔ ∃ s, c.Fills (some l) s ∧ r = e.set c s) :
    whenWritten step e o = .ok r ↔ ∃ s, c.Fills o s ∧ r = e.set c s := by
  cases o with
  | none =>
    have hsame : e.set c c.unwritten = e := by rw [hc, ← hfree, Event.set_get]
    simp [whenWritten, Fills, hsame, eq_comm]
  | some l => exact hstep l rfl

/-- Month and day are written together. -/
theorem whenWritten_monthDay_iff (hmonth : e.month = .any) (hday : e.day = .any)
    {o : Option (List Char × List Char)}
    (ho : ∀ p ∈ o, IsMadeOf isUnitChar p.1 ∧ IsMadeOf isUnitChar p.2) :
    whenWritten (fun e (m, d) => do insertUnit .day (← insertUnit .month e m) d) e o = .ok r ↔
      ∃ s t, Fills .month (o.map Prod.fst) s ∧ Fills .day (o.map Prod.snd) t ∧
        r = (e.set .month s).set .day t := by
  cases o with
  | none =>
    have hsame : (e.set .month .any).set .day .any = e := by
      rw [← hmonth, ← hday]
      rfl
    simp [whenWritten, Fills, unwritten, hsame, eq_comm]
  | some p =>
    obtain ⟨hm, hd⟩ := ho p rfl
    have insertDay := fun s => insertUnit_eq_ok_iff (e := e.set .month s) (r := r) (c := .day)
      (by decide) (by decide) hday hd
    -- the month is set before the day is read, and the day is still free then
    simp only [whenWritten, bind_eq_ok, Option.map_some,
      insertUnit_eq_ok_iff (c := .month) (by decide) (by decide) hmonth hm]
    constructor
    · rintro ⟨-, ⟨s, hs, rfl⟩, h⟩
      obtain ⟨t, ht, rfl⟩ := (insertDay s).mp h
      exact ⟨s, t, hs, ht, rfl⟩
    · rintro ⟨s, t, hs, ht, rfl⟩
      exact ⟨_, ⟨s, hs, rfl⟩, (insertDay s).mpr ⟨t, ht, rfl⟩⟩

/-- The second 0 is inserted where no seconds are written. -/
theorem insertUnit_second_iff (hfree : e.second = .any) {o : Option (List Char)}
    (ho : ∀ l ∈ o, IsMadeOf isUnitChar l) : insertUnit .second e (o.getD ['0']) = .ok r ↔
      ∃ s, Fills .second o s ∧ r = e.set .second s := by
  cases o with
  | none =>
    have hzero : (Selection.any : Selection (domain .second)).insertText ['0'] =
        (.ofList [0], .ok ()) := by
      cbv
    simp [insertUnit, Event.get, hfree, hzero, Fills, unwritten, eq_comm]
  | some l => exact insertUnit_eq_ok_iff (c := .second) (by decide) (by decide) hfree (ho l rfl)

/-- The step of an expression for its time of day. -/
def insertTime (e : Event) (o : Option (List Char × List Char)) (second : Option (List Char)) :
    Except SelectionError Event :=
  match o with
  | none => return { e with hour := .ofList [0], minute := .ofList [0], second := .ofList [0] }
  | some (h, m) => do
    let e ← insertUnit .minute (← insertUnit .hour e h) m
    insertUnit .second e (second.getD ['0'])

/-- The steps of an expression, the one for its time of day last. -/
theorem event_eq (x : Expression) : x.event = (do
    let e ← whenWritten insertWeekdays .anytime x.weekday
    let e ← whenWritten insertYears e x.year
    let e ← whenWritten (fun e (m, d) => do insertUnit .day (← insertUnit .month e m) d) e
      x.monthDay
    insertTime e x.hourMinute x.second) :=
  rfl

/-- Hour and minute are written together, and a second only with them. -/
theorem insertTime_iff (hhour : e.hour = .any) (hminute : e.minute = .any)
    (hsecond : e.second = .any) {o : Option (List Char × List Char)} {o' : Option (List Char)}
    (ho : ∀ p ∈ o, IsMadeOf isUnitChar p.1 ∧ IsMadeOf isUnitChar p.2)
    (ho' : ∀ l ∈ o', IsMadeOf isUnitChar l) (hnone : o = none → o' = none) :
    insertTime e o o' = .ok r ↔ ∃ s t u, Fills .hour (o.map Prod.fst) s ∧
      Fills .minute (o.map Prod.snd) t ∧ Fills .second o' u ∧
      r = ((e.set .hour s).set .minute t).set .second u := by
  -- without a time of day there are no seconds either, and all three parts are left as they are
  cases o with
  | none =>
    obtain rfl := hnone rfl
    constructor
    · intro h
      exact ⟨_, _, _, rfl, rfl, rfl, (pure_eq_ok.mp h).symm⟩
    · rintro ⟨-, -, -, rfl, rfl, rfl, rfl⟩
      rfl
  | some p =>
    obtain ⟨hh, hm⟩ := ho p rfl
    have insertMinute := fun s r => insertUnit_eq_ok_iff (e := e.set .hour s) (r := r)
      (c := .minute) (by decide) (by decide) hminute hm
    have insertSecond := fun s t => insertUnit_second_iff (e := (e.set .hour s).set .minute t)
      (r := r) hsecond ho'
    simp only [insertTime, bind_eq_ok, Option.map_some,
      insertUnit_eq_ok_iff (c := .hour) (by decide) (by decide) hhour hh]
    constructor
    · rintro ⟨-, ⟨s, hs, rfl⟩, e₁, hmin, hsec⟩
      obtain ⟨t, ht, rfl⟩ := (insertMinute s e₁).mp hmin
      obtain ⟨u, hu, rfl⟩ := (insertSecond s t).mp hsec
      exact ⟨s, t, u, hs, ht, hu, rfl⟩
    · rintro ⟨s, t, u, hs, ht, hu, rfl⟩
      exact ⟨_, ⟨s, hs, rfl⟩, _, (insertMinute s _).mpr ⟨t, ht, rfl⟩,
        (insertSecond s t).mpr ⟨u, hu, rfl⟩⟩

end Insert

/-- **The event of an expression** has each of its components filled. -/
theorem event_eq_ok_iff {x : Expression} (hx : x.IsFormed) {e : Event} :
    x.event = .ok e ↔ ∀ c : Component, c.Fills (x.list? c) (e.get c) := by
  obtain ⟨-, -, hsecond, hlists⟩ := hx
  obtain ⟨hw, hy, hmonth, hday, hhour, hminute, ht⟩ := Component.forall_iff.mp hlists
  have hdate : ∀ p ∈ x.monthDay, IsMadeOf isUnitChar p.1 ∧ IsMadeOf isUnitChar p.2 := fun p hp =>
    ⟨hmonth _ (Option.map_eq_some_iff.mpr ⟨p, hp, rfl⟩),
      hday _ (Option.map_eq_some_iff.mpr ⟨p, hp, rfl⟩)⟩
  have htime : ∀ p ∈ x.hourMinute, IsMadeOf isUnitChar p.1 ∧ IsMadeOf isUnitChar p.2 :=
    fun p hp => ⟨hhour _ (Option.map_eq_some_iff.mpr ⟨p, hp, rfl⟩),
      hminute _ (Option.map_eq_some_iff.mpr ⟨p, hp, rfl⟩)⟩
  have weekdays := fun r => whenWritten_eq_ok_iff (c := .weekday) (e := .anytime) (r := r)
    (o := x.weekday) rfl rfl fun l hl => insertWeekdays_eq_ok_iff rfl (hw l hl)
  have years := fun e (hfree : e.year = .any) r => whenWritten_eq_ok_iff (c := .year) (e := e)
    (r := r) (o := x.year) rfl hfree fun l hl => insertYears_eq_ok_iff hfree (hy l hl)
  -- the parts are read from left to right, and each finds the ones behind it free
  rw [event_eq]
  simp only [bind_eq_ok, weekdays]
  -- so the lists that are written say what each part is, and nothing else does
  constructor
  · rintro ⟨-, ⟨s₁, h₁, rfl⟩, e₂, hyears, e₃, hmonthDay, htimes⟩
    obtain ⟨s₂, h₂, rfl⟩ := (years _ rfl e₂).mp hyears
    obtain ⟨s₃, s₄, h₃, h₄, rfl⟩ := (whenWritten_monthDay_iff rfl rfl hdate).mp hmonthDay
    obtain ⟨s₅, s₆, s₇, h₅, h₆, h₇, rfl⟩ :=
      (insertTime_iff rfl rfl rfl htime ht hsecond).mp htimes
    exact Component.forall_iff.mpr ⟨h₁, h₂, h₃, h₄, h₅, h₆, h₇⟩
  · intro h
    obtain ⟨h₁, h₂, h₃, h₄, h₅, h₆, h₇⟩ := Component.forall_iff.mp h
    exact ⟨_, ⟨e.weekday, h₁, rfl⟩, _, (years _ rfl _).mpr ⟨e.year, h₂, rfl⟩, _,
      (whenWritten_monthDay_iff rfl rfl hdate).mpr ⟨e.month, e.day, h₃, h₄, rfl⟩,
      (insertTime_iff rfl rfl rfl htime ht hsecond).mpr
        ⟨e.hour, e.minute, e.second, h₅, h₆, h₇, rfl⟩⟩

end Expression

end Timetable
