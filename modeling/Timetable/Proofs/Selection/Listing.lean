import Mathlib.Data.List.Forall2
import Mathlib.Data.List.ReduceOption
import Timetable.Proofs.Selection.Text

/-!
Lists of items as they may be written.

Between two commas of a list stands nothing, a star, a number, or two numbers
with a mark between. What counts as the text of a number is left open here,
because years and days of the week have texts of their own. A list is read if and
only if every piece of it is one of these, and then as the items of its pieces in
their order.

Items are inserted one after another. A number has to be in the domain, and so
have the ends of a range, unless the ends are in the wrong order: such a range has
no numbers, and its ends are not looked at. Only in a cyclic domain it has numbers
again, those from its first end on and those up to its second. A row of items that
is taken leads to the selection into which all their numbers are inserted, so how
it is stored depends on how many numbers there are, and what is in it on which.
-/

set_option autoImplicit false

namespace Timetable

open Text

/-- The items for which a comma list stands: what stands between two commas is related to an item
or to nothing. -/
def Listing (P : List Char → Option Item → Prop) (l : List Char) (items : List Item) : Prop :=
  ∃ os, List.Forall₂ P (l.splitOn ',') os ∧ items = os.reduceOption

namespace Listing

variable {P Q : List Char → Option Item → Prop} {t l : List Char} {items : List Item}

/-- A list without commas is one piece. -/
theorem iff_of_notMem (h : ',' ∉ t) : Listing P t items ↔ ∃ o, P t o ∧ items = o.toList := by
  rw [Listing, splitOn_of_notMem h]
  constructor
  · rintro ⟨os, hos, rfl⟩
    obtain ⟨o, _, ho, hnil, rfl⟩ := List.forall₂_cons_left_iff.mp hos
    rw [List.forall₂_nil_left_iff] at hnil
    exact ⟨o, ho, by cases o <;> simp [hnil, List.reduceOption]⟩
  · rintro ⟨o, ho, rfl⟩
    exact ⟨[o], .cons ho .nil, by cases o <;> simp [List.reduceOption]⟩

/-- The first piece of a list goes up to the first comma. -/
theorem append_comma_iff (h : ',' ∉ t) : Listing P (t ++ ',' :: l) items ↔
    ∃ o is, P t o ∧ Listing P l is ∧ items = o.toList ++ is := by
  rw [Listing, splitOn_append_cons h]
  constructor
  · rintro ⟨os, hos, rfl⟩
    obtain ⟨o, os', ho, hos', rfl⟩ := List.forall₂_cons_left_iff.mp hos
    exact ⟨o, _, ho, ⟨os', hos', rfl⟩, by cases o <;> simp [List.reduceOption]⟩
  · rintro ⟨o, is, ho, ⟨os, hos, rfl⟩, rfl⟩
    exact ⟨o :: os, .cons ho hos, by cases o <;> simp [List.reduceOption]⟩

/-- Another relation on the pieces lists the same, if it holds wherever the first one gives an item
that is listed. -/
theorem mono (h : Listing P l items)
    (hPQ : ∀ t o, (∀ i ∈ o, i ∈ items) → P t o → Q t o) : Listing Q l items := by
  induction l using piece_induction ',' generalizing items with
  | last t ht =>
    rw [iff_of_notMem ht] at h ⊢
    obtain ⟨o, ho, rfl⟩ := h
    exact ⟨o, hPQ t o (fun i hi => by simpa using hi) ho, rfl⟩
  | piece t l ht ih =>
    rw [append_comma_iff ht] at h ⊢
    obtain ⟨o, is, ho, his, rfl⟩ := h
    refine ⟨o, is, hPQ t o (fun i hi => ?_) ho, ih his fun t' o' ho' => ?_, rfl⟩
    · exact List.mem_append_left _ (by simpa using hi)
    · exact hPQ t' o' fun i hi => List.mem_append_right _ (ho' i hi)

/-- A listing of other items that are made of the items listed. -/
theorem map_iff {f : Item → Item} : Listing (fun t o => ∃ o', P t o' ∧ o = o'.map f) l items ↔
    ∃ is, Listing P l is ∧ items = is.map f := by
  -- the pieces of a list are mapped one by one
  induction l using piece_induction ',' generalizing items with
  | last t ht =>
    simp only [iff_of_notMem ht]
    constructor
    · rintro ⟨-, ⟨o, ho, rfl⟩, rfl⟩
      exact ⟨o.toList, ⟨o, ho, rfl⟩, by cases o <;> rfl⟩
    · rintro ⟨-, ⟨o, ho, rfl⟩, rfl⟩
      exact ⟨o.map f, ⟨o, ho, rfl⟩, by cases o <;> rfl⟩
  | piece t l ht ih =>
    simp only [append_comma_iff ht, ih]
    constructor
    · rintro ⟨-, -, ⟨o, ho, rfl⟩, ⟨is, his, rfl⟩, rfl⟩
      exact ⟨o.toList ++ is, ⟨o, is, ho, his, rfl⟩, by cases o <;> simp⟩
    · rintro ⟨-, ⟨o, is, ho, his, rfl⟩, rfl⟩
      exact ⟨o.map f, is.map f, ⟨o, ho, rfl⟩, ⟨is, his, rfl⟩, by cases o <;> simp⟩

end Listing

namespace Item

/-- The text of an item: a number, or two numbers with a mark between. -/
inductive Spelled (mark : List Char) (L : List Char → Nat → Prop) : List Char → Item → Prop where
  | number {t : List Char} {n : Nat} : L t n → Spelled mark L t (.number n)
  | range {t t' : List Char} {a b : Nat} :
    L t a → L t' b → Spelled mark L (t ++ mark ++ t') (.range a b)

/-- What stands between two commas: nothing, a star if there are stars, or an item. -/
inductive Piece (starred : Prop) (L : List Char → Nat → Prop) : List Char → Option Item → Prop where
  | empty : Piece starred L [] none
  | star : starred → Piece starred L ['*'] none
  | item {t : List Char} {i : Item} : Spelled ['.', '.'] L t i → Piece starred L t (some i)

/-- An item stays spelled when more ways to read its numbers are allowed. -/
theorem Spelled.mono {mark : List Char} {L L' : List Char → Nat → Prop}
    (hL : ∀ t n, L t n → L' t n) {t : List Char} {i : Item} (h : Spelled mark L t i) :
    Spelled mark L' t i := by
  cases h with
  | number h => exact .number (hL _ _ h)
  | range h h' => exact .range (hL _ _ h) (hL _ _ h')

/-- The same for a piece of a list, which may be empty or a star. -/
theorem Piece.mono {p q : Prop} {L L' : List Char → Nat → Prop} (hpq : p → q)
    (hL : ∀ t n, L t n → L' t n) {t : List Char} {o : Option Item} (h : Piece p L t o) :
    Piece q L' t o := by
  cases h with
  | empty => exact .empty
  | star h => exact .star (hpq h)
  | item h => exact .item (h.mono hL)

/-! ## Reading a list -/

/-- A character as it stands in lists of numbers: it is not trimmed, and no sign. -/
def IsPlainChar (c : Char) : Prop :=
  isBlank c = false ∧ c ≠ '+'

section Plain

variable {t : List Char} (ht : ∀ c ∈ t, IsPlainChar c)

include ht

/-- What is read as a number is a written number. -/
theorem readNumber_eq_ok_iff {n : Nat} : readNumber t = .ok n ↔ IsNumber t n := by
  constructor
  · intro h
    rw [readNumber, trim_of_blankFree fun c hc => (ht c hc).1] at h
    split at h
    · next m hm =>
      obtain rfl := Except.ok.inj h
      obtain hnumber | ⟨ds, rfl, -⟩ := readNumeral_eq_ok_iff.mp hm
      · exact hnumber
      · exact absurd rfl (ht '+' (by simp)).2
    · cases h
  · exact readNumber_eq_ok

/-- What is read as an item is a spelled one. -/
theorem read_eq_ok_iff {i : Item} : read t = .ok i ↔ Spelled ['.', '.'] IsNumber t i := by
  constructor
  · intro h
    rw [read] at h
    -- the points are found, or the whole token is one number
    split at h
    · next first last hcut =>
      obtain ⟨rfl, -⟩ := eq_append_of_cutAt? (by simp) hcut
      obtain ⟨a, ha, h⟩ := bind_eq_ok.mp h
      obtain ⟨b, hb, h⟩ := bind_eq_ok.mp h
      rw [pure_eq_ok] at h
      subst h
      exact .range ((readNumber_eq_ok_iff fun c hc => ht c (by simp [hc])).mp ha)
        ((readNumber_eq_ok_iff fun c hc => ht c (by simp [hc])).mp hb)
    · obtain ⟨a, ha, h⟩ := bind_eq_ok.mp h
      rw [pure_eq_ok] at h
      subst h
      exact .number ((readNumber_eq_ok_iff ht).mp ha)
  · intro h
    cases h with
    | number h => exact read_number h
    | range h h' => simpa using read_range h h'

/-- A list without commas is read as the piece that it is. -/
theorem readList_eq_ok_iff_piece (hcomma : ',' ∉ t) {items : List Item} :
    readList t = .ok items ↔ ∃ o, Piece True IsNumber t o ∧ items = o.toList := by
  have hblank : ∀ c ∈ t, isBlank c = false := fun c hc => (ht c hc).1
  constructor
  · intro h
    -- the tokens without an item are the empty one and the star
    by_cases hne : t = []
    · subst hne
      exact ⟨none, .empty, (Except.ok.inj h).symm⟩
    by_cases hstar : t = ['*']
    · subst hstar
      have hread : readList ['*'] = .ok [] := by cbv
      rw [hread] at h
      exact ⟨none, .star trivial, (Except.ok.inj h).symm⟩
    rw [readList_of_notMem hcomma hblank hne hstar] at h
    obtain ⟨i, hi, rfl⟩ := map_eq_ok.mp h
    exact ⟨some i, .item ((read_eq_ok_iff ht).mp hi), rfl⟩
  · rintro ⟨o, hpiece, rfl⟩
    cases hpiece with
    | empty => rfl
    | star => cbv
    | item h =>
      cases h with
      | number h => exact readList_number h
      | range h h' => simpa using readList_range h h'

end Plain

/-- **A list is read if and only if it is a listing of numbers**, and as what it lists. -/
theorem readList_eq_ok_iff {l : List Char} (hl : ∀ c ∈ l, IsPlainChar c) {items : List Item} :
    readList l = .ok items ↔ Listing (Piece True IsNumber) l items := by
  -- one comma after another
  induction l using piece_induction ',' generalizing items with
  | last t ht => rw [readList_eq_ok_iff_piece hl ht, Listing.iff_of_notMem ht]
  | piece t l ht ih =>
    have hfirst : ∀ c ∈ t, IsPlainChar c := fun c hc => hl c (by simp [hc])
    have hrest : ∀ c ∈ l, IsPlainChar c := fun c hc => hl c (by simp [hc])
    rw [readList_append_comma_eq_ok_iff, Listing.append_comma_iff ht]
    simp only [readList_eq_ok_iff_piece hfirst ht, ih hrest]
    constructor
    · rintro ⟨-, js, ⟨o, ho, rfl⟩, hjs, rfl⟩
      exact ⟨o, js, ho, hjs, rfl⟩
    · rintro ⟨o, js, ho, hjs, rfl⟩
      exact ⟨o.toList, js, ⟨o, ho, rfl⟩, hjs, rfl⟩

/-- An item that insertions take: its numbers are in the domain. Nothing is asked of the ends of a
range in the wrong order. -/
def IsTaken (d : Domain) : Item → Prop
  | number n => d.holds n = true
  | range a b => a ≤ b → d.holds a = true ∧ d.holds b = true

/-- The items as which a cyclic domain takes an item: a range with its ends in the wrong order runs
through the end of the domain and goes on at its start. -/
def unwrap (d : Domain) : Item → List Item
  | number n => [number n]
  | range a b => if b < a then [range a d.hi, range d.lo b] else [range a b]

/-- The numbers that are written for an item. -/
def ends : Item → List Nat
  | number n => [n]
  | range a b => [a, b]

/-- A range with its ends in the wrong order. -/
def IsReversed : Item → Prop
  | number _ => False
  | range a b => b < a

/-- The numbers of a range in the wrong order are none, and of any other item there are some. -/
theorem numbers_eq_nil_iff {i : Item} : i.numbers = [] ↔ i.IsReversed := by
  cases i with
  | number n => simp [numbers, IsReversed]
  | range a b =>
    simp only [numbers, IsReversed, List.range'_eq_nil_iff]
    omega

/-- The numbers of an item that is taken are in the domain. -/
theorem IsTaken.holds {d : Domain} {i : Item} (h : i.IsTaken d) {n : Nat} (hn : n ∈ i.numbers) :
    d.holds n = true := by
  cases i with
  | number m =>
    obtain rfl := List.mem_singleton.mp hn
    exact h
  | range a b =>
    rw [numbers, List.mem_range'_1] at hn
    obtain ⟨ha, hb⟩ := h (by omega)
    have hlo := (Selection.holds_iff.mp ha).1
    have hhi := (Selection.holds_iff.mp hb).2
    exact Selection.holds_iff.mpr ⟨by omega, by omega⟩

/-- The numbers that are written for an item that is taken are in the domain, if it is no range in
the wrong order. -/
theorem IsTaken.holds_ends {d : Domain} {i : Item} (h : i.IsTaken d) (hi : ¬ i.IsReversed) :
    ∀ n ∈ i.ends, d.holds n = true := by
  cases i with
  | number n => simpa [ends, IsTaken] using h
  | range a b =>
    rw [IsReversed] at hi
    obtain ⟨ha, hb⟩ := h (by omega)
    simp [ends, ha, hb]

end Item

namespace Selection

variable {d : Domain}

/-! ## Inserting items -/

/-- A range is inserted if its ends are in the domain, and an empty one in any case, because its
ends are not looked at. -/
theorem insertRange_eq_ok_iff {s s' : Selection d} {a b : Nat} : s.insertRange a b = .ok s' ↔
    (a ≤ b → d.holds a = true ∧ d.holds b = true) ∧
      (List.range' a (b + 1 - a)).foldlM insert s = .ok s' := by
  by_cases hlt : b < a
  · have hnone : b + 1 - a = 0 := by omega
    simp [insertRange, hlt, hnone, pure_eq_ok]
  · have hle : a ≤ b := by omega
    by_cases ha : d.holds a = true
    · by_cases hb : d.holds b = true
      · simp [insertRange, hlt, hle, ha, hb]
      · simp [insertRange, hlt, hle, ha, hb]
    · simp [insertRange, hlt, hle, ha]

/-- An item is inserted if it is taken, and then it is as if its numbers were inserted one by
one. -/
theorem insertItem_eq_ok_iff {s s' : Selection d} {i : Item} :
    s.insertItem i = .ok s' ↔ i.IsTaken d ∧ i.numbers.foldlM insert s = .ok s' := by
  cases i with
  | number n =>
    simp only [insertItem, Item.IsTaken, Item.numbers, List.foldlM_cons, List.foldlM_nil, bind_pure]
    exact ⟨fun h => ⟨holds_of_insert_eq_ok h, h⟩, fun h => h.2⟩
  | range a b => exact insertRange_eq_ok_iff

section Row

variable {f : Selection d → Item → Except SelectionError (Selection d)} {taken : Item → Prop}
  {numbers : Item → List Nat}
  (hstep : ∀ s i s', f s i = .ok s' ↔ taken i ∧ (numbers i).foldlM insert s = .ok s')

include hstep

/-- A row of items inserts the numbers of all of them, if each is taken. -/
theorem foldlM_eq_ok_iff {items : List Item} {s s' : Selection d} : items.foldlM f s = .ok s' ↔
    (∀ i ∈ items, taken i) ∧ (items.flatMap numbers).foldlM insert s = .ok s' := by
  induction items generalizing s with
  | nil => simp
  | cons i items ih =>
    rw [List.foldlM_cons, List.flatMap_cons, List.foldlM_append, bind_eq_ok, bind_eq_ok,
      List.forall_mem_cons]
    simp only [hstep, ih]
    constructor
    · rintro ⟨s₁, ⟨hi, h₁⟩, hitems, h₂⟩
      exact ⟨⟨hi, hitems⟩, s₁, h₁, h₂⟩
    · rintro ⟨⟨hi, hitems⟩, s₁, h₁, h₂⟩
      exact ⟨s₁, ⟨hi, h₁⟩, hitems, h₂⟩

/-- **A row of items in an empty selection.** It is taken if each item is, and then it leads to the
selection into which their numbers have been inserted. -/
theorem foldlM_any_eq_ok_iff (hd : d.width < wordLimit)
    (hholds : ∀ i, taken i → ∀ n ∈ numbers i, d.holds n = true) {items : List Item}
    {s : Selection d} : items.foldlM f .any = .ok s ↔
      (∀ i ∈ items, taken i) ∧ s = inserted d (items.flatMap numbers) := by
  rw [foldlM_eq_ok_iff hstep]
  refine and_congr_right fun hitems => ?_
  have hns : ∀ n ∈ items.flatMap numbers, d.holds n = true := by
    intro n hn
    obtain ⟨i, hi, hn⟩ := List.mem_flatMap.mp hn
    exact hholds i (hitems i hi) n hn
  rw [foldlM_insert_any hd hns, Except.ok.injEq, eq_comm]

end Row

/-- A reversed range in a cyclic domain is inserted as two ranges. -/
theorem insertCyclic_eq_foldlM (s : Selection d) (i : Item) :
    s.insertCyclic i = (i.unwrap d).foldlM insertItem s := by
  cases i with
  | number n => simp [insertCyclic, Item.unwrap]
  | range a b =>
    by_cases hlt : b < a
    · simp [insertCyclic, Item.unwrap, hlt, insertItem]
    · simp [insertCyclic, Item.unwrap, hlt, insertItem]

/-- So it is inserted if both halves are taken. -/
theorem insertCyclic_eq_ok_iff {s s' : Selection d} {i : Item} : s.insertCyclic i = .ok s' ↔
    (∀ j ∈ i.unwrap d, j.IsTaken d) ∧
      ((i.unwrap d).flatMap Item.numbers).foldlM insert s = .ok s' := by
  rw [insertCyclic_eq_foldlM]
  exact foldlM_eq_ok_iff (f := insertItem) fun _ _ _ => insertItem_eq_ok_iff

/-- All items are inserted exactly if each can be inserted behind those before it. -/
theorem insertAll_eq_ok_iff {items : List Item} {s s' : Selection d} :
    s.insertAll items = (s', .ok ()) ↔ items.foldlM insertItem s = .ok s' := by
  refine ⟨fun h => ?_, insertAll_eq_of_foldlM⟩
  induction items generalizing s with
  | nil => exact congrArg Except.ok (Prod.mk.inj h).1
  | cons i items ih =>
    rw [insertAll] at h
    split at h
    · next s₁ h₁ => exact bind_eq_ok.mpr ⟨s₁, h₁, ih h⟩
    · cases h

/-- A list is inserted exactly if it is read as items that are. -/
theorem insertText_eq_ok_iff {l : List Char} {s s' : Selection d} :
    s.insertText l = (s', .ok ()) ↔
      ∃ items, Item.readList l = .ok items ∧ items.foldlM insertItem s = .ok s' := by
  rw [insertText]
  split
  · next items h => simp [h, insertAll_eq_ok_iff]
  · next err h => simp [h]

/-! ## What a row of insertions leads to -/

section Inserted

variable (hd : d.width < wordLimit) {ns : List Nat} (hns : ∀ n ∈ ns, d.holds n = true)

include hd hns

/-- A row of insertions puts in its numbers and no others. -/
theorem inserted_spec : (inserted d ns).Reached ∧ ∀ n, n ∈ (inserted d ns).members ↔ n ∈ ns := by
  obtain ⟨s, hs, hreached, hmembers⟩ := Reached.any.exists_foldlM_insert hd hns
  rw [foldlM_insert_any hd hns] at hs
  obtain rfl := Except.ok.inj hs
  exact ⟨hreached, fun n => by simp [hmembers]⟩

end Inserted

/-- Any number that is inserted makes a selection other than the one of anything. -/
theorem inserted_eq_any_iff {ns : List Nat} : inserted d ns = .any ↔ ns = [] := by
  match ns with
  | [] => simp [inserted]
  | [n] => simp [inserted]
  | n :: m :: ns => simp [inserted]

/-- Something is restricted if and only if one of the items has a number. -/
theorem isPopulated_inserted_flatMap {items : List Item} {numbers : Item → List Nat} :
    (inserted d (items.flatMap numbers)).isPopulated = true ↔ ∃ i ∈ items, numbers i ≠ [] := by
  rw [← Bool.not_eq_false, isPopulated_eq_false_iff, inserted_eq_any_iff, List.flatMap_eq_nil_iff]
  simp

end Selection

end Timetable
