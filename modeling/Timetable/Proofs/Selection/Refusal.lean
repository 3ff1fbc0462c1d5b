import Timetable.Proofs.Selection.Arithmetic

/-!
What a refused insertion leaves.

A number is refused if the domain does not hold it, and a range in the right order if
the domain does not hold both of its ends. In words too, either changes nothing then:
the ends are looked at before the first number goes in, and after that no number is
refused. A list is refused as a whole if one of its tokens is malformed. Otherwise it
is inserted item by item, and if an item is refused, the items in front of it stay.
-/

set_option autoImplicit false

namespace Timetable

open Text (wordLimit)

/-- The number that is reported of an item that is refused: of a range it is the first end unless
the domain holds that. -/
def Item.refused (d : Domain) : Item → Nat
  | number n => n
  | range a b => if d.holds a then b else a

namespace Selection

variable {d : Domain} {s : Selection d} {i : Item} {items before after : List Item}

/-! ## Items -/

/-- An item that is not taken is refused with the end that is named first. -/
theorem insertItem_eq_error (hi : ¬ i.IsTaken d) :
    s.insertItem i = .error (.outOfRange (i.refused d) d) := by
  cases i with
  | number n => exact insert_eq_error hi
  | range a b =>
    rw [Item.IsTaken, Classical.not_imp] at hi
    obtain ⟨hle, hends⟩ := hi
    rw [insertItem, insertRange, if_neg (Nat.not_lt.mpr hle)]
    by_cases ha : d.holds a = true
    · have hb : ¬ d.holds b = true := fun hb => hends ⟨ha, hb⟩
      simp [ha, hb, Item.refused]
    · simp [ha, Item.refused]

/-- An item that is taken is inserted number by number. -/
theorem insertItem_eq_of_isTaken (hi : i.IsTaken d) :
    s.insertItem i = i.numbers.foldlM insert s := by
  cases i with
  | number n => simp [insertItem, Item.numbers]
  | range a b =>
    rw [insertItem, insertRange, Item.numbers]
    by_cases hlt : b < a
    · have hnone : b + 1 - a = 0 := by omega
      rw [if_pos hlt, hnone]
      rfl
    · obtain ⟨ha, hb⟩ := hi (by omega)
      simp [hlt, ha, hb]

/-- **Items that are taken** are all inserted, where the numbers of the domain can be counted. -/
theorem Reached.exists_foldlM_insertItem (hs : s.Reached) (hd : d.width < wordLimit)
    (hitems : ∀ i ∈ items, i.IsTaken d) : ∃ s', items.foldlM Selection.insertItem s = .ok s' := by
  have hholds : ∀ n ∈ items.flatMap Item.numbers, d.holds n = true := by
    intro n hn
    obtain ⟨i, hi, hn⟩ := List.mem_flatMap.mp hn
    exact (hitems i hi).holds hn
  obtain ⟨s', h, -⟩ := hs.exists_foldlM_insert hd hholds
  exact ⟨s', (foldlM_eq_ok_iff (f := Selection.insertItem) fun _ _ _ => insertItem_eq_ok_iff).mpr
    ⟨hitems, h⟩⟩

/-- **A row of items breaks off** at the one that is refused, and those in front of it stay. -/
theorem insertAll_append_cons {s' : Selection d} {e : SelectionError}
    (hbefore : before.foldlM insertItem s = .ok s') (hi : s'.insertItem i = .error e) :
    s.insertAll (before ++ i :: after) = (s', .error e) := by
  induction before generalizing s with
  | nil =>
    rw [List.foldlM_nil, pure_eq_ok] at hbefore
    rw [List.nil_append, insertAll, hbefore, hi]
  | cons j before ih =>
    rw [List.foldlM_cons, bind_eq_ok] at hbefore
    obtain ⟨s₁, h₁, h₂⟩ := hbefore
    rw [List.cons_append, insertAll, h₁]
    exact ih h₂

/-- What is refused of a row of items is the number of one of them, where the numbers of the domain
can be counted. -/
theorem Reached.insertAll_ne_tooWide (hs : s.Reached) (hd : d.width < wordLimit)
    (items : List Item) : (s.insertAll items).2 ≠ .error .tooWide := by
  induction items generalizing s with
  | nil => simp [Selection.insertAll]
  | cons i items ih =>
    rw [Selection.insertAll]
    by_cases hi : i.IsTaken d
    · obtain ⟨s', h, hs', -⟩ := hs.exists_foldlM_insert hd fun n hn => hi.holds hn
      rw [insertItem_eq_of_isTaken hi, h]
      exact ih hs'
    · simp [insertItem_eq_error hi]

/-! ## Calls -/

/-- A list that cannot be read changes nothing. -/
theorem perform_insertText_eq_error {l : List Char} {e : SelectionError}
    (h : Item.readList l = .error e) : s.perform (.insertText l) = (s, .error e) := by
  rw [perform, insertText, h]

/-- A list that can be read is inserted item by item. -/
theorem perform_insertText_of_typed {l : List Char}
    (h : List.Forall₂ Item.Typed (Item.tokens l) items) :
    s.perform (.insertText l) = s.insertAll items := by
  rw [perform, insertText, Item.readList_eq_ok_iff_typed.mpr h]

/-- An item alone is a row of one item. -/
theorem attempt_insertItem (s : Selection d) (i : Item) :
    s.attempt (s.insertItem i) = s.insertAll [i] := by
  rw [insertAll]
  cases s.insertItem i <;> rfl

/-- A call stops at the width of the domain where its items do. -/
theorem perform_eq_tooWide_iff (s : Selection d) (c : Call) :
    (s.perform c).2 = .error .tooWide ↔ (s.insertAll c.items).2 = .error .tooWide := by
  cases c with
  | insert n => exact iff_of_eq (congrArg (·.2 = _) (attempt_insertItem s (.number n)))
  | insertRange a b => exact iff_of_eq (congrArg (·.2 = _) (attempt_insertItem s (.range a b)))
  | insertText l =>
    rw [Call.items]
    cases h : Item.readList l with
    | ok items => rw [perform_insertText_of_typed (Item.readList_eq_ok_iff_typed.mp h)]
    -- what cannot be read is refused for another reason
    | error e =>
      have he : e ≠ .tooWide := by
        rintro rfl
        exact Item.readList_ne_tooWide h
      simp [perform_insertText_eq_error h, insertAll, he]

/-- No call is refused for the width of a domain that words can count. -/
theorem Reached.perform_ne_tooWide (hs : s.Reached) (hd : d.width < wordLimit) (c : Call) :
    (s.perform c).2 ≠ .error .tooWide := by
  rw [ne_eq, perform_eq_tooWide_iff]
  exact hs.insertAll_ne_tooWide hd c.items

/-- Then the checked computation has the same outcome. -/
theorem Outcome.unlessTooWide_eq_some {o : Outcome d} (h : o.2 ≠ .error .tooWide) :
    Outcome.unlessTooWide o = some o := by
  unfold unlessTooWide
  split
  · exact absurd rfl h
  · rfl

/-! ## Refusals -/

/-- When calls on a selection are refused, and what they leave then. -/
structure Refusals (s : Selection d) : Prop where
  /-- Whatever a call does step by step in words comes to what the call does. -/
  perform? : ∀ c, s.perform? c = some (s.perform c)
  /-- A number of the domain is taken. -/
  insert_ok : ∀ n, d.holds n = true → ∃ s', s.perform (.insert n) = (s', .ok ())
  /-- Any other number is refused and changes nothing. -/
  insert_error : ∀ n, ¬ d.holds n = true →
    s.perform (.insert n) = (s, .error (.outOfRange n d))
  /-- A range in the wrong order is taken, and a range with both ends in the domain. -/
  insertRange_ok : ∀ a b, (a ≤ b → d.holds a = true ∧ d.holds b = true) →
    ∃ s', s.perform (.insertRange a b) = (s', .ok ())
  /-- Any other range is refused, because of its first end before its last, and changes nothing. -/
  insertRange_error : ∀ a b, a ≤ b → ¬ (d.holds a = true ∧ d.holds b = true) →
    s.perform (.insertRange a b) = (s, .error (.outOfRange (if d.holds a then b else a) d))
  /-- A list with a malformed token is refused because of the first one and changes nothing,
  whatever the tokens in front of it would do. -/
  insertText_malformed : ∀ l before t after, Item.tokens l = before ++ t :: after →
    (∀ u ∈ before, ∃ i, Item.Typed u i) → (¬ ∃ i, Item.Typed t i) →
      ∃ token e, Item.Malformed t token e ∧
        s.perform (.insertText l) = (s, .error (.invalidToken (String.ofList token) e))
  /-- A list of items that are taken is taken. -/
  insertText_ok : ∀ l items, List.Forall₂ Item.Typed (Item.tokens l) items →
    (∀ i ∈ items, i.IsTaken d) →
      ∃ s', items.foldlM insertItem s = .ok s' ∧ s.perform (.insertText l) = (s', .ok ())
  /-- Any other list of items is refused because of the first item that is not taken, and it leaves
  what the items in front of that one lead to. -/
  insertText_error : ∀ l before i after,
    List.Forall₂ Item.Typed (Item.tokens l) (before ++ i :: after) →
      (∀ j ∈ before, j.IsTaken d) → ¬ i.IsTaken d →
        ∃ s', before.foldlM insertItem s = .ok s' ∧
          s.perform (.insertText l) = (s', .error (.outOfRange (i.refused d) d))

/-- **What a refused insertion leaves.** In a domain whose numbers can be counted, an insertion into
a selection that operations lead to is taken or refused as a whole, but for a list of items: of that
the items in front of the first one that is refused are taken. -/
theorem Reached.refusals (hs : s.Reached) (hd : d.width < wordLimit) : s.Refusals := by
  -- a single item is a list of one
  have hitem : ∀ i, i.IsTaken d → ∃ s', s.insertItem i = .ok s' := by
    intro i hi
    have halone : ∃ s', [i].foldlM Selection.insertItem s = .ok s' :=
      hs.exists_foldlM_insertItem hd (by simpa using hi)
    simpa using halone
  exact {
    perform? := by
      intro c
      rw [hs.perform?_eq, Outcome.unlessTooWide_eq_some (hs.perform_ne_tooWide hd c)]
    insert_ok := by
      intro n hn
      obtain ⟨s', h⟩ := hitem (.number n) hn
      exact ⟨s', congrArg s.attempt h⟩
    insert_error := fun n hn => congrArg s.attempt (insert_eq_error hn)
    insertRange_ok := by
      intro a b hab
      obtain ⟨s', h⟩ := hitem (.range a b) hab
      exact ⟨s', congrArg s.attempt h⟩
    insertRange_error := by
      intro a b hle hends
      have hrefused : ¬ (Item.range a b).IsTaken d := fun htaken => hends (htaken hle)
      exact congrArg s.attempt (insertItem_eq_error (i := .range a b) hrefused)
    insertText_malformed := by
      intro l before t after htokens hbefore ht
      obtain ⟨token, e, hmalformed⟩ := Item.exists_malformed ht
      exact ⟨token, e, hmalformed, perform_insertText_eq_error (Item.readList_eq_error_iff.mpr
        ⟨before, t, after, token, e, htokens, hbefore, hmalformed, rfl⟩)⟩
    insertText_ok := by
      intro l items htyped hitems
      obtain ⟨s', h⟩ := hs.exists_foldlM_insertItem hd hitems
      refine ⟨s', h, ?_⟩
      rw [perform_insertText_of_typed htyped, insertAll_eq_of_foldlM h]
    insertText_error := by
      intro l before i after htyped hbefore hi
      obtain ⟨s', h⟩ := hs.exists_foldlM_insertItem hd hbefore
      refine ⟨s', h, ?_⟩
      rw [perform_insertText_of_typed htyped, insertAll_append_cons h (insertItem_eq_error hi)] }

/-- A Wednesday, and what it is after calls that are refused: a number and a range that leave the
week, a list with a token that is no number behind a number out of range, and a list whose third
item is out of range. -/
theorem refusals_week :
    let week : Domain := ⟨1, 7⟩
    let s : Selection week := one 3
    s.Reached ∧ week.width < wordLimit ∧
      s.perform? (.insertRange 6 8) = some (s, .error (.outOfRange 8 week)) ∧
      s.perform (.insert 9) = (s, .error (.outOfRange 9 week)) ∧
      (∃ token e, Item.Malformed ['x'] token e ∧ s.perform (.insertText "9, x, 4".toList) =
        (s, .error (.invalidToken (String.ofList token) e))) ∧
      ∃ s', [Item.number 5, Item.range 1 2].foldlM insertItem s = .ok s' ∧
        s.perform (.insertText "5, 1..2, 8, 4".toList) = (s', .error (.outOfRange 8 week)) := by
  intro week s
  have hreached : s.Reached := reached_one (by decide) (by decide)
  have hwidth : week.width < wordLimit := by decide
  have h := hreached.refusals hwidth
  refine ⟨hreached, hwidth, ?_, h.insert_error 9 (by decide), ?_, ?_⟩
  · rw [h.perform?, h.insertRange_error 6 8 (by decide) (by decide)]
    rfl
  -- the token in the middle is no item, and the one in front of it is not inserted
  · refine h.insertText_malformed "9, x, 4".toList [['9']] ['x'] [['4']] rfl ?_ ?_
    · intro u hu
      obtain rfl := List.mem_singleton.mp hu
      exact ⟨.number 9, Item.read_eq_ok_iff_typed.mp rfl⟩
    · rintro ⟨i, hi⟩
      have hread : Item.read ['x'] = .error (.invalidToken "x" .invalidDigit) := rfl
      rw [Item.read_eq_ok_iff_typed.mpr hi] at hread
      cases hread
  · refine h.insertText_error "5, 1..2, 8, 4".toList [.number 5, .range 1 2] (.number 8)
      [.number 4] (Item.readList_eq_ok_iff_typed.mp rfl) (by decide) (by decide)

end Selection

end Timetable
