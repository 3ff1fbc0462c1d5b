import Timetable.Proofs.Cron.Fields
import Timetable.Proofs.Interval.Expansion

/-!
Merging intervals.

Merging inserts the numbers of all intervals, one after another, each into the
component of its key. The components do not meet, so each of them gets the numbers
that the intervals hold for its key, in their order, and the merge succeeds if and
only if all these rows of insertions do.

The intervals of an event hold all its members for each key and no other numbers.
Merging them gives the members back. A component that is restricted gets a number
from every interval, so it holds a single one only if there is one interval.
-/

set_option autoImplicit false

namespace Timetable

open Selection

open Text (wordLimit)

/-- An event is known from its selections for the keys, its year and its second. -/
theorem Event.ext_keys {e e' : Event}
    (h : ∀ k : IntervalKey, e.get k.component = e'.get k.component) (hyear : e.year = e'.year)
    (hsecond : e.second = e'.second) : e = e' := by
  refine ext_get fun c => ?_
  cases c with
  | weekday => exact h .weekday
  | year => exact hyear
  | month => exact h .month
  | day => exact h .day
  | hour => exact h .hour
  | minute => exact h .minute
  | second => exact hsecond

namespace Interval

variable {e e' : Event}

/-! ## Rows of numbers -/

/-- Different keys belong to different parts. -/
theorem component_inj {k k' : IntervalKey} (h : k.component = k'.component) : k = k' := by
  cases k <;> cases k' <;> first | rfl | cases h

/-- The members that numbers with keys insert for one key. -/
def membersFor (k : IntervalKey) (ps : List (IntervalKey × Nat)) : List Nat :=
  ps.filterMap fun p => if p.1 = k then some (k.toMember p.2) else none

/-- A number that is inserted for a key changes the key's part only. -/
theorem insertInto_eq_ok_iff {k : IntervalKey} {n : Nat} : insertInto e (k, n) = .ok e' ↔
    ∃ s, (e.get k.component).insert (k.toMember n) = .ok s ∧ e' = e.set k.component s := by
  rw [insertInto]
  split
  · next s h => simp [h, eq_comm]
  · next err h => simp [h]

@[simp] theorem membersFor_cons_self (k : IntervalKey) (n : Nat) (ps : List (IntervalKey × Nat)) :
    membersFor k ((k, n) :: ps) = k.toMember n :: membersFor k ps := by
  simp [membersFor]

/-- A number of another key is not. -/
theorem membersFor_cons_of_ne {k k' : IntervalKey} (h : k ≠ k') (n : Nat)
    (ps : List (IntervalKey × Nat)) : membersFor k' ((k, n) :: ps) = membersFor k' ps := by
  simp [membersFor, h]

/-- No key belongs to the years, -/
theorem year_set (e : Event) (k : IntervalKey) (s : Selection k.component.domain) :
    (e.set k.component s).year = e.year := by
  cases k <;> rfl

/-- and none to the seconds. -/
theorem second_set (e : Event) (k : IntervalKey) (s : Selection k.component.domain) :
    (e.set k.component s).second = e.second := by
  cases k <;> rfl

/-- The first of some numbers is a step in the row of its own key and in no other. -/
theorem forall_foldlM_cons_iff {k : IntervalKey} {n : Nat} {ps : List (IntervalKey × Nat)} :
    (∀ k' : IntervalKey, (membersFor k' ((k, n) :: ps)).foldlM Selection.insert
        (e.get k'.component) = .ok (e'.get k'.component)) ↔
      ∃ s, (e.get k.component).insert (k.toMember n) = .ok s ∧
        ∀ k' : IntervalKey, (membersFor k' ps).foldlM Selection.insert
          ((e.set k.component s).get k'.component) = .ok (e'.get k'.component) := by
  -- a number for one key leaves the parts of all others
  have hframe : ∀ (s : Selection k.component.domain) (k' : IntervalKey), k ≠ k' →
      (e.set k.component s).get k'.component = e.get k'.component :=
    fun s k' hne => Event.get_set_of_ne e s (mt component_inj hne)
  constructor
  · intro hkeys
    have hk := hkeys k
    rw [membersFor_cons_self, List.foldlM_cons, bind_eq_ok] at hk
    obtain ⟨s, hs, hk⟩ := hk
    refine ⟨s, hs, fun k' => ?_⟩
    by_cases hne : k = k'
    · subst hne
      rwa [Event.get_set_self]
    · rw [hframe s k' hne, ← membersFor_cons_of_ne hne n]
      exact hkeys k'
  · rintro ⟨s, hs, hkeys⟩ k'
    by_cases hne : k = k'
    · subst hne
      have hk := hkeys k
      rw [Event.get_set_self] at hk
      rw [membersFor_cons_self, List.foldlM_cons, bind_eq_ok]
      exact ⟨s, hs, hk⟩
    · rw [membersFor_cons_of_ne hne, ← hframe s k' hne]
      exact hkeys k'

/-- **The components do not meet.** Numbers are inserted into an event if and only if those of each
key are inserted into the component of the key. -/
theorem foldlM_insertInto_eq_ok_iff {ps : List (IntervalKey × Nat)} :
    ps.foldlM insertInto e = .ok e' ↔
      (∀ k : IntervalKey, (membersFor k ps).foldlM Selection.insert (e.get k.component) =
        .ok (e'.get k.component)) ∧ e'.year = e.year ∧ e'.second = e.second := by
  -- the numbers come mixed, and each goes to the part of its own key
  induction ps generalizing e with
  | nil =>
    simp only [List.foldlM_nil, pure_eq_ok, membersFor, List.filterMap_nil]
    constructor
    · rintro rfl
      exact ⟨fun _ => rfl, rfl, rfl⟩
    · exact fun ⟨hkeys, hyear, hsecond⟩ => Event.ext_keys hkeys hyear.symm hsecond.symm
  | cons p ps ih =>
    obtain ⟨k, n⟩ := p
    rw [forall_foldlM_cons_iff]
    simp only [List.foldlM_cons, bind_eq_ok, insertInto_eq_ok_iff]
    constructor
    · rintro ⟨_, ⟨s, hs, rfl⟩, h⟩
      obtain ⟨hkeys, hyear, hsecond⟩ := ih.mp h
      exact ⟨⟨s, hs, hkeys⟩, hyear.trans (year_set e k s), hsecond.trans (second_set e k s)⟩
    · rintro ⟨⟨s, hs, hkeys⟩, hyear, hsecond⟩
      exact ⟨_, ⟨s, hs, rfl⟩, ih.mpr
        ⟨hkeys, hyear.trans (year_set e k s).symm, hsecond.trans (second_set e k s).symm⟩⟩

/-! ## Merged intervals -/

/-- The members that some intervals have for a key, in their order. -/
def membersOf (k : IntervalKey) (is : List Interval) : List Nat :=
  is.filterMap fun i => (i.get? k).map k.toMember

/-- The numbers of intervals insert the members that the intervals have for a key. -/
theorem membersFor_flatMap_toList (k : IntervalKey) (is : List Interval) :
    membersFor k (is.flatMap toList) = membersOf k is := by
  -- of all keys, only one is the key in question
  have hkey : ∀ o : Option Nat,
      IntervalKey.all.filterMap (fun k' => if k' = k then o else none) = o.toList := by
    intro o
    cases k <;> cases o <;> rfl
  have hone : ∀ i : Interval, membersFor k i.toList = ((i.get? k).map k.toMember).toList := by
    intro i
    rw [← hkey, membersFor, toList, List.filterMap_filterMap]
    refine List.filterMap_congr fun k' _ => ?_
    split
    · next hk =>
      subst hk
      cases i.get? k' <;> simp
    · next hk => cases i.get? k' <;> simp [hk]
  rw [membersFor, List.filterMap_flatMap, membersOf, List.filterMap_eq_flatMap_toList]
  exact List.flatMap_congr fun i _ => hone i

/-- **Merging succeeds** if and only if every component takes the members that the intervals have
for its key. -/
theorem merge_eq_ok_iff {is : List Interval} : merge is = .ok e' ↔
    (∀ k : IntervalKey, (membersOf k is).foldlM Selection.insert .any =
      .ok (e'.get k.component)) ∧ e'.year = .any ∧ e'.second = .ofList [0] := by
  rw [merge, foldlM_insertInto_eq_ok_iff]
  simp only [membersFor_flatMap_toList]
  refine and_congr_left fun _ => forall_congr' fun k => ?_
  cases k <;> rfl

/-! ## The members of an event -/

section Reached

variable (he : e.Reached)

include he

/-- Every choice for a key is taken by some interval of the event. -/
theorem exists_mem_expand {k : IntervalKey} {o : Option Nat} (ho : o ∈ choices e k) :
    ∃ i ∈ expand e, i.get? k = o := by
  choose f hf using fun k => List.exists_mem_of_ne_nil _ (choices_ne_nil he k)
  refine ⟨ofKeys (Function.update f k o), mem_expand_iff.mpr fun k' => ?_, by simp⟩
  by_cases hk : k' = k
  · subst hk
    simpa using ho
  · simpa [hk] using hf k'

/-- **The intervals of an event have its members** for each key. -/
theorem mem_membersOf_expand_iff (k : IntervalKey) (n : Nat) :
    n ∈ membersOf k (expand e) ↔ n ∈ (e.get k.component).members := by
  have hholds : ∀ m ∈ (e.get k.component).members, k.toMember (k.ofMember m) = m :=
    fun m hm => toMember_ofMember ((he k.component).holds hm)
  simp only [membersOf, List.mem_filterMap, Option.map_eq_some_iff]
  -- a number of a record is a choice of the key, and every choice is in some record
  constructor
  · rintro ⟨i, hi, m, hm, rfl⟩
    have hchoice := mem_expand_iff.mp hi k
    rw [hm] at hchoice
    obtain ⟨-, n, hn, rfl⟩ := some_mem_choices_iff.mp hchoice
    rwa [hholds n hn]
  · intro hn
    have hp : (e.get k.component).isPopulated = true :=
      (he k.component).isPopulated_iff.mpr (List.ne_nil_of_mem hn)
    have hchoice : some (k.ofMember n) ∈ choices e k := some_mem_choices_iff.mpr ⟨hp, n, hn, rfl⟩
    obtain ⟨i, hi, hget⟩ := exists_mem_expand he hchoice
    exact ⟨i, hi, k.ofMember n, hget, hholds n hn⟩

omit he in
/-- Every interval of an event has a member for a key that is restricted. -/
theorem length_membersOf_expand {k : IntervalKey} (hp : (e.get k.component).isPopulated = true) :
    (membersOf k (expand e)).length = (expand e).length := by
  rw [membersOf, List.filterMap_length_eq_length]
  intro i hi
  have hchoice := mem_expand_iff.mp hi k
  cases hget : i.get? k with
  | none =>
    rw [hget, none_mem_choices_iff, hp] at hchoice
    cases hchoice
  | some m => rfl

/-- **Merging the intervals of an event gives its members back.** For every event that operations
lead to, merging its intervals succeeds. The merged event has the members of the event for each key
and is free where the event is, it comes at second 0 of every year, and a restricted component is
stored as a single number exactly if the event has one interval. -/
theorem merge_expand : ∃ e', merge (expand e) = .ok e' ∧ e'.IsReadOf e ∧
    ∀ k : IntervalKey, (e.get k.component).isPopulated = true →
      ((∃ n, e'.get k.component = .one n) ↔ (expand e).length = 1) := by
  let s (k : IntervalKey) : Selection k.component.domain :=
    inserted k.component.domain (membersOf k (expand e))
  have hwidth : ∀ k : IntervalKey, k.component.domain.width < wordLimit := by
    intro k
    cases k <;> decide
  have hholds : ∀ k, ∀ n ∈ membersOf k (expand e), k.component.domain.holds n = true :=
    fun k n hn => (he k.component).holds ((mem_membersOf_expand_iff he k n).mp hn)
  have hagrees : ∀ k, (s k).Agrees (e.get k.component) := by
    intro k
    obtain ⟨hreached, hmembers⟩ := inserted_spec (hwidth k) (hholds k)
    exact agrees_of_mem_iff hreached (he k.component) fun n =>
      (hmembers n).trans (mem_membersOf_expand_iff he k n)
  -- the parts of the merged event are told before it is shown that they come out
  let e' : Event :=
    { weekday := s .weekday, month := s .month, day := s .day, hour := s .hour,
      minute := s .minute, second := .ofList [0] }
  have hget : ∀ k : IntervalKey, e'.get k.component = s k := by
    intro k
    cases k <;> rfl
  refine ⟨e', merge_eq_ok_iff.mpr ⟨fun k => ?_, rfl, rfl⟩, ?_, fun k hp => ?_⟩
  · rw [hget]
    exact foldlM_insert_any (hwidth k) (hholds k)
  · exact ⟨hagrees .minute, hagrees .hour, hagrees .day, hagrees .month, hagrees .weekday, rfl, rfl⟩
  · rw [hget, ← length_membersOf_expand hp]
    exact (inserted_stored _).1

end Reached

/-- Weekends at two minutes make four intervals, so that even the only hour is not stored as a
single number. -/
theorem merge_expand_weekend :
    let e : Event :=
      { weekday := .ofList [6, 7], year := .one 2020, hour := .one 10, minute := .ofList [0, 30],
        second := .ofList [15, 45] }
    e.Reached ∧ (expand e).length = 4 ∧ ∃ e', merge (expand e) = .ok e' ∧ e'.IsReadOf e ∧
      ¬∃ n, e'.hour = .one n := by
  intro e
  have he : e.Reached := by
    intro c
    cases c with
    | month | day => exact .any
    | weekday | minute | second => exact reached_ofList _
    | year | hour => exact reached_one (by decide) (by decide)
  have hlength : (expand e).length = 4 := by decide
  obtain ⟨e', hmerge, hread, hstored⟩ := merge_expand he
  refine ⟨he, hlength, e', hmerge, hread, fun hone => ?_⟩
  have hsingle : (expand e).length = 1 := (hstored .hour rfl).mp hone
  omega

end Interval

end Timetable
