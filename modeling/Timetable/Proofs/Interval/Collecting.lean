import Timetable.Proofs.Interval.Minutes

/-!
What a merge collects.

A merge inserts every number of every interval, so all of them have to be in the
domains of their keys, and nothing else can go wrong. What comes out is told
without the order of the insertions: each component has the numbers that some
interval holds for its key, and it is stored by how often the key is held. So the
intervals may come in any order, and intervals that are put behind others add
their numbers to those of the others.
-/

set_option autoImplicit false

namespace Timetable

open Selection

open Text (wordLimit)

/-- The numbers that an interval may hold for a key. Sunday is both 0 and 7. -/
def IntervalKey.domain : IntervalKey → Domain
  | month => ⟨1, 12⟩
  | day => ⟨1, 31⟩
  | weekday => ⟨0, 7⟩
  | hour => ⟨0, 23⟩
  | minute => ⟨0, 59⟩

/-- The numbers that an interval may hold are those that stand for members of the component. -/
theorem IntervalKey.holds_domain_iff {k : IntervalKey} {n : Nat} :
    k.domain.holds n = true ↔ k.component.domain.holds (k.toMember n) = true := by
  rw [holds_iff, holds_iff]
  cases k with
  | weekday =>
    cases n with
    | zero => decide
    | succ n =>
      show 0 ≤ n + 1 ∧ n + 1 ≤ 7 ↔ 1 ≤ n + 1 ∧ n + 1 ≤ 7
      omega
  | month | day | hour | minute => exact Iff.rfl

namespace Interval

variable {is is' : List Interval} {e e' e'' : Event} {k : IntervalKey} {n : Nat}

/-! ## The event that is collected -/

/-- The event into which the members that some intervals have for each key are inserted. -/
def collected (is : List Interval) : Event :=
  let s (k : IntervalKey) : Selection k.component.domain :=
    inserted k.component.domain (membersOf k is)
  { weekday := s .weekday, month := s .month, day := s .day, hour := s .hour,
    minute := s .minute, second := .one 0 }

/-- The parts of what is collected, key by key. -/
theorem get_collected (is : List Interval) (k : IntervalKey) :
    (collected is).get k.component = inserted k.component.domain (membersOf k is) := by
  cases k <;> rfl

/-- The domains of all keys have fewer numbers than there are words. -/
theorem width_component_lt (k : IntervalKey) : k.component.domain.width < wordLimit := by
  cases k <;> decide

/-- Numbers that are all in their domains are numbers of intervals that are. -/
theorem forall_holds_membersOf_iff :
    (∀ k, ∀ n ∈ membersOf k is, k.component.domain.holds n = true) ↔
      ∀ i ∈ is, ∀ k, ∀ n ∈ i.get? k, k.domain.holds n = true := by
  simp only [mem_membersOf_iff, IntervalKey.holds_domain_iff]
  constructor
  · intro h i hi k n hn
    exact h k _ ⟨i, hi, n, hn, rfl⟩
  · rintro h k _ ⟨i, hi, n, hn, rfl⟩
    exact h i hi k n hn

/-- **A merge, told without insertions.** It succeeds if and only if all numbers are in their
domains, and then it leads to the event that is collected. -/
theorem merge_eq_ok_iff_collected : merge is = .ok e ↔
    (∀ i ∈ is, ∀ k, ∀ n ∈ i.get? k, k.domain.holds n = true) ∧ e = collected is := by
  rw [merge_eq_ok_iff, ← forall_holds_membersOf_iff]
  -- insertions that succeed are those of numbers in the domain, and their result is known
  constructor
  · rintro ⟨hkeys, hyear, hsecond⟩
    have hholds : ∀ k, ∀ n ∈ membersOf k is, k.component.domain.holds n = true :=
      fun k n hn => holds_of_foldlM_insert (hkeys k) n hn
    refine ⟨hholds, Event.ext_keys (fun k => ?_) hyear hsecond⟩
    have hk := hkeys k
    rw [foldlM_insert_any (width_component_lt k) (hholds k), Except.ok.injEq] at hk
    rw [get_collected, hk]
  · rintro ⟨hholds, rfl⟩
    refine ⟨fun k => ?_, rfl, rfl⟩
    rw [get_collected]
    exact foldlM_insert_any (width_component_lt k) (hholds k)

/-! ## The members that are collected -/

section Merged

variable (h : merge is = .ok e)

include h

/-- **A part of a merged event contains the numbers of its key** in all records, and no others. -/
theorem contains_merge_iff : (e.get k.component).contains n = true ↔
    ∃ i ∈ is, ∃ m ∈ i.get? k, k.toMember m = n := by
  obtain ⟨hdomain, rfl⟩ := merge_eq_ok_iff_collected.mp h
  have hholds := forall_holds_membersOf_iff.mpr hdomain k
  rw [contains_iff, get_collected, (inserted_spec (width_component_lt k) hholds).2,
    mem_membersOf_iff]

/-- A component is free exactly if its key is never held. -/
theorem get_merge_eq_any_iff : e.get k.component = .any ↔ ∀ i ∈ is, i.get? k = none := by
  obtain ⟨-, rfl⟩ := merge_eq_ok_iff_collected.mp h
  rw [get_collected, inserted_eq_any_iff]
  simp [membersOf]

/-- A component is stored as a single number exactly if its key is held once. -/
theorem get_merge_eq_one_iff : (∃ n, e.get k.component = .one n) ↔
    is.countP (fun i => (i.get? k).isSome) = 1 := by
  obtain ⟨-, rfl⟩ := merge_eq_ok_iff_collected.mp h
  rw [get_collected, (inserted_stored _).1, membersOf, List.length_filterMap_eq_countP]
  simp only [Option.isSome_map]

end Merged

/-! ## Other orders, and more intervals -/

/-- The order of the intervals is of no account. -/
theorem collected_perm (h : is.Perm is') : collected is = collected is' := by
  refine Event.ext_keys (fun k => ?_) rfl rfl
  rw [get_collected, get_collected]
  exact inserted_perm (h.filterMap _)

/-- The order of the records does not matter. -/
theorem merge_perm (h : is.Perm is') : merge is' = .ok e ↔ merge is = .ok e := by
  rw [merge_eq_ok_iff_collected, merge_eq_ok_iff_collected, collected_perm h]
  simp only [h.mem_iff]

/-- Records can be merged exactly if all their numbers are in the domains. -/
theorem exists_merge_iff : (∃ e, merge is = .ok e) ↔
    ∀ i ∈ is, ∀ k, ∀ n ∈ i.get? k, k.domain.holds n = true := by
  simp only [merge_eq_ok_iff_collected, exists_and_left, exists_eq, and_true]

/-- Intervals behind others add their numbers. Years are free and the second is 0 in all merged
events, so this can be said of all components. -/
theorem contains_merge_append (h : merge is = .ok e) (h' : merge is' = .ok e')
    (h'' : merge (is ++ is') = .ok e'') (c : Component) :
    (e''.get c).contains n = true ↔ (e.get c).contains n = true ∨ (e'.get c).contains n = true := by
  have hkey : ∀ k : IntervalKey, (e''.get k.component).contains n = true ↔
      (e.get k.component).contains n = true ∨ (e'.get k.component).contains n = true := by
    intro k
    rw [contains_merge_iff h, contains_merge_iff h', contains_merge_iff h'']
    simp only [List.mem_append, or_and_right, exists_or]
  obtain ⟨-, rfl⟩ := merge_eq_ok_iff_collected.mp h
  obtain ⟨-, rfl⟩ := merge_eq_ok_iff_collected.mp h'
  obtain ⟨-, rfl⟩ := merge_eq_ok_iff_collected.mp h''
  -- five parts have keys, the year is open, and the second is zero in all of them
  cases c with
  | weekday => exact hkey .weekday
  | month => exact hkey .month
  | day => exact hkey .day
  | hour => exact hkey .hour
  | minute => exact hkey .minute
  | year => simp [collected, Event.get, contains]
  | second => exact (or_self_iff).symm

/-- **A merge collects exactly the numbers of the intervals, in any order.** It succeeds if and only
if every number is in the domain of its key. The merged event then has for each key the numbers that
some interval holds for it and no others, where 0 is counted as the Sunday of the event; a component
is free if its key is never held, and stored as a single number if it is held once; the event comes
in every year at second 0. Intervals in another order give the same event, or fail as these do.
Intervals with others behind them can be merged if and only if both can, and then each component has
the numbers of both. -/
theorem merge_collects (is : List Interval) :
    ((∃ e, merge is = .ok e) ↔ ∀ i ∈ is, ∀ k, ∀ n ∈ i.get? k, k.domain.holds n = true) ∧
    (∀ e, merge is = .ok e →
      (∀ k : IntervalKey,
        (∀ n, (e.get k.component).contains n = true ↔
          ∃ i ∈ is, ∃ m ∈ i.get? k, k.toMember m = n) ∧
        (e.get k.component = .any ↔ ∀ i ∈ is, i.get? k = none) ∧
        ((∃ n, e.get k.component = .one n) ↔ is.countP (fun i => (i.get? k).isSome) = 1)) ∧
      e.year = .any ∧ e.second = .one 0) ∧
    (∀ is', is.Perm is' → ∀ e, merge is' = .ok e ↔ merge is = .ok e) ∧
    ∀ is', ((∃ e, merge (is ++ is') = .ok e) ↔
        (∃ e, merge is = .ok e) ∧ ∃ e, merge is' = .ok e) ∧
      ∀ e e' e'', merge is = .ok e → merge is' = .ok e' → merge (is ++ is') = .ok e'' →
        ∀ (c : Component) (n : Nat), (e''.get c).contains n = true ↔
          (e.get c).contains n = true ∨ (e'.get c).contains n = true := by
  refine ⟨exists_merge_iff, fun e h => ⟨fun k => ?_, ?_⟩, fun is' h e => merge_perm h,
    fun is' => ⟨?_, fun e e' e'' h h' h'' c n => contains_merge_append h h' h'' c⟩⟩
  · exact ⟨fun n => contains_merge_iff h, get_merge_eq_any_iff h, get_merge_eq_one_iff h⟩
  · obtain ⟨-, rfl⟩ := merge_eq_ok_iff_collected.mp h
    exact ⟨rfl, rfl⟩
  · simp only [exists_merge_iff, List.forall_mem_append]

/-- Both numbers of Sunday in two intervals are one day, which is stored as a set; in the other
order nothing changes, and an interval for an hour adds the hour. -/
theorem merge_collects_sundays :
    let is : List Interval := [{ weekday := some 0, minute := some 30 }, { weekday := some 7 }]
    let is' : List Interval := [{ hour := some 9 }]
    let e : Event := { weekday := .ofList [7, 7], minute := .one 30, second := .one 0 }
    let e' : Event := { hour := .one 9, second := .one 0 }
    let e'' : Event := { e with hour := .one 9 }
    merge is = .ok e ∧ (∀ n, e.weekday.contains n = true ↔
      ∃ i ∈ is, ∃ m ∈ i.get? .weekday, IntervalKey.weekday.toMember m = n) ∧
    is.Perm is.reverse ∧ merge is.reverse = .ok e ∧
    merge is' = .ok e' ∧ merge (is ++ is') = .ok e'' ∧ ∀ n, e''.minute.contains n = true ↔
      e.minute.contains n = true ∨ e'.minute.contains n = true := by
  intro is is' e e' e''
  obtain ⟨-, hmeaning, hperm, happend⟩ := merge_collects is
  have h : merge is = .ok e := rfl
  have h' : merge is' = .ok e' := rfl
  have h'' : merge (is ++ is') = .ok e'' := rfl
  have hreverse : is.Perm is.reverse := (List.reverse_perm is).symm
  exact ⟨h, ((hmeaning e h).1 .weekday).1, hreverse, (hperm _ hreverse e).mpr h, h', h'',
    (happend is').2 e e' e'' h h' h'' .minute⟩

end Interval

end Timetable
