import Mathlib.Algebra.BigOperators.Group.List.Basic
import Timetable.Proofs.Interval.Expansion

/-!
The intervals of an event in their order.

An interval holds a number for each key that the event restricts, and for no other
key. There are as many intervals as there are ways to choose a member of each
restricted component, and each choice has exactly one interval. They come in the
lexicographic order of the chosen members, key by key, where Sunday is the last
day of the week although its number in an interval is 0. These facts determine the
list: nothing else is the list of an event's intervals.
-/

set_option autoImplicit false

namespace Timetable

open Selection

namespace Interval

variable {e : Event} {i j : Interval}

/-- The keys that an event restricts, in order. -/
def restricted (e : Event) : List IntervalKey :=
  IntervalKey.all.filter fun k => (e.get k.component).isPopulated

/-- The restricted keys are those whose part is populated. -/
theorem mem_restricted_iff {k : IntervalKey} :
    k ∈ restricted e ↔ (e.get k.component).isPopulated = true := by
  have hall : k ∈ IntervalKey.all := by cases k <;> decide
  simp [restricted, hall]

/-! ## The number of intervals -/

/-- A restricted key has one choice for each member, and another one has the single choice to be
left out. -/
theorem length_choices (e : Event) (k : IntervalKey) : (choices e k).length =
    if (e.get k.component).isPopulated then (e.get k.component).members.length else 1 := by
  simp only [choices]
  split
  · exact List.length_map _
  · rfl

/-- One step multiplies the number of intervals by that of the choices. -/
theorem length_extendBy (e : Event) (is : List Interval) (k : IntervalKey) :
    (extendBy e is k).length = is.length * (choices e k).length := by
  simp [extendBy_eq, List.length_flatMap]

/-- Each key multiplies the number of records by the number of its choices. -/
theorem length_foldl_extendBy (e : Event) (ks : List IntervalKey) (is : List Interval) :
    (ks.foldl (extendBy e) is).length =
      is.length * (ks.map fun k => (choices e k).length).prod := by
  induction ks generalizing is with
  | nil => simp
  | cons k ks ih =>
    rw [List.foldl_cons, ih, length_extendBy, List.map_cons, List.prod_cons, Nat.mul_assoc]

/-- **There are as many intervals as choices**: the numbers of members of the restricted components
are multiplied. -/
theorem length_expand (e : Event) : (expand e).length =
    ((restricted e).map fun k => (e.get k.component).members.length).prod := by
  rw [expand, length_foldl_extendBy, List.length_singleton, one_mul, restricted]
  simp only [length_choices]
  induction IntervalKey.all with
  | nil => rfl
  | cons k ks ih =>
    by_cases hp : (e.get k.component).isPopulated = true <;> simp [hp, ih]

/-! ## The choices of members -/

/-- Numbers for the keys that are members of the components that an event restricts. -/
def IsChoice (e : Event) (f : IntervalKey → Nat) : Prop :=
  ∀ k ∈ restricted e, f k ∈ (e.get k.component).members

/-- The interval of a choice. -/
def ofChoice (e : Event) (f : IntervalKey → Nat) : Interval :=
  ofKeys fun k => if k ∈ restricted e then some (k.ofMember (f k)) else none

/-- A record has the restricted keys and no others. -/
theorem isSome_get?_iff (hi : i ∈ expand e) (k : IntervalKey) :
    (i.get? k).isSome = true ↔ k ∈ restricted e := by
  have hchoice := mem_expand_iff.mp hi k
  rw [mem_restricted_iff]
  cases hget : i.get? k with
  | none =>
    rw [hget, none_mem_choices_iff] at hchoice
    simp [hchoice]
  | some m =>
    rw [hget, some_mem_choices_iff] at hchoice
    simp [hchoice.1]

/-- **The intervals of an event are those of its choices.** -/
theorem mem_expand_iff_exists_choice :
    i ∈ expand e ↔ ∃ f, IsChoice e f ∧ i = ofChoice e f := by
  rw [mem_expand_iff]
  constructor
  · intro hall
    -- for each key that is restricted, the number of the interval is that of a member
    have hmember : ∀ k, ∃ n, k ∈ restricted e →
        n ∈ (e.get k.component).members ∧ i.get? k = some (k.ofMember n) := by
      intro k
      by_cases hk : k ∈ restricted e
      · cases hget : i.get? k with
        | none =>
          have hnone := hget ▸ hall k
          rw [none_mem_choices_iff, mem_restricted_iff.mp hk] at hnone
          exact Bool.noConfusion hnone
        | some m =>
          obtain ⟨-, n, hn, rfl⟩ := some_mem_choices_iff.mp (hget ▸ hall k)
          exact ⟨n, fun _ => ⟨hn, rfl⟩⟩
      · exact ⟨0, fun h => absurd h hk⟩
    choose f hf using hmember
    refine ⟨f, fun k hk => (hf k hk).1, ext_get? fun k => ?_⟩
    rw [ofChoice, get?_ofKeys]
    split
    · next hk => exact (hf k hk).2
    · next hk => simpa [← isSome_get?_iff (mem_expand_iff.mpr hall)] using hk
  · rintro ⟨f, hf, rfl⟩ k
    rw [ofChoice, get?_ofKeys]
    split
    · next hk => exact some_mem_choices_iff.mpr ⟨mem_restricted_iff.mp hk, _, hf k hk, rfl⟩
    · next hk =>
      rw [none_mem_choices_iff, ← Bool.not_eq_true, ← mem_restricted_iff]
      exact hk

/-- Each choice has one interval. -/
theorem count_ofChoice (he : e.Reached) {f : IntervalKey → Nat} (hf : IsChoice e f) :
    (expand e).count (ofChoice e f) = 1 :=
  List.count_eq_one_of_mem (nodup_expand he) (mem_expand_iff_exists_choice.mpr ⟨f, hf, rfl⟩)

/-! ## The order -/

/-- The members that the numbers of an interval stand for, in the order of the keys. -/
def members (i : Interval) : List Nat :=
  i.toList.map fun (k, n) => k.toMember n

/-- What a number for a key, if there is one, adds to the members of an interval. -/
def memberOf (k : IntervalKey) (o : Option Nat) : List Nat :=
  o.toList.map k.toMember

/-- The keys of a record from the month down, as they are compared. -/
theorem members_eq (i : Interval) :
    i.members = memberOf .month i.month ++ (memberOf .day i.day ++
      (memberOf .weekday i.weekday ++ (memberOf .hour i.hour ++ memberOf .minute i.minute))) := by
  obtain ⟨m, d, w, h, n⟩ := i
  cases m <;> cases d <;> cases w <;> cases h <;> cases n <;> rfl

/-- The choices for a key are in the order of their members, whatever is put behind them. -/
theorem pairwise_choices (he : e.Reached) (k : IntervalKey) :
    (choices e k).Pairwise fun a b => ∀ x y, memberOf k a ++ x < memberOf k b ++ y := by
  simp only [choices]
  split
  · refine List.Pairwise.map _ (fun _ _ h => h) ?_
    refine (pairwise_members _).imp_of_mem fun {m n} hm hn hlt x y => ?_
    have hm := toMember_ofMember ((he k.component).holds hm)
    have hn := toMember_ofMember ((he k.component).holds hn)
    simp only [memberOf, Option.toList_some, List.map_singleton, hm, hn, List.singleton_append]
    exact List.Lex.rel hlt
  · exact List.pairwise_singleton _ _

/-- **A step of the order.** Choices for a key in front of what is in order are in order. -/
theorem pairwise_choices_product (he : e.Reached) (k : IntervalKey) {α : Type} {l : List α}
    {f : α → List Nat} (hl : l.Pairwise fun a b => f a < f b) :
    (choices e k ×ˢ l).Pairwise fun p q => memberOf k p.1 ++ f p.2 < memberOf k q.1 ++ f q.2 := by
  simp only [SProd.sprod, List.product, List.pairwise_flatMap]
  constructor
  -- with one choice the rest decides, and with two of them the choices do
  · intro o _
    exact List.Pairwise.map _ (fun _ _ h => List.append_left_lt h) hl
  · refine (pairwise_choices he k).imp fun hlt p hp q hq => ?_
    obtain ⟨a, -, rfl⟩ := List.mem_map.mp hp
    obtain ⟨b, -, rfl⟩ := List.mem_map.mp hq
    exact hlt (f a) (f b)

/-- **The intervals of an event are in lexicographic order.** -/
theorem pairwise_expand (he : e.Reached) :
    (expand e).Pairwise fun i j => i.members < j.members := by
  have hminutes : (choices e .minute).Pairwise fun a b => memberOf .minute a < memberOf .minute b :=
    (pairwise_choices he .minute).imp fun h => by simpa using h [] []
  have hhours := pairwise_choices_product he .hour hminutes
  have hweekdays := pairwise_choices_product he .weekday hhours
  have hdays := pairwise_choices_product he .day hweekdays
  have hmonths := pairwise_choices_product he .month hdays
  rw [expand_eq, List.pairwise_map]
  simpa only [members_eq] using hmonths

/-! ## The list as a whole -/

/-- A list of intervals that is the ordered product of what an event restricts. -/
structure IsProduct (e : Event) (is : List Interval) : Prop where
  /-- The numbers of members of the restricted components are multiplied. -/
  length : is.length = ((restricted e).map fun k => (e.get k.component).members.length).prod
  /-- Every interval holds numbers for the restricted keys and for no other key. -/
  keys : ∀ i ∈ is, ∀ k, (i.get? k).isSome = true ↔ k ∈ restricted e
  /-- Every interval is that of a choice of members. -/
  choice : ∀ i ∈ is, ∃ f, IsChoice e f ∧ i = ofChoice e f
  /-- Every choice of members has one interval. -/
  once : ∀ f, IsChoice e f → is.count (ofChoice e f) = 1
  /-- The intervals are in lexicographic order of their members. -/
  ordered : is.Pairwise fun i j => i.members < j.members

/-- **The expansion is the product of the choices.** -/
theorem isProduct_expand (he : e.Reached) : IsProduct e (expand e) where
  length := length_expand e
  keys _ hi k := isSome_get?_iff hi k
  choice _ hi := mem_expand_iff_exists_choice.mp hi
  once _ hf := count_ofChoice he hf
  ordered := pairwise_expand he

/-- What a product has is determined: the records of all choices. -/
theorem IsProduct.mem_iff {is : List Interval} (h : IsProduct e is) :
    i ∈ is ↔ ∃ f, IsChoice e f ∧ i = ofChoice e f := by
  constructor
  · exact h.choice i
  · rintro ⟨f, hf, rfl⟩
    exact List.count_pos_iff.mp (by rw [h.once f hf]; exact Nat.one_pos)

/-- There is only one ordered product. -/
theorem IsProduct.eq_expand {is : List Interval} (h : IsProduct e is) (he : e.Reached) :
    is = expand e := by
  have hantisymm : Std.Antisymm fun i j : Interval => i.members < j.members :=
    ⟨fun _ _ hij hji => absurd hji (List.lt_asymm hij)⟩
  have hirrefl : Std.Irrefl fun i j : Interval => i.members < j.members :=
    ⟨fun _ => List.lt_irrefl _⟩
  refine h.ordered.eq_of_mem_iff (pairwise_expand he) fun i => ?_
  rw [h.mem_iff, mem_expand_iff_exists_choice]

/-- **The intervals of events are their ordered products**, one event after another. The product of
an event has one interval for each choice of a member of each restricted component, with numbers for
these keys only, and the intervals are in lexicographic order of the members. -/
theorem expandAll_product {es : List Event} (hes : ∀ e ∈ es, e.Reached) :
    expandAll es = (es.map expand).flatten ∧
      ∀ e ∈ es, ∀ is, IsProduct e is ↔ is = expand e := by
  refine ⟨List.flatMap_def, fun e he is => ⟨fun h => h.eq_expand (hes e he), ?_⟩⟩
  rintro rfl
  exact isProduct_expand (hes e he)

/-- Every half hour at the weekend: Sunday comes last, though its number is the least. Behind it
stands the empty interval of an event without restrictions. -/
theorem expandAll_product_weekend :
    let e : Event := { weekday := .ofList [7, 6], minute := .ofList [0, 30], second := .one 0 }
    let is : List Interval := [{ weekday := some 6, minute := some 0 },
      { weekday := some 6, minute := some 30 }, { weekday := some 0, minute := some 0 },
      { weekday := some 0, minute := some 30 }]
    (∀ e' ∈ [e, .anytime], e'.Reached) ∧
      expandAll [e, .anytime] = is ++ [({} : Interval)] ∧ IsProduct e is := by
  -- the parts are reached by insertions, and the rest is computed
  intro e is
  have he : e.Reached := by
    intro c
    cases c with
    | year | month | day | hour => exact .any
    | weekday | minute => exact reached_ofList _
    | second => exact reached_one (by decide) (by decide)
  have hes : ∀ e' ∈ [e, .anytime], e'.Reached := by
    simp only [List.forall_mem_cons, List.not_mem_nil, false_implies, implies_true, and_true]
    exact ⟨he, Event.reached_anytime⟩
  have his : is = expand e := by decide
  obtain ⟨hall, hproduct⟩ := expandAll_product hes
  refine ⟨hes, ?_, (hproduct e (by simp) is).mpr his⟩
  rw [hall, his]
  decide

end Interval

end Timetable
