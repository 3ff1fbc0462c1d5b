import Mathlib.Data.List.Nodup
import Mathlib.Data.List.ProdSigma
import Timetable.Event.Occurrence
import Timetable.Interval.Basic
import Timetable.Proofs.Event
import Timetable.Proofs.Instant
import Timetable.Proofs.Selection.Members

/-!
The intervals of an event.

The intervals of an event are built up key by key. All in all they are the product
of what the event leaves to choose for each key: nothing where it is free, and
otherwise the number of one of its members. So an interval is one of them if and
only if it holds such a number for each key, and none of them comes twice.

An interval selects the minutes at which every number that it holds is reached.
At a time there is one number for each key, hence at most one interval of an event
that selects it, and there is one if and only if the event does.
-/

set_option autoImplicit false

namespace Timetable

open Selection

namespace Interval

variable {e : Event} {i j : Interval}

/-- An interval is known from the numbers that it holds. -/
theorem ext_get? (h : ∀ k, i.get? k = j.get? k) : i = j := by
  cases i
  cases j
  rw [mk.injEq]
  exact ⟨h .month, h .day, h .weekday, h .hour, h .minute⟩

/-- The interval with a given number, or none, for each key. -/
def ofKeys (f : IntervalKey → Option Nat) : Interval :=
  ⟨f .month, f .day, f .weekday, f .hour, f .minute⟩

@[simp] theorem get?_ofKeys (f : IntervalKey → Option Nat) (k : IntervalKey) :
    (ofKeys f).get? k = f k := by
  cases k <;> rfl

/-! ## The product -/

/-- What an event leaves to choose for a key: nothing if it is free, and otherwise the number of one
of its members. -/
def choices (e : Event) (k : IntervalKey) : List (Option Nat) :=
  let s := e.get k.component
  if s.isPopulated then s.members.map fun n => some (k.ofMember n) else [none]

/-- A key may be left out exactly if its part is not restricted, -/
theorem none_mem_choices_iff {k : IntervalKey} :
    none ∈ choices e k ↔ (e.get k.component).isPopulated = false := by
  cases hp : (e.get k.component).isPopulated <;> simp [choices, hp]

/-- and it may have a number exactly if its part is restricted and has the number as a member. -/
theorem some_mem_choices_iff {k : IntervalKey} {m : Nat} : some m ∈ choices e k ↔
    (e.get k.component).isPopulated = true ∧
      ∃ n ∈ (e.get k.component).members, k.ofMember n = m := by
  cases hp : (e.get k.component).isPopulated <;> simp [choices, hp]

/-- The interval with a number for a key, if there is one to hold. -/
def hold (i : Interval) (k : IntervalKey) : Option Nat → Interval
  | none => i
  | some n => i.set n k

/-- One step combines every interval with every choice for the key. -/
theorem extendBy_eq (e : Event) (is : List Interval) (k : IntervalKey) :
    extendBy e is k = is.flatMap fun i => (choices e k).map (i.hold k) := by
  simp only [extendBy, choices]
  split
  · simp only [extendAll, List.map_map]
    rfl
  · simp [hold]

/-- **The intervals of an event are the product of its choices**, in the order of the keys. -/
theorem expand_eq (e : Event) :
    expand e = (choices e .month ×ˢ choices e .day ×ˢ choices e .weekday ×ˢ choices e .hour ×ˢ
      choices e .minute).map fun (m, d, w, h, n) => ⟨m, d, w, h, n⟩ := by
  have hkeys : ∀ m d w h, hold ((((hold {} .month m).hold .day d).hold .weekday w).hold .hour h)
      .minute = fun n => ⟨m, d, w, h, n⟩ := by
    intro m d w h
    funext n
    cases m <;> cases d <;> cases w <;> cases h <;> cases n <;> rfl
  simp only [expand, IntervalKey.all, List.foldl_cons, List.foldl_nil, extendBy_eq]
  simp only [SProd.sprod, List.product, List.flatMap_cons, List.flatMap_nil, List.append_nil,
    List.flatMap_assoc, List.flatMap_map, List.map_flatMap, List.map_map, Function.comp_def, hkeys]

/-- An interval is one of an event's if and only if it holds a choice for each key. -/
theorem mem_expand_iff : i ∈ expand e ↔ ∀ k, i.get? k ∈ choices e k := by
  obtain ⟨m, d, w, h, n⟩ := i
  simp only [expand_eq, List.mem_map, Prod.exists, List.mem_product, mk.injEq]
  -- the product of the five lists of choices has all ways to choose from each
  constructor
  · rintro ⟨_, _, _, _, _, ⟨hm, hd, hw, hh, hn⟩, rfl, rfl, rfl, rfl, rfl⟩ k
    cases k with
    | month => exact hm
    | day => exact hd
    | weekday => exact hw
    | hour => exact hh
    | minute => exact hn
  · intro hall
    exact ⟨m, d, w, h, n,
      ⟨hall .month, hall .day, hall .weekday, hall .hour, hall .minute⟩, rfl, rfl, rfl, rfl, rfl⟩

/-! ## Choices that are all different -/

/-- A member is known from the number that is written for it. -/
theorem toMember_ofMember {k : IntervalKey} {n : Nat} (hn : k.component.domain.holds n = true) :
    k.toMember (k.ofMember n) = n := by
  cases k with
  | weekday =>
    have hends : 1 ≤ n ∧ n ≤ 7 := holds_iff.mp hn
    obtain hlt | rfl : n < 7 ∨ n = 7 := by omega
    · obtain ⟨m, rfl⟩ : ∃ m, n = m + 1 := ⟨n - 1, by omega⟩
      rw [IntervalKey.ofMember, Nat.mod_eq_of_lt hlt]
      rfl
    · rfl
  | month | day | hour | minute => rfl

section Reached

variable (he : e.Reached)

include he

/-- Every key has a choice, so there is at least one record. -/
theorem choices_ne_nil (k : IntervalKey) : choices e k ≠ [] := by
  simp only [choices]
  split
  · next hp =>
    have hne := (he k.component).members_ne_nil hp
    simpa using hne
  · exact List.cons_ne_nil _ _

/-- No choice comes twice, so no record does. -/
theorem nodup_choices (k : IntervalKey) : (choices e k).Nodup := by
  simp only [choices]
  split
  · refine List.Nodup.map_on (fun m hm n hn heq => ?_) (pairwise_members _).nodup
    have hback := congrArg k.toMember (Option.some.inj heq)
    rwa [toMember_ofMember ((he k.component).holds hm),
      toMember_ofMember ((he k.component).holds hn)] at hback
  · exact List.nodup_singleton _

/-- **No interval of an event comes twice.** -/
theorem nodup_expand : (expand e).Nodup := by
  rw [expand_eq]
  refine List.Nodup.map (fun x y h => ?_) ((nodup_choices he .month).product
    ((nodup_choices he .day).product ((nodup_choices he .weekday).product
      ((nodup_choices he .hour).product (nodup_choices he .minute)))))
  obtain ⟨m, d, w, h, n⟩ := x
  obtain ⟨m', d', w', h', n'⟩ := y
  simpa using h

end Reached

end Interval

/-! ## The minutes of an interval -/

/-- The number that an instant has for a key, as an event counts. -/
def Instant.number (t : Instant) : IntervalKey → Nat
  | .month => t.date.month
  | .day => t.date.day
  | .weekday => t.date.weekday
  | .hour => t.hour
  | .minute => t.minute

/-- The number that an instant has for a key, with the days of the week counted from Sunday, 0. -/
def Instant.reading (t : Instant) : IntervalKey → Nat
  | .weekday => t.date.weekday % 7
  | k => t.number k

/-- Without its year, an event selects a minute if it admits its number for each key. -/
theorem Event.selects_anyYear_iff {e : Event} {t : Instant} :
    selects { e with year := .any } t = true ↔
      ∀ k : IntervalKey, (e.get k.component).admits (t.number k) = true := by
  simp only [selects, admits_any, Bool.true_and, Bool.and_eq_true]
  constructor
  · rintro ⟨⟨⟨⟨hm, hd⟩, hw⟩, hh⟩, hn⟩ k
    cases k with
    | month => exact hm
    | day => exact hd
    | weekday => exact hw
    | hour => exact hh
    | minute => exact hn
  · exact fun hall => ⟨⟨⟨⟨hall .month, hall .day⟩, hall .weekday⟩, hall .hour⟩, hall .minute⟩

namespace Interval

variable {e : Event} {i : Interval} {t : Instant}

/-- Whether an interval selects the minute of an instant: every number that it holds is that of the
instant. -/
def selects (i : Interval) (t : Instant) : Bool :=
  IntervalKey.all.all fun k => (i.get? k).all (· == t.reading k)

/-- A record selects a minute exactly if each of its keys reads the same there. -/
theorem selects_iff : i.selects t = true ↔ ∀ k, ∀ n ∈ i.get? k, n = t.reading k := by
  have hkeys : ∀ k, k ∈ IntervalKey.all := by
    intro k
    cases k <;> decide
  simp [selects, hkeys, Option.all_eq_true]

/-- The choice for a key that an instant leaves. -/
def choiceAt (e : Event) (t : Instant) (k : IntervalKey) : Option Nat :=
  if (e.get k.component).isPopulated then some (t.reading k) else none

/-- Of the choices for a key only one fits an instant. -/
theorem eq_choiceAt_iff {k : IntervalKey} {o : Option Nat} (ho : o ∈ choices e k) :
    o = choiceAt e t k ↔ ∀ n ∈ o, n = t.reading k := by
  cases o with
  | none => simp [choiceAt, none_mem_choices_iff.mp ho]
  | some m => simp [choiceAt, (some_mem_choices_iff.mp ho).1]

/-- **The choice that an instant leaves for a key is there if the event admits its number.** -/
theorem choiceAt_mem_iff (he : e.Reached) (k : IntervalKey) :
    choiceAt e t k ∈ choices e k ↔ (e.get k.component).admits (t.number k) = true := by
  have hreading : ∀ n ∈ (e.get k.component).members,
      k.ofMember n = t.reading k ↔ n = t.number k := by
    intro n hn
    -- Sunday is 7 in an event and 0 in a record, and all other numbers are the same
    cases k with
    | weekday =>
      have hends : 1 ≤ n ∧ n ≤ 7 := holds_iff.mp ((he .weekday).holds hn)
      have hdays := t.date.weekday_bounds
      simp only [IntervalKey.ofMember, Instant.reading, Instant.number]
      omega
    | month | day | hour | minute => rfl
  rw [choiceAt, admits]
  cases hp : (e.get k.component).isPopulated with
  | false => simpa [none_mem_choices_iff] using hp
  | true =>
    rw [if_pos rfl, some_mem_choices_iff, Bool.not_true, Bool.false_or, contains_iff]
    constructor
    · rintro ⟨-, n, hn, heq⟩
      exact (hreading n hn).mp heq ▸ hn
    · exact fun hmem => ⟨hp, _, hmem, (hreading _ hmem).mpr rfl⟩

/-- An interval of an event that selects a minute is the one that the instant leaves. -/
theorem selects_iff_eq (hi : i ∈ expand e) :
    i.selects t = true ↔ i = ofKeys (choiceAt e t) := by
  rw [mem_expand_iff] at hi
  rw [selects_iff]
  constructor
  · intro hall
    refine ext_get? fun k => ?_
    rw [get?_ofKeys, eq_choiceAt_iff (hi k)]
    exact hall k
  · rintro rfl k
    rw [← eq_choiceAt_iff (hi k), get?_ofKeys]

/-- The interval that an instant leaves is one of the event's if the event selects its minute in
any year. -/
theorem ofKeys_choiceAt_mem_iff (he : e.Reached) :
    ofKeys (choiceAt e t) ∈ expand e ↔ Event.selects { e with year := .any } t = true := by
  simp only [mem_expand_iff, get?_ofKeys, choiceAt_mem_iff he, Event.selects_anyYear_iff]

/-- **The intervals of an event select its minutes**, each of them once. For every event that
operations lead to and every instant, the event without its year selects the minute of the instant
if and only if one of its intervals does, and then exactly one of them does. -/
theorem exists_selects_expand_iff (he : e.Reached) (t : Instant) :
    (Event.selects { e with year := .any } t = true ↔ ∃ i ∈ expand e, i.selects t = true) ∧
      (Event.selects { e with year := .any } t = true →
        (expand e).countP (·.selects t) = 1) := by
  rw [← ofKeys_choiceAt_mem_iff he]
  refine ⟨⟨fun hmem => ⟨_, hmem, (selects_iff_eq hmem).mpr rfl⟩, ?_⟩, fun hmem => ?_⟩
  · rintro ⟨i, hi, hselects⟩
    rwa [← (selects_iff_eq hi).mp hselects]
  · have hcount : (expand e).countP (·.selects t) = (expand e).count (ofKeys (choiceAt e t)) := by
      refine List.countP_congr fun i hi => ?_
      rw [selects_iff_eq hi, beq_iff_eq]
    rw [hcount, List.count_eq_one_of_mem (nodup_expand he) hmem]

/-- A Sunday of the first week of a month is selected by one interval, which holds a 0 for the day
of the week. -/
theorem exists_selects_expand_iff_sunday :
    let e : Event :=
      { weekday := .ofList [6, 7], year := .one 2020, day := .ofList (List.range' 1 7),
        hour := .one 10, minute := .ofList [0, 30], second := .one 0 }
    let t : Instant := ⟨⟨2026, 11, 1⟩, 10, 30, 59, 0⟩
    let i : Interval := { day := some 1, weekday := some 0, hour := some 10, minute := some 30 }
    e.Reached ∧ Event.selects { e with year := .any } t = true ∧
      (∃ j ∈ expand e, j.selects t = true) ∧ (expand e).countP (·.selects t) = 1 ∧
      i ∈ expand e ∧ i.selects t = true := by
  intro e t i
  have he : e.Reached := by
    intro c
    cases c with
    | month => exact .any
    | weekday | day | minute => exact reached_ofList _
    | year | hour | second => exact reached_one (by decide) (by decide)
  have hselects : Event.selects { e with year := .any } t = true := by decide
  obtain ⟨hiff, hone⟩ := exists_selects_expand_iff he t
  exact ⟨he, hselects, hiff.mp hselects, hone hselects, by decide, by decide⟩

end Interval

end Timetable
