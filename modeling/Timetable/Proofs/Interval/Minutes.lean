import Timetable.Proofs.Interval.Merging

/-!
The minutes of merged intervals.

A merge collects the numbers for each key on its own. So the merged event selects a
minute if, for each key, the number of the minute is one of those collected, or
none was collected. A key that an interval leaves open is not open in the event as
soon as another interval holds a number for it. So the event misses minutes of an
interval exactly if some number that can stand for an open key of it was not
collected, although others were. Which numbers can stand there is told by the
calendar: all hours, minutes and days of the week, and the months and days that
make a date with what the interval holds.
-/

set_option autoImplicit false

namespace Timetable

open Selection

open Text (wordLimit)

/-- The numbers of an instant of the calendar are numbers of their components. -/
theorem Instant.IsValid.holds_number {t : Instant} (ht : t.IsValid) (k : IntervalKey) :
    k.component.domain.holds (t.number k) = true := by
  have hdate := Date.isValid_iff.mp ht.date
  rw [holds_iff]
  cases k with
  | month => exact hdate.1
  | day => exact ⟨hdate.2.1, hdate.2.2.trans (daysInMonth_le _ _)⟩
  | weekday => exact t.date.weekday_bounds
  | hour => exact ⟨Nat.zero_le _, Nat.le_of_lt_succ ht.hour⟩
  | minute => exact ⟨Nat.zero_le _, Nat.le_of_lt_succ ht.minute⟩

namespace Interval

variable {is : List Interval} {i : Interval} {e : Event} {t : Instant} {k : IntervalKey} {n : Nat}

/-- Whether an interval asks for the minute of an instant: every number that it holds is that of
the instant, where both 0 and 7 stand for Sunday. -/
def asksFor (i : Interval) (t : Instant) : Bool :=
  IntervalKey.all.all fun k => (i.get? k).all fun n => k.toMember n == t.number k

/-- A record asks for a minute exactly if each of its keys has the minute's number. -/
theorem asksFor_iff : i.asksFor t = true ↔ ∀ k, ∀ n ∈ i.get? k, k.toMember n = t.number k := by
  have hkeys : ∀ k, k ∈ IntervalKey.all := by
    intro k
    cases k <;> decide
  simp [asksFor, hkeys, Option.all_eq_true]

/-! ## What a merge selects -/

/-- The numbers of a key are those of the records that have it. -/
theorem mem_membersOf_iff : n ∈ membersOf k is ↔ ∃ i ∈ is, ∃ m ∈ i.get? k, k.toMember m = n := by
  simp [membersOf]

section Merged

variable (h : merge is = .ok e)

include h

/-- They are numbers of the key's part. -/
theorem holds_of_mem_membersOf (hn : n ∈ membersOf k is) : k.component.domain.holds n = true :=
  holds_of_foldlM_insert ((merge_eq_ok_iff.mp h).1 k) n hn

/-- A merged event admits for a key what was collected for it, or everything if nothing was. -/
theorem admits_merge_iff :
    (e.get k.component).admits n = true ↔ membersOf k is = [] ∨ n ∈ membersOf k is := by
  have hwidth : k.component.domain.width < wordLimit := by
    cases k <;> decide
  have hholds : ∀ m ∈ membersOf k is, k.component.domain.holds m = true :=
    fun m hm => holds_of_mem_membersOf h hm
  have hrow := (merge_eq_ok_iff.mp h).1 k
  rw [foldlM_insert_any hwidth hholds, Except.ok.injEq] at hrow
  rw [admits, Bool.or_eq_true, Bool.not_eq_true', isPopulated_eq_false_iff, contains_iff, ← hrow,
    inserted_eq_any_iff, (inserted_spec hwidth hholds).2]

/-- **The minutes of a merged event**, key by key. -/
theorem selects_merge_iff :
    e.selects t = true ↔ ∀ k, membersOf k is = [] ∨ t.number k ∈ membersOf k is := by
  have hyear : e = { e with year := .any } := by
    rw [← (merge_eq_ok_iff.mp h).2.1]
  rw [hyear, Event.selects_anyYear_iff]
  exact forall_congr' fun k => admits_merge_iff h

/-- Of the minutes that an interval asks for, the merged event selects those whose numbers for its
open keys were collected from other intervals. -/
theorem selects_merge_iff_of_asksFor (hi : i ∈ is) (ht : i.asksFor t = true) :
    e.selects t = true ↔
      ∀ k, i.get? k = none → membersOf k is = [] ∨ t.number k ∈ membersOf k is := by
  rw [selects_merge_iff h]
  refine forall_congr' fun k => ?_
  cases hget : i.get? k with
  | none => simp
  | some m =>
    have hnumber : k.toMember m = t.number k := asksFor_iff.mp ht k m hget
    simp [mem_membersOf_iff.mpr ⟨i, hi, m, hget, hnumber⟩]

end Merged

/-! ## Minutes that there are -/

/-- Whether there is a date with the month and the day of an interval: in a leap year its month, if
it holds one, has its day, if it holds one. -/
def hasDate (i : Interval) : Bool :=
  i.month.all fun m => i.day.all fun d => d ≤ daysInMonth 2000 m

/-- A record has a date if its day is there in its month, in a leap year. -/
theorem hasDate_iff : i.hasDate = true ↔ ∀ m ∈ i.month, ∀ d ∈ i.day, d ≤ daysInMonth 2000 m := by
  simp [hasDate, Option.all_eq_true]

/-- The numbers that an interval holds are numbers of their components. -/
def IsInDomain (i : Interval) : Prop :=
  ∀ k, ∀ n ∈ i.get? k, k.component.domain.holds (k.toMember n) = true

/-- Records that can be merged have numbers in their domains only. -/
theorem isInDomain_of_mem (h : merge is = .ok e) (hi : i ∈ is) : i.IsInDomain :=
  fun _ n hn => holds_of_mem_membersOf h (mem_membersOf_iff.mpr ⟨i, hi, n, hn, rfl⟩)

@[simp] theorem get?_set_self (i : Interval) (n : Nat) (k : IntervalKey) :
    (i.set n k).get? k = some n := by
  cases k <;> rfl

/-- Setting a key leaves the others. -/
theorem get?_set_of_ne (i : Interval) (n : Nat) {k k' : IntervalKey} (h : k ≠ k') :
    (i.set n k).get? k' = i.get? k' := by
  cases k <;> cases k' <;> first | rfl | exact absurd rfl h

/-- Holding a number for an open key asks for the minutes with this number. -/
theorem asksFor_set_iff (hopen : i.get? k = none) :
    (i.set n k).asksFor t = true ↔ k.toMember n = t.number k ∧ i.asksFor t = true := by
  simp only [asksFor_iff]
  constructor
  · intro hall
    refine ⟨hall k n (get?_set_self i n k), fun k' m hm => ?_⟩
    have hne : k ≠ k' := by
      rintro rfl
      rw [hopen] at hm
      cases hm
    exact hall k' m (by rwa [get?_set_of_ne i n hne])
  -- the key that is set, and any other one
  · rintro ⟨hn, hall⟩ k' m hm
    by_cases hk : k = k'
    · subst hk
      obtain rfl : n = m := by simpa using hm
      exact hn
    · rw [get?_set_of_ne i n hk] at hm
      exact hall k' m hm

/-- The number that an interval holds for a key, or the first one that there is. -/
def firstNumber (i : Interval) (k : IntervalKey) : Nat :=
  ((i.get? k).map k.toMember).getD k.component.domain.lo

/-- The first number of a key that is there is its number. -/
theorem toMember_eq_firstNumber (hn : n ∈ i.get? k) : k.toMember n = i.firstNumber k := by
  rw [firstNumber, Option.mem_def.mp hn, Option.map_some, Option.getD_some]

/-- The first number of a key that is not there is the first one of its part. -/
theorem firstNumber_of_open (hopen : i.get? k = none) :
    i.firstNumber k = k.component.domain.lo := by
  rw [firstNumber, hopen, Option.map_none, Option.getD_none]

/-- In any case it is a number of the part. -/
theorem IsInDomain.firstNumber_bounds (hi : i.IsInDomain) (k : IntervalKey) :
    k.component.domain.lo ≤ i.firstNumber k ∧ i.firstNumber k ≤ k.component.domain.hi := by
  rw [← holds_iff]
  cases hget : i.get? k with
  | none =>
    rw [firstNumber_of_open hget]
    cases k <;> decide
  | some n => exact toMember_eq_firstNumber hget ▸ hi k n hget

/-- Where an interval has a date, its first month has its first day. -/
theorem IsInDomain.firstNumber_day_le (hi : i.IsInDomain) (hdate : i.hasDate = true) :
    i.firstNumber .day ≤ daysInMonth 2000 (i.firstNumber .month) := by
  have hmonth := hi.firstNumber_bounds .month
  have hday := hi.firstNumber_bounds .day
  cases hd : i.day with
  | none =>
    have hfirst : i.firstNumber .day = 1 := firstNumber_of_open hd
    rw [hfirst]
    exact one_le_daysInMonth 2000 hmonth.1 hmonth.2
  | some d =>
    cases hm : i.month with
    | none =>
      -- January has every day
      have hfirst : i.firstNumber .month = 1 := firstNumber_of_open hm
      rw [hfirst]
      exact hday.2
    | some m =>
      have hdays := hasDate_iff.mp hdate m hm d hd
      rwa [← toMember_eq_firstNumber (k := .day) hd, ← toMember_eq_firstNumber (k := .month) hm]

/-- **An interval asks for some minute exactly if there is a date for it.** -/
theorem exists_asksFor_iff (hi : i.IsInDomain) :
    (∃ t : Instant, t.IsValid ∧ i.asksFor t = true) ↔ i.hasDate = true := by
  constructor
  · rintro ⟨t, ht, hasks⟩
    refine hasDate_iff.mpr fun m hm d hd => ?_
    have hleap : isLeapYear 2000 = true := by decide
    have hmonth : m = t.date.month := asksFor_iff.mp hasks .month m hm
    have hday : d = t.date.day := asksFor_iff.mp hasks .day d hd
    rw [hmonth, hday]
    exact (Date.isValid_iff.mp ht.date).2.2.trans
      (daysInMonth_le_of_isLeapYear hleap t.date.year t.date.month)
  · intro hdate
    have hvalid : (⟨2000, i.firstNumber .month, i.firstNumber .day⟩ : Date).isValid = true :=
      Date.isValid_iff.mpr ⟨hi.firstNumber_bounds .month, (hi.firstNumber_bounds .day).1,
        hi.firstNumber_day_le hdate⟩
    -- the day of the week is met in another year
    have hweekday := hi.firstNumber_bounds .weekday
    obtain ⟨y, hy, hvalid', hw⟩ := Date.exists_weekday_eq hvalid hweekday.1 hweekday.2
    have hyears : -262143 ≤ y ∧ y ≤ 262142 := by omega
    refine ⟨⟨⟨y, i.firstNumber .month, i.firstNumber .day⟩, i.firstNumber .hour,
      i.firstNumber .minute, 0, 0⟩, ⟨hvalid', hyears.1, hyears.2,
        Nat.lt_succ_of_le (hi.firstNumber_bounds .hour).2,
        Nat.lt_succ_of_le (hi.firstNumber_bounds .minute).2, Nat.succ_pos 59⟩,
      asksFor_iff.mpr fun k n hn => ?_⟩
    rw [toMember_eq_firstNumber hn]
    cases k with
    | weekday => exact hw.symm
    | month | day | hour | minute => rfl

/-- The numbers that can stand for an open key of an interval: those of the component that make a
date with what it holds. -/
def canHold (i : Interval) (k : IntervalKey) (n : Nat) : Bool :=
  k.component.domain.holds n && (i.set (k.ofMember n) k).hasDate

/-- A record that leaves a key open asks for a minute with a given number there exactly if the key
can hold it: the number is in the domain, and the day is there in the month. -/
theorem exists_number_iff (hi : i.IsInDomain) (hopen : i.get? k = none) :
    (∃ t : Instant, t.IsValid ∧ i.asksFor t = true ∧ t.number k = n) ↔ i.canHold k n = true := by
  rw [canHold, Bool.and_eq_true]
  have hset : k.component.domain.holds n = true → (i.set (k.ofMember n) k).IsInDomain := by
    intro hn k' m hm
    by_cases hk : k = k'
    · subst hk
      obtain rfl : k.ofMember n = m := by simpa using hm
      rwa [toMember_ofMember hn]
    · rw [get?_set_of_ne i _ hk] at hm
      exact hi k' m hm
  -- setting the key to the number makes the question one about a record's dates
  constructor
  · rintro ⟨t, ht, hasks, rfl⟩
    have hn := ht.holds_number k
    refine ⟨hn, (exists_asksFor_iff (hset hn)).mp ⟨t, ht, ?_⟩⟩
    exact (asksFor_set_iff hopen).mpr ⟨toMember_ofMember hn, hasks⟩
  · rintro ⟨hn, hdate⟩
    obtain ⟨t, ht, hasks⟩ := (exists_asksFor_iff (hset hn)).mpr hdate
    obtain ⟨hnumber, hasks⟩ := (asksFor_set_iff hopen).mp hasks
    exact ⟨t, ht, hasks, by rw [← hnumber, toMember_ofMember hn]⟩

/-! ## Intervals whose minutes are selected -/

/-- The merged event selects all minutes of an interval exactly if for each open key of it nothing
was collected, or all numbers that can stand there. -/
theorem forall_selects_merge_iff (h : merge is = .ok e) (hi : i ∈ is) :
    (∀ t : Instant, t.IsValid → i.asksFor t = true → e.selects t = true) ↔
      ∀ k, i.get? k = none → membersOf k is = [] ∨
        ∀ n, i.canHold k n = true → n ∈ membersOf k is := by
  have hdomain := isInDomain_of_mem h hi
  constructor
  -- each number that the key can hold is that of some minute which the record asks for
  · intro hall k hopen
    by_cases hnone : membersOf k is = []
    · exact .inl hnone
    · refine .inr fun n hn => ?_
      obtain ⟨t, ht, hasks, rfl⟩ := (exists_number_iff hdomain hopen).mpr hn
      have hselects := (selects_merge_iff_of_asksFor h hi hasks).mp (hall t ht hasks)
      exact (hselects k hopen).resolve_left hnone
  · intro hkeys t ht hasks
    refine (selects_merge_iff_of_asksFor h hi hasks).mpr fun k hopen => ?_
    refine (hkeys k hopen).imp_right fun hcollected => ?_
    exact hcollected _ ((exists_number_iff hdomain hopen).mp ⟨t, ht, hasks, rfl⟩)

/-- **What a merged event selects.** It selects a minute exactly if, for each key, the number of the
minute is one that some interval holds, or no interval holds any. So of an interval it selects all
minutes exactly if, for each key that the interval leaves open and another one does not, the
intervals hold every number that can stand there. -/
theorem selects_merge_exact (h : merge is = .ok e) :
    (∀ t, e.selects t = true ↔
      ∀ k, (∀ i ∈ is, i.get? k = none) ∨ ∃ i ∈ is, ∃ n ∈ i.get? k, k.toMember n = t.number k) ∧
    ∀ i ∈ is, (∀ t : Instant, t.IsValid → i.asksFor t = true → e.selects t = true) ↔
      ∀ k, i.get? k = none → (∀ j ∈ is, j.get? k = none) ∨
        ∀ n, i.canHold k n = true → ∃ j ∈ is, ∃ m ∈ j.get? k, k.toMember m = n := by
  have hnone : ∀ k, membersOf k is = [] ↔ ∀ i ∈ is, i.get? k = none := by
    intro k
    simp [membersOf]
  constructor
  · intro t
    rw [selects_merge_iff h]
    simp only [hnone, mem_membersOf_iff]
  · intro i hi
    rw [forall_selects_merge_iff h hi]
    simp only [hnone, mem_membersOf_iff]

/-- The 31st of every month is selected although other intervals name months: they name all those
that have it. -/
theorem selects_merge_exact_last_days :
    let is : List Interval :=
      { day := some 31 } :: [1, 3, 5, 7, 8, 10, 12].map fun m => { month := some m, day := some 31 }
    ∃ e, merge is = .ok e ∧ e.month.isPopulated = true ∧
      ∀ i ∈ is, ∀ t : Instant, t.IsValid → i.asksFor t = true → e.selects t = true := by
  intro is
  have hmerge : merge is = .ok { month := .ofList [1, 3, 5, 7, 8, 10, 12],
                                 day := .ofList (List.replicate 8 31), second := .ofList [0] } := by
    decide
  refine ⟨_, hmerge, by decide, fun i hi => ?_⟩
  refine ((selects_merge_exact hmerge).2 i hi).mpr fun k hopen => ?_
  -- the first record leaves the month open, and the others have all months with 31 days
  cases k with
  | weekday | hour | minute => exact .inl (by decide)
  | day =>
    have hday : ∀ i ∈ is, i.get? .day ≠ none := by decide
    exact absurd hopen (hday i hi)
  | month =>
    have hfirst : ∀ i ∈ is, i.get? .month = none → i = { day := some 31 } := by decide
    obtain rfl := hfirst i hi hopen
    have hmonths : ∀ n < 13, ({ day := some 31 } : Interval).canHold .month n = true →
        ∃ j ∈ is, ∃ m ∈ j.get? .month, IntervalKey.month.toMember m = n := by
      decide
    refine .inr fun n hn => hmonths n ?_ hn
    rw [canHold, Bool.and_eq_true] at hn
    exact Nat.lt_succ_of_le (holds_iff.mp hn.1).2

/-- An interval for every full hour and one for half past noon: the merged event does not come at
three o'clock, which the first of them asks for. -/
theorem selects_merge_full_hours :
    let i : Interval := { minute := some 0 }
    let e : Event := { hour := .one 12, minute := .ofList [0, 30], second := .ofList [0] }
    let t : Instant := ⟨⟨2024, 1, 1⟩, 3, 0, 0, 0⟩
    merge [i, { hour := some 12, minute := some 30 }] = .ok e ∧ t.IsValid ∧ i.asksFor t = true ∧
      e.selects t = false := by
  intro i e t
  have ht : t.IsValid := by
    constructor <;> decide
  exact ⟨by decide, ht, by decide, by decide⟩

end Interval

end Timetable
