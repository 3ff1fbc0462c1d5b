import Mathlib.Data.List.Sort
import Mathlib.Order.Bounds.Basic
import Timetable.Event.Occurrence
import Timetable.Proofs.Instant

/-!
When an event comes next, and how often.

The minutes at which an event comes from some instant on are a set of instants,
and the search gives the least of them. One step of the search skips a unit that
is not selected: no minute of the rest of that unit is in the set, so the set from
where the search goes on is the same. By induction over the steps the search ends
at the least member, or passes the last year because there is none.

The occurrences of an interval are found by such searches. Each takes the least
member off the set that the next one starts from, so they come in ascending order
and none is passed over.
-/

set_option autoImplicit false

namespace Timetable

open Component (lastYear)

namespace Event

/-- An event comes at a minute of the calendar: it selects it, and the year is one that an event
can name. -/
structure ComesAt (e : Event) (m : Instant) : Prop where
  isMinute : m.IsMinute
  year : m.date.year ≤ lastYear
  selects : e.selects m = true

/-- The minutes from an instant on at which an event comes. -/
def comingFrom (e : Event) (t : Instant) : Set Instant :=
  {m | e.ComesAt m ∧ t ≤ m}

variable {e : Event} {t t' m : Instant}

theorem mem_comingFrom : m ∈ e.comingFrom t ↔ e.ComesAt m ∧ t ≤ m :=
  Iff.rfl

/-! ## One step of the search -/

namespace Skips

theorem isMinute (h : e.Skips t t') (ht : t.IsMinute) : t'.IsMinute := by
  cases h with
  | year _ => exact Instant.IsMinute.isMinute_nextYear t
  | month _ => exact ht.nextMonth
  | day _ => exact ht.nextDay
  | hour _ => exact ht.nextHour
  | minute _ => exact ht.nextMinute

/-- A step goes forward. -/
theorem lt (h : e.Skips t t') (ht : t.IsMinute) : t < t' := by
  cases h with
  | year _ => rw [ht.lt_nextYear_iff]
  | month _ =>
    rw [ht.lt_nextMonth_iff ht]
    omega
  | day _ => rw [ht.lt_nextDay_iff ht]
  | hour _ =>
    rw [ht.lt_nextHour_iff ht]
    omega
  | minute _ => rw [ht.lt_nextMinute_iff ht]

/-- **A step passes no selected minute.** From the start to where the search goes on, the unit that
is not selected stays the same. -/
theorem selects_eq_false (h : e.Skips t t') (ht : t.IsMinute) (hm : m.IsMinute) (hle : t ≤ m)
    (hlt : m < t') : e.selects m = false := by
  have hback := (hm.lt_iff ht).not.mp (Instant.not_lt.mpr hle)
  have hdate := (Date.number_lt_iff hm.date ht.date).not.mp (by omega)
  -- up to the start of the next unit, the unit is the same, and so what the event says of it
  cases h with
  | year h =>
    rw [hm.lt_nextYear_iff] at hlt
    have hyear : m.date.yearNumber = t.date.yearNumber := by
      simp only [Date.yearNumber]
      omega
    simp only [selects, hyear, h, Bool.false_and]
  | month h =>
    rw [hm.lt_nextMonth_iff ht] at hlt
    have hmonth : m.date.month = t.date.month := by omega
    simp only [selects, hmonth, h, Bool.false_and, Bool.and_false]
  | day h =>
    rw [hm.lt_nextDay_iff ht] at hlt
    have hsame := Date.eq_of_number_eq hm.date ht.date (by omega)
    simp only [selects, hsame, Bool.and_assoc]
    rw [← Bool.and_assoc (e.day.admits _), h, Bool.false_and, Bool.and_false, Bool.and_false]
  | hour h =>
    rw [hm.lt_nextHour_iff ht] at hlt
    have hhour : m.hour = t.hour := by omega
    simp only [selects, hhour, h, Bool.false_and, Bool.and_false]
  | minute h =>
    rw [hm.lt_nextMinute_iff ht] at hlt
    rw [hm.eq_of_le_of_le ht hlt hle]
    simp only [selects, h, Bool.and_false]

/-- **A step keeps what is to come.** -/
theorem comingFrom_eq (h : e.Skips t t') (ht : t.IsMinute) :
    e.comingFrom t = e.comingFrom t' := by
  ext m
  rw [mem_comingFrom, mem_comingFrom]
  constructor
  · rintro ⟨hcomes, hle⟩
    refine ⟨hcomes, Instant.not_lt.mp fun hlt => ?_⟩
    have hskipped := h.selects_eq_false ht hcomes.isMinute hle hlt
    rw [hcomes.selects] at hskipped
    exact Bool.noConfusion hskipped
  · rintro ⟨hcomes, hle⟩
    exact ⟨hcomes, (h.lt ht).le.trans hle⟩

/-- A step goes no further than to the next year. -/
theorem le_nextYear (h : e.Skips t t') (ht : t.IsMinute) : t' ≤ t.nextYear := by
  have hnext := Instant.IsMinute.isMinute_nextYear t
  have hlater : t.date.number < t.nextYear.date.number :=
    Date.number_lt_of_year_lt ht.date hnext.date (Int.lt_succ t.date.year)
  cases h with
  | year _ => exact le_refl _
  | month _ =>
    rw [← Instant.not_lt, hnext.lt_nextMonth_iff ht]
    simp only [Instant.nextYear, Instant.midnight]
    omega
  | day _ =>
    rw [← Instant.not_lt, hnext.lt_nextDay_iff ht]
    omega
  | hour _ =>
    rw [← Instant.not_lt, hnext.lt_nextHour_iff ht]
    omega
  | minute _ => exact ht.nextMinute_le_nextYear

end Skips

/-! ## The search -/

/-- What the answer to the question for a first member is: the least one, or that there is none. -/
def IsFirst (s : Set Instant) : Option Instant → Prop
  | some m => IsLeast s m
  | none => s = ∅

/-- **The search finds the least minute.** The induction is on the steps of the search, and each of
them keeps what is to come. -/
theorem search_isFirst (ht : t.IsMinute) (hfirst : 0 ≤ t.date.year)
    (hlast : t.date.year ≤ 262142) : IsFirst (e.comingFrom t) (e.search t) := by
  fun_induction search e t with
  | case1 t hyear =>
    -- what is to come would be in a later year than the last one
    refine Set.eq_empty_of_forall_notMem fun m hm => ?_
    have hle := ht.year_le_of_le hm.1.isMinute hm.2
    have hbound := hm.1.year
    simp only [Date.yearNumber] at hyear
    omega
  | case2 t hyear t' hskip ih =>
    have hstep := skips_of_skip? hskip
    have ht' := hstep.isMinute ht
    have hforth := ht.year_le_of_le ht' (hstep.lt ht).le
    have hnext := ht'.year_le_of_le (Instant.IsMinute.isMinute_nextYear t) (hstep.le_nextYear ht)
    simp only [Date.yearNumber, lastYear] at hyear
    simp only [Instant.nextYear, Instant.midnight] at hnext
    rw [hstep.comingFrom_eq ht]
    exact ih ht' (by omega) (by omega)
  | case3 t hyear hskip =>
    have hcomes : e.ComesAt t := by
      refine ⟨ht, ?_, skip?_eq_none_iff.mp hskip⟩
      simp only [Date.yearNumber] at hyear
      omega
    exact ⟨⟨hcomes, le_refl t⟩, fun m hm => hm.2⟩

/-- The search for the next occurrence starts with the minute of the instant. -/
theorem next_isFirst (ht : t.startOfMinute.IsMinute) (hfirst : 0 ≤ t.date.year)
    (hlast : t.date.year ≤ 262142) : IsFirst (e.comingFrom t.startOfMinute) (e.next t) :=
  search_isFirst ht hfirst hlast

/-- There is only one least minute. -/
theorem eq_of_isLeast {m m' : Instant} (h : IsLeast (e.comingFrom t) m)
    (h' : IsLeast (e.comingFrom t) m') : m = m' :=
  h.1.1.isMinute.eq_of_le_of_le h'.1.1.isMinute (h.2 h'.1) (h'.2 h.1)

/-- The next occurrence is the first minute to come. -/
theorem next_eq_some_iff (ht : t.IsValid) (hfirst : 0 ≤ t.date.year) :
    e.next t = some m ↔ IsLeast (e.comingFrom t.startOfMinute) m := by
  have hnext := next_isFirst (e := e) ht.isMinute hfirst ht.lastYear
  constructor
  · intro h
    rwa [h] at hnext
  · intro hleast
    cases h : e.next t with
    | some m' =>
      rw [h] at hnext
      rw [eq_of_isLeast hnext hleast]
    | none =>
      rw [h] at hnext
      exact absurd hleast.1 (Set.eq_empty_iff_forall_notMem.mp hnext m)

/-- If some minute is to come, there is a next occurrence. -/
theorem exists_next_of_mem (ht : t.IsValid) (hfirst : 0 ≤ t.date.year)
    (hm : m ∈ e.comingFrom t.startOfMinute) : ∃ m', e.next t = some m' ∧ m' ≤ m := by
  have hnext := next_isFirst (e := e) ht.isMinute hfirst ht.lastYear
  cases h : e.next t with
  | some m' =>
    rw [h] at hnext
    exact ⟨m', rfl, hnext.2 hm⟩
  | none =>
    rw [h] at hnext
    exact absurd hm (Set.eq_empty_iff_forall_notMem.mp hnext m)

/-- **The next occurrence is the least selected minute.** From any instant of a year that is not
negative, the search gives the least minute, not before the minute of that instant and not after
the last year, that the event selects; and it gives none exactly if there is no such minute. -/
theorem next_isLeast (ht : t.IsValid) (hfirst : 0 ≤ t.date.year) :
    (∀ m, e.next t = some m ↔ IsLeast {m | e.ComesAt m ∧ t.startOfMinute ≤ m} m) ∧
      (e.next t = none ↔ ∀ m, e.ComesAt m → m < t.startOfMinute) := by
  have hnext := next_isFirst (e := e) ht.isMinute hfirst ht.lastYear
  cases h : e.next t with
  | some m =>
    rw [h] at hnext
    constructor
    · intro m'
      rw [Option.some_inj]
      exact ⟨fun heq => heq ▸ hnext, fun hleast => eq_of_isLeast hnext hleast⟩
    · refine ⟨nofun, fun hnone => ?_⟩
      exact absurd hnext.1.2 (not_le_of_gt (hnone m hnext.1.1))
  | none =>
    rw [h] at hnext
    have hnone : ∀ m, e.ComesAt m → m < t.startOfMinute := by
      intro m hm
      by_contra hnot
      exact Set.eq_empty_iff_forall_notMem.mp hnext m ⟨hm, Instant.not_lt.mp hnot⟩
    constructor
    · intro m
      refine ⟨nofun, fun hleast => ?_⟩
      exact absurd hleast.1.2 (not_le_of_gt (hnone m hleast.1.1))
    · exact ⟨fun _ => hnone, fun _ => rfl⟩

/-- What an event selects that is restricted to a day of February. -/
theorem ComesAt.february {d : Nat} (h : ComesAt { month := .one 2, day := .one d } m) :
    m.date.month = 2 ∧ m.date.day = d ∧ d ≤ 29 ∧ (d = 29 → isLeapYear m.date.year = true) := by
  have hselects := h.selects
  simp only [Event.selects, Selection.admits, Selection.isPopulated, Selection.contains,
    Bool.not_true, Bool.not_false, Bool.false_or, Bool.true_or, Bool.true_and, Bool.and_true,
    Bool.and_eq_true,
    beq_iff_eq] at hselects
  have hday := (Date.isValid_iff.mp h.isMinute.date).2.2
  rw [← hselects.1, ← hselects.2] at hday
  refine ⟨hselects.1.symm, hselects.2.symm, ?_⟩
  simp only [daysInMonth] at hday
  split at hday
  · next hleap => exact ⟨hday, fun _ => hleap⟩
  · omega

/-- After 2096 the year 2104 is the first to have a 29th of February, and no year has a 31st. -/
theorem next_isLeast_february :
    let t : Instant := ⟨⟨2096, 3, 1⟩, 15, 4, 5, 0⟩
    (t.IsValid ∧ 0 ≤ t.date.year) ∧
      next { month := .one 2, day := .one 29 } t = some (.midnight ⟨2104, 2, 29⟩) ∧
      next { month := .one 2, day := .one 31 } t = none := by
  intro t
  have ht : t.IsValid := by
    constructor <;> decide
  refine ⟨⟨ht, by decide⟩, ?_, ?_⟩
  · refine ((next_isLeast ht (by decide)).1 _).mpr ⟨⟨⟨⟨by decide, by decide, by decide, rfl, rfl⟩,
      by decide, by decide⟩, by decide⟩, ?_⟩
    rintro m ⟨hm, hle⟩
    obtain ⟨hmonth, hday, -, hleap⟩ := hm.february
    have hfirst : (⟨2104, 2, 29⟩ : Date).isValid = true := by decide
    rw [← Instant.not_lt, hm.isMinute.lt_midnight_iff hfirst,
      Date.number_lt_iff hm.isMinute.date hfirst]
    have hyear := ht.isMinute.year_le_of_le hm.isMinute hle
    rw [← Instant.not_lt, hm.isMinute.lt_iff ht.isMinute] at hle
    have hlater := Date.number_lt_iff hm.isMinute.date ht.date
    have hleap := hleap rfl
    simp only [isLeapYear, Bool.or_eq_true, Bool.and_eq_true, beq_iff_eq, bne_iff_ne] at hleap
    simp only [t, Instant.startOfMinute] at hyear hle hlater ⊢
    omega
  · refine (next_isLeast ht (by decide)).2.mpr fun m hm => ?_
    have hday := hm.february.2.2.1
    omega

/-! ## The occurrences of an interval -/

/-- What is to come behind the first member: the first member is the only one that is taken off. -/
theorem mem_comingFrom_nextMinute_iff (h : IsLeast (e.comingFrom t) t') :
    m ∈ e.comingFrom t ↔ m = t' ∨ m ∈ e.comingFrom t'.nextMinute := by
  have ht' := h.1.1.isMinute
  constructor
  · intro hm
    by_cases hlt : m < t'.nextMinute
    · rw [hm.1.isMinute.lt_nextMinute_iff ht'] at hlt
      exact .inl (hm.1.isMinute.eq_of_le_of_le ht' hlt (h.2 hm))
    · exact .inr ⟨hm.1, Instant.not_lt.mp hlt⟩
  · rintro (rfl | hm)
    · exact h.1
    · exact ⟨hm.1, h.1.2.trans (ht'.lt_nextMinute.le.trans hm.2)⟩

/-- **What is collected.** From the minute of the cursor on, the minutes after the start and up to
the end at which the event comes are put behind what has been found, in ascending order. The
induction is on the searches; each takes its minute off what is to come. -/
theorem exists_collect_eq (start stop : Instant) {cursor : Instant} (found : List Instant)
    (hcursor : cursor.startOfMinute.IsMinute) (hfirst : 0 ≤ cursor.date.year)
    (hlast : cursor.date.year ≤ 262142) :
    ∃ ms, e.collect start stop found cursor = found.reverse ++ ms ∧ ms.Pairwise (· < ·) ∧
      ∀ m, m ∈ ms ↔ m ∈ e.comingFrom cursor.startOfMinute ∧ start < m ∧ m ≤ stop := by
  fun_induction collect e start stop found cursor with
  | case1 found cursor hnext =>
    have hnone := next_isFirst (e := e) hcursor hfirst hlast
    rw [hnext] at hnone
    refine ⟨[], by simp, .nil, fun m => ?_⟩
    simp only [List.not_mem_nil, false_iff]
    exact fun hm => Set.eq_empty_iff_forall_notMem.mp hnone m hm.1
  | case2 found cursor t hnext hstop =>
    have hleast := next_isFirst (e := e) hcursor hfirst hlast
    rw [hnext] at hleast
    refine ⟨[], by simp, .nil, fun m => ?_⟩
    simp only [List.not_mem_nil, false_iff]
    rintro ⟨hm, -, hle⟩
    exact absurd (Instant.isBefore_iff.mp hstop) (not_lt_of_ge ((hleast.2 hm).trans hle))
  | case3 found cursor t hnext hstop ih =>
    have hleast := next_isFirst (e := e) hcursor hfirst hlast
    rw [hnext] at hleast
    have ht := hleast.1.1.isMinute
    have hyear := hleast.1.1.year
    have hforth := hcursor.year_le_of_le ht hleast.1.2
    have hforth' := ht.year_le_of_le ht.nextMinute ht.lt_nextMinute.le
    have hnextYear := ht.nextMinute.year_le_of_le (Instant.IsMinute.isMinute_nextYear t)
      ht.nextMinute_le_nextYear
    simp only [Instant.startOfMinute] at hforth
    simp only [Instant.nextYear, Instant.midnight, lastYear] at hnextYear hyear
    have hstart := ht.nextMinute.startOfMinute_eq
    obtain ⟨ms, hms, hsorted, hmem⟩ :=
      ih (by rw [hstart]; exact ht.nextMinute) (by omega) (by omega)
    rw [hstart] at hmem
    by_cases hafter : start.isBefore t = true
    · refine ⟨t :: ms, ?_, ?_, fun m => ?_⟩
      · simpa [hafter] using hms
      · refine List.pairwise_cons.mpr ⟨fun m hm => ?_, hsorted⟩
        exact ht.lt_nextMinute.trans_le ((hmem m).mp hm).1.2
      · rw [List.mem_cons, hmem, mem_comingFrom_nextMinute_iff hleast, or_and_right]
        refine or_congr_left (iff_self_and.mpr ?_)
        rintro rfl
        exact ⟨Instant.isBefore_iff.mp hafter,
          Instant.not_lt.mp fun hlt => hstop (Instant.isBefore_iff.mpr hlt)⟩
    -- the cursor began within the minute of the start, and that minute is not after it
    · refine ⟨ms, by simpa [hafter] using hms, hsorted, fun m => ?_⟩
      rw [hmem, mem_comingFrom_nextMinute_iff hleast, or_and_right]
      refine (or_iff_right ?_).symm
      rintro ⟨rfl, hlt, -⟩
      exact hafter (Instant.isBefore_iff.mpr hlt)

/-- The occurrences of an interval are in ascending order, and they are the minutes in it at which
the event comes. -/
theorem mem_occurrences_iff {start : Instant} (hstart : start.IsValid)
    (hfirst : 0 ≤ start.date.year) (stop : Instant) :
    (e.occurrences start stop).Pairwise (· < ·) ∧
      ∀ m, m ∈ e.occurrences start stop ↔ e.ComesAt m ∧ start < m ∧ m ≤ stop := by
  obtain ⟨ms, hms, hsorted, hmem⟩ := exists_collect_eq (e := e) start stop []
    hstart.isMinute hfirst hstart.lastYear
  rw [occurrences, hms, List.reverse_nil, List.nil_append]
  refine ⟨hsorted, fun m => ?_⟩
  rw [hmem, mem_comingFrom]
  constructor
  · exact fun ⟨⟨hcomes, _⟩, hinside⟩ => ⟨hcomes, hinside⟩
  · exact fun ⟨hcomes, hinside⟩ =>
      ⟨⟨hcomes, start.startOfMinute_le.trans hinside.1.le⟩, hinside⟩

/-- **The occurrences of an interval are exactly the selected minutes in it.** From a start in a
year that is not negative up to any end, they are in strictly ascending order; a minute is among
them if and only if the event comes at it, after the start and not after the end. So there are none
if the end is not after the start, and an interval that is cut in two has those of the first part
and then those of the second. -/
theorem occurrences_exact {start : Instant} (hstart : start.IsValid)
    (hfirst : 0 ≤ start.date.year) (stop : Instant) :
    ((e.occurrences start stop).Pairwise (· < ·) ∧
      ∀ m, m ∈ e.occurrences start stop ↔ e.ComesAt m ∧ start < m ∧ m ≤ stop) ∧
    (stop ≤ start → e.occurrences start stop = []) ∧
    ∀ mid : Instant, mid.IsValid → start ≤ mid → mid ≤ stop →
      e.occurrences start stop = e.occurrences start mid ++ e.occurrences mid stop := by
  obtain ⟨hsorted, hmem⟩ := mem_occurrences_iff (e := e) hstart hfirst stop
  refine ⟨⟨hsorted, hmem⟩, fun hle => ?_, fun mid hmid hle hle' => ?_⟩
  · refine List.eq_nil_iff_forall_not_mem.mpr fun m hm => ?_
    obtain ⟨-, hafter, hbefore⟩ := (hmem m).mp hm
    exact not_le_of_gt hafter (hbefore.trans hle)
  · obtain ⟨hsorted₁, hmem₁⟩ := mem_occurrences_iff (e := e) hstart hfirst mid
    obtain ⟨hsorted₂, hmem₂⟩ := mem_occurrences_iff (e := e) hmid
      (hfirst.trans (hstart.year_le_of_le hmid hle)) stop
    -- lists in strictly ascending order are the same if their members are
    refine hsorted.eq_of_mem_iff (List.pairwise_append.mpr ⟨hsorted₁, hsorted₂, ?_⟩) fun m => ?_
    · intro m hm m' hm'
      exact ((hmem₁ m).mp hm).2.2.trans_lt ((hmem₂ m').mp hm').2.1
    · rw [List.mem_append, hmem, hmem₁, hmem₂]
      constructor
      · rintro ⟨hcomes, hafter, hbefore⟩
        by_cases hm : mid < m
        · exact .inr ⟨hcomes, hm, hbefore⟩
        · exact .inl ⟨hcomes, hafter, Instant.not_lt.mp hm⟩
      · rintro (⟨hcomes, hafter, hbefore⟩ | ⟨hcomes, hafter, hbefore⟩)
        · exact ⟨hcomes, hafter, hbefore.trans hle'⟩
        · exact ⟨hcomes, hle.trans_lt hafter, hbefore⟩

/-- A start within a selected minute leaves that minute out, and a selected minute at the end is in.
Between the two, 15:05 is left out, because the event does not come then. -/
theorem occurrences_exact_twice_a_day :
    let e : Event := { hour := .one 15, minute := .ofList [4, 30] }
    let start : Instant := ⟨⟨2006, 12, 31⟩, 15, 4, 5, 500000000⟩
    let stop : Instant := ⟨⟨2007, 1, 1⟩, 15, 4, 0, 0⟩
    (start.IsValid ∧ 0 ≤ start.date.year) ∧
      start.startOfMinute ∉ e.occurrences start stop ∧
      ⟨⟨2006, 12, 31⟩, 15, 30, 0, 0⟩ ∈ e.occurrences start stop ∧
      ⟨⟨2006, 12, 31⟩, 15, 5, 0, 0⟩ ∉ e.occurrences start stop ∧
      stop ∈ e.occurrences start stop := by
  intro e start stop
  have hstart : start.IsValid := by constructor <;> decide
  have hmem := (occurrences_exact (e := e) hstart (by decide) stop).1.2
  refine ⟨⟨hstart, by decide⟩, ?_, ?_, ?_, ?_⟩
  · intro h
    exact absurd ((hmem _).mp h).2.1 (Instant.not_lt.mpr start.startOfMinute_le)
  · refine (hmem _).mpr ⟨⟨⟨by decide, by decide, by decide, rfl, rfl⟩, by decide, by decide⟩, ?_⟩
    rw [Instant.lt_iff, Instant.le_iff]
    exact ⟨by decide, by decide⟩
  · intro h
    exact absurd ((hmem _).mp h).1.selects (by decide)
  · refine (hmem _).mpr ⟨⟨⟨by decide, by decide, by decide, rfl, rfl⟩, by decide, by decide⟩, ?_⟩
    rw [Instant.lt_iff, Instant.le_iff]
    exact ⟨by decide, by decide⟩

end Event

end Timetable
