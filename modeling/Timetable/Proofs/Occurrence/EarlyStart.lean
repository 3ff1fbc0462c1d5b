import Timetable.Proofs.Event
import Timetable.Proofs.Occurrence

/-!
Starts before year 0.

A search compares the year with the last year of an event as an unsigned number,
and there the years before 0 come out beyond every year of an event. So a search
that starts in such a year ends where it starts, however many minutes the event
comes at later on. From year 0 on a start hides nothing: whatever minute is
selected later, the search ends at it or before it.
-/

set_option autoImplicit false

namespace Timetable

open Component (lastYear)

namespace Event

variable {e : Event} {start t : Instant}

/-! ## Before year 0 -/

/-- As an unsigned number a year before 0 is greater than the last year of an event. -/
theorem lastYear_lt_yearNumber {d : Date} (hfirst : -262143 ≤ d.year) (hneg : d.year < 0) :
    lastYear < d.yearNumber := by
  -- the years of an instant are few enough not to come round to those of an event
  simp only [Date.yearNumber, lastYear]
  omega

/-- A search from a year before 0 finds nothing. -/
theorem next_of_year_neg (hstart : start.IsValid) (hneg : start.date.year < 0) :
    e.next start = none := by
  have hbeyond : lastYear < start.startOfMinute.date.yearNumber :=
    lastYear_lt_yearNumber hstart.firstYear hneg
  rw [next, search, dif_pos hbeyond]

/-- No occurrences are listed from a year before 0 on. -/
theorem occurrences_of_year_neg (hstart : start.IsValid) (hneg : start.date.year < 0)
    (stop : Instant) : e.occurrences start stop = [] := by
  have hnone : e.next start = none := next_of_year_neg hstart hneg
  rw [occurrences, collect]
  split
  · rfl
  · next hnext =>
    rw [hnone] at hnext
    cases hnext

/-! ## From year 0 on -/

/-- The minute of a selected instant is to come for every start up to the instant. -/
theorem startOfMinute_mem_comingFrom (hstart : start.IsValid) (ht : t.IsValid)
    (hyear : t.date.year ≤ lastYear) (hselects : e.selects t = true) (hle : start ≤ t) :
    t.startOfMinute ∈ e.comingFrom start.startOfMinute := by
  have hcomes : e.ComesAt t.startOfMinute := ⟨ht.isMinute, hyear, hselects⟩
  exact ⟨hcomes, hstart.isMinute.le_startOfMinute ht (start.startOfMinute_le.trans hle)⟩

/-- An instant comes up among the occurrences only as the start of a minute. -/
theorem comesAt_iff (ht : t.IsValid) (hyear : t.date.year ≤ lastYear)
    (hselects : e.selects t = true) : e.ComesAt t ↔ t.startOfMinute = t := by
  constructor
  · exact fun h => h.isMinute.startOfMinute_eq
  · intro h
    exact ⟨h ▸ ht.isMinute, hyear, hselects⟩

/-- **A start from year 0 on hides nothing, and a start before year 0 hides everything.** Take any
start and any later instant, or the start itself, whose minute is selected in a year that an event
can name. The search gives a minute up to that instant if and only if the start is not in a year
before 0; and an interval around that instant lists it if and only if, besides, it is the start of
its minute. From a year before 0 nothing is found at all and nothing listed. -/
theorem early_start_iff (hstart : start.IsValid) (ht : t.IsValid)
    (hyear : t.date.year ≤ lastYear) (hselects : e.selects t = true) (hle : start ≤ t) :
    ((∃ m, e.next start = some m ∧ m ≤ t) ↔ 0 ≤ start.date.year) ∧
      (∀ stop, start < t → t ≤ stop →
        (t ∈ e.occurrences start stop ↔ 0 ≤ start.date.year ∧ t.startOfMinute = t)) ∧
      (start.date.year < 0 → e.next start = none ∧ ∀ stop, e.occurrences start stop = []) := by
  have hhidden : start.date.year < 0 →
      e.next start = none ∧ ∀ stop, e.occurrences start stop = [] :=
    fun hneg => ⟨next_of_year_neg hstart hneg, occurrences_of_year_neg hstart hneg⟩
  refine ⟨⟨?_, fun hfirst => ?_⟩, fun stop hafter hstop => ?_, hhidden⟩
  -- before year 0 nothing is found
  · rintro ⟨m, hm, -⟩
    by_contra hneg
    rw [(hhidden (by omega)).1] at hm
    cases hm
  -- from year 0 on the selected minute is still to come, so the least one is found
  · have hcoming := startOfMinute_mem_comingFrom hstart ht hyear hselects hle
    obtain ⟨m, hm, hbefore⟩ := exists_next_of_mem hstart hfirst hcoming
    exact ⟨m, hm, hbefore.trans t.startOfMinute_le⟩
  · by_cases hfirst : 0 ≤ start.date.year
    -- the list has whole minutes, and so the instant only if it is one
    · rw [(mem_occurrences_iff hstart hfirst stop).2, comesAt_iff ht hyear hselects]
      simp only [hfirst, hafter, hstop, and_true, true_and]
    · rw [(hhidden (by omega)).2]
      simp only [List.not_mem_nil, hfirst, false_and]

/-- From the first minute of year 0 the search gets to a minute of 2024, which is the last one of
the interval. -/
theorem early_start_iff_zero :
    let e : Event := { year := .one 2024, month := .one 2, day := .one 29 }
    let start : Instant := ⟨⟨0, 1, 1⟩, 0, 0, 0, 0⟩
    let t : Instant := ⟨⟨2024, 2, 29⟩, 23, 59, 0, 0⟩
    (start.IsValid ∧ t.IsValid ∧ t.date.year ≤ lastYear ∧ e.selects t = true ∧ start ≤ t) ∧
      (∃ m, e.next start = some m ∧ m ≤ t) ∧ t ∈ e.occurrences start t := by
  intro e start t
  have hstart : start.IsValid := by constructor <;> decide
  have ht : t.IsValid := by constructor <;> decide
  have hlt : start < t := by
    rw [Instant.lt_iff]
    decide
  have hall := early_start_iff (e := e) hstart ht (by decide) (by decide) hlt.le
  refine ⟨⟨hstart, ht, by decide, by decide, hlt.le⟩, ?_, ?_⟩
  · exact hall.1.mpr (by decide)
  · exact (hall.2.1 t hlt (le_refl t)).mpr ⟨by decide, rfl⟩

/-- A minute before year 0 the search for a day of 2024 gives none, and the interval up to that day
lists nothing. -/
theorem early_start_hidden :
    let e : Event :=
      { year := .one 2024, month := .one 1, day := .one 1, hour := .one 0, minute := .one 0,
        second := .one 0 }
    let start : Instant := ⟨⟨-1, 12, 31⟩, 23, 59, 0, 0⟩
    let t : Instant := ⟨⟨2024, 1, 1⟩, 0, 0, 0, 0⟩
    (e.Reached ∧ start.IsValid ∧ t.IsMinute ∧ t.date.year ≤ lastYear ∧ e.selects t = true ∧
        start < t) ∧
      ¬ (∃ m, e.next start = some m ∧ m ≤ t) ∧ t ∉ e.occurrences start t := by
  intro e start t
  have he : e.Reached := by
    intro c
    cases c with
    | weekday => exact .any
    | _ => exact Selection.reached_one (by decide) (by decide)
  have hstart : start.IsValid := by constructor <;> decide
  have ht : t.IsMinute := ⟨by decide, by decide, by decide, rfl, rfl⟩
  have hlt : start < t := by
    rw [Instant.lt_iff]
    decide
  refine ⟨⟨he, hstart, ht, by decide, by decide, hlt⟩, ?_, ?_⟩
  · rintro ⟨m, hm, -⟩
    rw [next_of_year_neg hstart (by decide)] at hm
    cases hm
  · rw [occurrences_of_year_neg hstart (by decide)]
    exact List.not_mem_nil

end Event

end Timetable
