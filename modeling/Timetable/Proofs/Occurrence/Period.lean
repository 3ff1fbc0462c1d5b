import Timetable.Proofs.Event
import Timetable.Proofs.Instant.DaysLater
import Timetable.Proofs.Occurrence
import Timetable.Proofs.Selection.Members

/-!
Events that come every day or every week.

A daily event leaves the whole date free, and a weekly one all of the date but the
weekday. So what a daily event selects is the same a day later, and what a weekly
event selects is the same a week later. The minutes to come from a later start are
therefore the minutes to come from the start, moved on by as many days, as far as
they stay within the years of an event. The search takes other steps from the later
start, over the ends of other months and years, but it ends at the least of these
minutes, and so one day or one week later. Within one day or one week every such
event comes.
-/

set_option autoImplicit false

namespace Timetable

open Component (lastYear)

open Selection

namespace Event

variable {e : Event} {p : Nat} {t m : Instant} {d : Date}

/-- An event that comes every so many days: a daily event every day, and a weekly one every seven
days. -/
inductive ComesEvery (e : Event) : Nat → Prop where
  | day : e.isDaily = true → ComesEvery e 1
  | week : e.isWeekly = true → ComesEvery e 7

/-- What an event selects whose date is free. -/
theorem selects_of_isDateFree (h : e.isDateFree = true) :
    e.selects t =
      (e.weekday.admits t.date.weekday && e.hour.admits t.hour && e.minute.admits t.minute) := by
  simp only [isDateFree, Bool.and_eq_true, Bool.not_eq_true'] at h
  obtain ⟨⟨hyear, hmonth⟩, hday⟩ := h
  simp only [selects, admits_of_free hyear, admits_of_free hmonth, admits_of_free hday,
    Bool.true_and]

/-- A daily event leaves the weekday free. -/
theorem isPopulated_weekday_of_isDaily (h : e.isDaily = true) : e.weekday.isPopulated = false := by
  simpa using (Bool.and_eq_true_iff.mp h).1

namespace ComesEvery

theorem isDateFree (h : e.ComesEvery p) : e.isDateFree = true := by
  cases h with
  | day h => exact (Bool.and_eq_true_iff.mp h).2
  | week h => exact (Bool.and_eq_true_iff.mp h).2

/-- The weekday is as good after the period as before. -/
theorem admits_later (h : e.ComesEvery p) (hd : d.isValid = true) :
    e.weekday.admits (Date.next^[p] d).weekday = e.weekday.admits d.weekday := by
  cases h with
  | day h =>
    have hfree := isPopulated_weekday_of_isDaily h
    rw [admits_of_free hfree, admits_of_free hfree]
  | week _ => rw [Date.weekday_week_later hd]

/-- **What is selected is the same after the period.** -/
theorem selects_daysLater (h : e.ComesEvery p) (ht : t.date.isValid = true) :
    e.selects (t.daysLater p) = e.selects t := by
  rw [selects_of_isDateFree h.isDateFree, selects_of_isDateFree h.isDateFree]
  show (e.weekday.admits (Date.next^[p] t.date).weekday && e.hour.admits t.hour &&
    e.minute.admits t.minute) = _
  rw [h.admits_later ht]

/-! ## A minute within the period -/

/-- Within the period there is a day whose weekday is taken. -/
theorem exists_admits (h : e.ComesEvery p) (he : e.Reached) (hd : d.isValid = true) :
    ∃ n < p, e.weekday.admits (Date.next^[n] d).weekday = true := by
  obtain ⟨w, hw, hadmits⟩ := (he .weekday).exists_admits (by decide)
  cases h with
  | day h => exact ⟨0, Nat.one_pos, admits_of_free (isPopulated_weekday_of_isDaily h) _⟩
  | week _ =>
    obtain ⟨hfirst, hlast⟩ := holds_iff.mp hw
    obtain ⟨n, hn, hweekday⟩ := Date.exists_weekday_iterate_next hd hfirst hlast
    exact ⟨n, hn, hweekday ▸ hadmits⟩

/-- **Within the period a minute is selected.** On a day whose weekday is taken there is a selected
minute; if it has passed already, it comes again after the period. -/
theorem exists_selected (h : e.ComesEvery p) (he : e.Reached) (ht : t.IsMinute) :
    ∃ m : Instant, m.IsMinute ∧ e.selects m = true ∧ t ≤ m ∧ m < t.daysLater p := by
  obtain ⟨n, hn, hweekday⟩ := h.exists_admits he ht.date
  obtain ⟨hour, hhour, hhourIn⟩ := (he .hour).exists_admits (by decide)
  obtain ⟨minute, hminute, hminuteIn⟩ := (he .minute).exists_admits (by decide)
  -- the time of day may be before that of the start, so the minute is right only up to one period
  let m : Instant := ⟨Date.next^[n] t.date, hour, minute, 0, 0⟩
  have hm : m.IsMinute :=
    ⟨Date.isValid_iterate_next ht.date n, Nat.lt_succ_of_le (holds_iff.mp hhour).2,
      Nat.lt_succ_of_le (holds_iff.mp hminute).2, rfl, rfl⟩
  have hselects : e.selects m = true := by
    rw [selects_of_isDateFree h.isDateFree]
    simp only [Bool.and_eq_true]
    exact ⟨⟨hweekday, hhourIn⟩, hminuteIn⟩
  have hday : m.date.number = t.date.number + n := Date.number_iterate_next ht.date n
  have hlater : (t.daysLater p).date.number = t.date.number + p :=
    Date.number_iterate_next ht.date p
  -- if it is too early, it comes again a period later
  by_cases hle : t ≤ m
  · refine ⟨m, hm, hselects, hle, ?_⟩
    rw [hm.lt_iff (ht.daysLater p)]
    omega
  · refine ⟨m.daysLater p, hm.daysLater p, ?_, ?_, ?_⟩
    · rw [h.selects_daysLater hm.date, hselects]
    · have hday' : (m.daysLater p).date.number = m.date.number + p :=
        Date.number_iterate_next hm.date p
      rw [← Instant.not_lt, (hm.daysLater p).lt_iff ht]
      omega
    · by_contra hnot
      exact hle ((Instant.daysLater_le_iff ht.date hm.date p).mp (Instant.not_lt.mp hnot))

/-! ## What is to come after the period -/

/-- **The minutes to come after the period** are the minutes to come, moved on. -/
theorem daysLater_mem_comingFrom_iff (h : e.ComesEvery p) (ht : t.date.isValid = true)
    (hm : m.date.isValid = true) :
    m.daysLater p ∈ e.comingFrom (t.daysLater p) ↔
      m ∈ e.comingFrom t ∧ (m.daysLater p).date.year ≤ lastYear := by
  have hselects := h.selects_daysLater hm
  have hle := Instant.daysLater_le_iff ht hm p
  constructor
  · rintro ⟨⟨hminute, hyear, hcomes⟩, hafter⟩
    have hm' : m.IsMinute :=
      ⟨hm, hminute.hour, hminute.minute, hminute.second, hminute.nanosecond⟩
    have hforth := hm'.year_le_of_le hminute (Instant.le_daysLater hm p)
    exact ⟨⟨⟨hm', hforth.trans hyear, hselects ▸ hcomes⟩, hle.mp hafter⟩, hyear⟩
  · rintro ⟨⟨hcomes, hafter⟩, hyear⟩
    exact ⟨⟨hcomes.isMinute.daysLater p, hyear, hselects.trans hcomes.selects⟩, hle.mpr hafter⟩

/-- The first minute to come after the period is the first minute to come, moved on. -/
theorem isLeast_daysLater_iff (h : e.ComesEvery p) (ht : t.IsMinute)
    (hm : m.date.isValid = true) :
    IsLeast (e.comingFrom (t.daysLater p)) (m.daysLater p) ↔
      IsLeast (e.comingFrom t) m ∧ (m.daysLater p).date.year ≤ lastYear := by
  constructor
  · rintro ⟨hmem, hleast⟩
    obtain ⟨hcoming, hyear⟩ := (h.daysLater_mem_comingFrom_iff ht.date hm).mp hmem
    refine ⟨⟨hcoming, fun m' hm' => ?_⟩, hyear⟩
    have hdate' := hm'.1.isMinute.date
    rw [← Instant.daysLater_le_iff hm hdate' p]
    by_cases hyear' : (m'.daysLater p).date.year ≤ lastYear
    · exact hleast ((h.daysLater_mem_comingFrom_iff ht.date hdate').mpr ⟨hm', hyear'⟩)
    -- moved on, it is in a later year than the least one
    · rw [← Instant.not_lt]
      intro hlt
      have hback :=
        (hm'.1.isMinute.daysLater p).year_le_of_le (hcoming.1.isMinute.daysLater p) hlt.le
      exact hyear' (hback.trans hyear)
  · rintro ⟨⟨hcoming, hleast⟩, hyear⟩
    refine ⟨(h.daysLater_mem_comingFrom_iff ht.date hm).mpr ⟨hcoming, hyear⟩, fun m' hm' => ?_⟩
    obtain ⟨m₀, hm₀, rfl⟩ := hm'.1.isMinute.exists_daysLater_eq p
    have hcoming₀ := ((h.daysLater_mem_comingFrom_iff ht.date hm₀.date).mp hm').1
    exact (Instant.daysLater_le_iff hm hm₀.date p).mpr (hleast hcoming₀)

end ComesEvery

/-- **Daily and weekly events are periodic.** Let a period be a day for a daily event and a week for
a weekly one, and take any instant that is not in a year before 0, such that a period later is in a
year that an event can name. The event selects both instants or none. It comes within the period,
and the next occurrence from a period later on is a period later, as long as that is in a year that
an event can name. -/
theorem next_daysLater_iff (he : e.Reached) (h : e.ComesEvery p) (ht : t.IsValid)
    (hfirst : 0 ≤ t.date.year) (hlast : (t.daysLater p).date.year ≤ lastYear) :
    e.selects (t.daysLater p) = e.selects t ∧
      (∃ m, e.next t = some m ∧ m < t.startOfMinute.daysLater p) ∧
      ∀ m : Instant, m.date.isValid = true →
        (e.next (t.daysLater p) = some (m.daysLater p) ↔
          e.next t = some m ∧ (m.daysLater p).date.year ≤ lastYear) := by
  have hlater := ht.isMinute.daysLater p
  have hforth := ht.isMinute.year_le_of_le hlater (Instant.le_daysLater ht.isMinute.date p)
  have hyears : t.date.year ≤ (t.daysLater p).date.year := hforth
  have hlast' := hlast
  simp only [lastYear] at hlast'
  have ht' : (t.daysLater p).IsValid :=
    ⟨hlater.date, by omega, by omega, ht.hour, ht.minute, ht.second⟩
  refine ⟨h.selects_daysLater ht.date, ?_, fun m hm => ?_⟩
  · obtain ⟨m, hm, hselects, hle, hlt⟩ := h.exists_selected he ht.isMinute
    have hyear : m.date.year ≤ lastYear := (hm.year_le_of_le hlater hlt.le).trans hlast
    obtain ⟨m', hnext, hbefore⟩ := exists_next_of_mem ht hfirst ⟨⟨hm, hyear, hselects⟩, hle⟩
    exact ⟨m', hnext, hbefore.trans_lt hlt⟩
  · rw [next_eq_some_iff ht' (hfirst.trans hyears), next_eq_some_iff ht hfirst,
      Instant.startOfMinute_daysLater]
    exact h.isLeast_daysLater_iff ht.isMinute hm

/-- The weekend after a Wednesday at the end of February, and the one after the Wednesday a week
later. -/
theorem next_daysLater_iff_weekend :
    let e : Event := { weekday := .ofList [6, 7], hour := one 0, minute := one 30 }
    let t : Instant := ⟨⟨2024, 2, 28⟩, 12, 0, 30, 0⟩
    let m : Instant := ⟨⟨2024, 3, 2⟩, 0, 30, 0, 0⟩
    (e.Reached ∧ e.ComesEvery 7 ∧ t.IsValid ∧ 0 ≤ t.date.year ∧
        (t.daysLater 7).date.year ≤ lastYear) ∧
      m.date.isValid = true ∧ e.next t = some m ∧
      m.daysLater 7 = ⟨⟨2024, 3, 9⟩, 0, 30, 0, 0⟩ ∧
      e.next (t.daysLater 7) = some (m.daysLater 7) := by
  intro e t m
  have he : e.Reached := by
    intro c
    cases c with
    | weekday => exact reached_ofList [6, 7]
    | hour => exact reached_one (by decide) (by decide)
    | minute => exact reached_one (by decide) (by decide)
    | _ => exact .any
  have hweek : e.ComesEvery 7 := .week (by decide)
  have ht : t.IsValid := by constructor <;> decide
  have hm : e.next t = some m := by decide +kernel
  have hiff := (next_daysLater_iff he hweek ht (by decide) (by decide)).2.2 m (by decide)
  exact ⟨⟨he, hweek, ht, by decide, by decide⟩, by decide, hm, by decide,
    hiff.mpr ⟨hm, by decide⟩⟩

end Event

end Timetable
