import Timetable.Proofs.Event
import Timetable.Proofs.Occurrence
import Timetable.Proofs.Selection.Members

/-!
The one instant of an event.

An event whose year, month, day, hour and minute are each restricted to one number
has one instant, if the date is one of the calendar. No other minute is selected by
such an event: every selected instant lies in that minute. But the instant is made
without a look at the weekday. If the event restricts the weekday too, and to other
days than that of the date, the minute of the instant is not selected either, so
the event comes never.
-/

set_option autoImplicit false

namespace Timetable

open Component (lastYear)

open Selection

namespace Selection

variable {d : Domain} {s : Selection d} {n m : Nat}

theorem single?_eq_some_iff : s.single? = some n ↔ s = one n := by
  cases s <;> simp [single?]

/-- A number that was inserted once is the only one taken. -/
theorem admits_one : (one n : Selection d).admits m = true ↔ m = n := by
  simp only [admits, isPopulated, contains, Bool.not_true, Bool.false_or, beq_iff_eq]
  exact eq_comm

/-- A number that was inserted once is one of the domain. -/
theorem Reached.bounds_of_eq_one (hs : s.Reached) (h : s = one n) : d.lo ≤ n ∧ n ≤ d.hi := by
  rw [h] at hs
  exact holds_iff.mp (hs.holds (by simp))

end Selection

namespace Event

variable {e : Event} {d t m : Instant}

/-! ## What the instant is made of -/

/-- The date, the hour and the minute of an instant are the only ones that an event takes, each
inserted once. The weekday has no part in this. -/
structure Names (e : Event) (d : Instant) : Prop where
  date : d.date.isValid = true
  year : ∃ y : Nat, e.year = one y ∧ d.date.year = y
  month : e.month = one d.date.month
  day : e.day = one d.date.day
  hour : e.hour = one d.hour
  minute : e.minute = one d.minute
  second : d.second = 0 ∨ e.second = one d.second

/-- The instant of an event has the numbers that the event names. -/
theorem names_of_instant? (h : e.instant? = some d) : e.Names d := by
  obtain ⟨second, hsecond, hrest⟩ : ∃ second, (second = 0 ∨ e.second = one second) ∧
      (e.year.single?.bind fun y => e.month.single?.bind fun month => e.day.single?.bind fun day =>
        if (⟨y, month, day⟩ : Date).isValid = true then
          e.hour.single?.bind fun hour => e.minute.single?.bind fun minute =>
            some (⟨⟨y, month, day⟩, hour, minute, second, 0⟩ : Instant)
        else none) = some d := by
    unfold instant? at h
    split at h
    · obtain ⟨second, hsecond, hrest⟩ := Option.bind_eq_some_iff.mp h
      exact ⟨second, .inr (single?_eq_some_iff.mp hsecond), hrest⟩
    · exact ⟨0, .inl rfl, h⟩
  simp only [Option.bind_eq_some_iff, single?_eq_some_iff] at hrest
  obtain ⟨y, hyear, month, hmonth, day, hday, hrest⟩ := hrest
  split at hrest
  · next hdate =>
    simp only [Option.bind_eq_some_iff, single?_eq_some_iff, Option.some.injEq] at hrest
    obtain ⟨hour, hhour, minute, hminute, rfl⟩ := hrest
    exact ⟨hdate, ⟨y, hyear, rfl⟩, hmonth, hday, hhour, hminute, hsecond⟩
  · cases hrest

namespace Names

/-- The year of a named instant is one that an event can name. -/
theorem year_bounds (h : e.Names d) (he : e.Reached) :
    Component.firstYear ≤ d.date.year ∧ d.date.year ≤ lastYear := by
  obtain ⟨y, hy, hyear⟩ := h.year
  have hbounds : Component.firstYear ≤ y ∧ y ≤ lastYear := (he .year).bounds_of_eq_one hy
  omega

/-- A named instant is one of the calendar. -/
theorem isValid (h : e.Names d) (he : e.Reached) : d.IsValid := by
  have hyear := h.year_bounds he
  have hhour : d.hour ≤ 23 := ((he .hour).bounds_of_eq_one h.hour).2
  have hminute : d.minute ≤ 59 := ((he .minute).bounds_of_eq_one h.minute).2
  have hsecond : d.second ≤ 59 := by
    rcases h.second with hzero | hone
    · omega
    · exact ((he .second).bounds_of_eq_one hone).2
  simp only [Component.firstYear, lastYear] at hyear
  exact ⟨h.date, by omega, by omega, by omega, by omega, by omega⟩

/-- **What is selected besides.** An instant is selected if and only if it lies in the minute of the
named instant and the event takes the weekday of that date. -/
theorem selects_iff (h : e.Names d) (he : e.Reached) (ht : t.IsValid) :
    e.selects t = true ↔
      t.startOfMinute = d.startOfMinute ∧ e.weekday.admits d.date.weekday = true := by
  obtain ⟨y, hy, hyear⟩ := h.year
  have hbounds := h.year_bounds he
  -- no other year of the calendar counts as the year that is named
  have hsame : t.date.yearNumber = y ↔ t.date.year = d.date.year := by
    have hfirst := ht.firstYear
    have hlast := ht.lastYear
    simp only [Component.firstYear, lastYear] at hbounds
    simp only [Date.yearNumber]
    omega
  have hdate : t.date = d.date ↔
      t.date.year = d.date.year ∧ t.date.month = d.date.month ∧ t.date.day = d.date.day := by
    cases t.date
    cases d.date
    simp
  have hminute : t.startOfMinute = d.startOfMinute ↔
      t.date = d.date ∧ t.hour = d.hour ∧ t.minute = d.minute := by
    simp [Instant.startOfMinute]
  simp only [selects, hy, h.month, h.day, h.hour, h.minute, Bool.and_eq_true, admits_one, hsame]
  rw [hminute, hdate]
  constructor
  · rintro ⟨⟨⟨⟨⟨hyears, hmonths⟩, hdays⟩, hweekday⟩, hhours⟩, hminutes⟩
    rw [hdate.mpr ⟨hyears, hmonths, hdays⟩] at hweekday
    exact ⟨⟨⟨hyears, hmonths, hdays⟩, hhours, hminutes⟩, hweekday⟩
  · rintro ⟨⟨⟨hyears, hmonths, hdays⟩, hhours, hminutes⟩, hweekday⟩
    rw [← hdate.mpr ⟨hyears, hmonths, hdays⟩] at hweekday
    exact ⟨⟨⟨⟨⟨hyears, hmonths⟩, hdays⟩, hweekday⟩, hhours⟩, hminutes⟩

/-- The only minute that can be to come is that of the named instant. -/
theorem mem_comingFrom_iff (h : e.Names d) (he : e.Reached) (ht : t.IsMinute)
    (hfirst : 0 ≤ t.date.year) :
    m ∈ e.comingFrom t ↔
      m = d.startOfMinute ∧ t ≤ m ∧ e.weekday.admits d.date.weekday = true := by
  have hd := h.isValid he
  constructor
  · rintro ⟨hm, hle⟩
    have hyear := ht.year_le_of_le hm.isMinute hle
    have hlast := hm.year
    simp only [lastYear] at hlast
    have hvalid : m.IsValid :=
      ⟨hm.isMinute.date, by omega, by omega, hm.isMinute.hour, hm.isMinute.minute,
        by rw [hm.isMinute.second]; decide⟩
    obtain ⟨hsame, hweekday⟩ := (h.selects_iff he hvalid).mp hm.selects
    rw [hm.isMinute.startOfMinute_eq] at hsame
    exact ⟨hsame, hle, hweekday⟩
  · rintro ⟨rfl, hle, hweekday⟩
    have hselects : e.selects d = true := (h.selects_iff he hd).mpr ⟨rfl, hweekday⟩
    exact ⟨⟨hd.isMinute, (h.year_bounds he).2, hselects⟩, hle⟩

/-- **The search for the named instant.** It ends at its minute, from any instant up to that minute
and within it, if the event takes the weekday of the date; in all other cases it finds nothing. -/
theorem next_eq (h : e.Names d) (he : e.Reached) (ht : t.IsValid) (hfirst : 0 ≤ t.date.year) :
    e.next t =
      if t.startOfMinute ≤ d ∧ e.weekday.admits d.date.weekday = true then some d.startOfMinute
      else none := by
  have hcoming := fun m => h.mem_comingFrom_iff (m := m) he ht.isMinute hfirst
  split
  · next hfound =>
    have hle := ht.isMinute.le_startOfMinute (h.isValid he) hfound.1
    rw [next_eq_some_iff ht hfirst]
    refine ⟨(hcoming _).mpr ⟨rfl, hle, hfound.2⟩, fun m hm => ?_⟩
    rw [((hcoming m).mp hm).1]
  · next hnot =>
    rw [Option.eq_none_iff_forall_ne_some]
    intro m hm
    obtain ⟨rfl, hle, hweekday⟩ := (hcoming m).mp ((next_eq_some_iff ht hfirst).mp hm).1
    exact hnot ⟨hle.trans d.startOfMinute_le, hweekday⟩

end Names

/-! ## The instant of an event -/

/-- **The instant of an event is the one at which it comes, if the weekday agrees.** An event that
has an instant selects it if and only if it takes the weekday of its date. Every instant that it
selects lies in the same minute. And from an instant that is not in a year before 0 the search ends
at that minute if the minute has not passed and the weekday agrees, and finds nothing otherwise:
if the weekday does not agree, the event never comes. -/
theorem instant?_selects_iff (he : e.Reached) (h : e.instant? = some d) :
    (e.selects d = true ↔ e.weekday.admits d.date.weekday = true) ∧
      (∀ t : Instant, t.IsValid → e.selects t = true → t.startOfMinute = d.startOfMinute) ∧
      ∀ t : Instant, t.IsValid → 0 ≤ t.date.year →
        e.next t =
          if t.startOfMinute ≤ d ∧ e.weekday.admits d.date.weekday = true then
            some d.startOfMinute
          else none := by
  have hnames := names_of_instant? h
  refine ⟨?_, fun t ht hselects => ?_, fun t ht hfirst => hnames.next_eq he ht hfirst⟩
  · rw [hnames.selects_iff he (hnames.isValid he)]
    exact and_iff_right rfl
  · exact ((hnames.selects_iff he ht).mp hselects).1

/-- The 4th of March 2020 is a Wednesday. An event for that day, if it is a Monday or a Wednesday,
comes in the minute of its instant, and from the next minute on no more. -/
theorem instant?_selects_iff_wednesday :
    let e : Event :=
      { weekday := .ofList [1, 3], year := one 2020, month := one 3, day := one 4, hour := one 5,
        minute := one 6, second := one 7 }
    let d : Instant := ⟨⟨2020, 3, 4⟩, 5, 6, 7, 0⟩
    (e.Reached ∧ e.instant? = some d) ∧ e.selects d = true ∧
      e.next ⟨⟨2020, 2, 29⟩, 23, 59, 59, 0⟩ = some ⟨⟨2020, 3, 4⟩, 5, 6, 0, 0⟩ ∧
      e.next ⟨⟨2020, 3, 4⟩, 5, 7, 0, 0⟩ = none := by
  intro e d
  have he : e.Reached := by
    intro c
    cases c with
    | weekday => exact reached_ofList [1, 3]
    | _ => exact reached_one (by decide) (by decide)
  have hd : e.instant? = some d := by decide
  obtain ⟨hselects, -, hnext⟩ := instant?_selects_iff he hd
  refine ⟨⟨he, hd⟩, hselects.mpr (by decide), ?_, ?_⟩
  · rw [hnext ⟨⟨2020, 2, 29⟩, 23, 59, 59, 0⟩ (by constructor <;> decide) (by decide)]
    decide
  · rw [hnext ⟨⟨2020, 3, 4⟩, 5, 7, 0, 0⟩ (by constructor <;> decide) (by decide)]
    decide

/-- The same day as a Tuesday has the same instant, and the event never comes. -/
theorem instant?_tuesday :
    let e : Event :=
      { weekday := one 2, year := one 2020, month := one 3, day := one 4, hour := one 5,
        minute := one 6, second := one 7 }
    let d : Instant := ⟨⟨2020, 3, 4⟩, 5, 6, 7, 0⟩
    e.Reached ∧ e.instant? = some d ∧ d.IsValid ∧ ¬ e.selects d = true := by
  intro e d
  refine ⟨fun c => ?_, by decide, ?_, by decide⟩
  · cases c with
    | _ => exact reached_one (by decide) (by decide)
  · constructor <;> decide

end Event

end Timetable
