import Timetable.Event.Basic
import Timetable.Instant

/-!
When an event comes.

An event selects whole minutes: seconds have no part in it. The next minute that
it selects is found by a search that looks at the units of time from the year
down. Where a unit is not selected, nothing within it is, so the search goes on
at the start of the next such unit; where all are, the minute is found. The
occurrences of an interval are found one after another, each by a search that
starts in the minute behind the one before.

The definitions follow `matches`, `next`, `occurrences_between` and
`as_datetime` of an `Event`.
-/

set_option autoImplicit false

namespace Timetable

namespace Event

/-! ## Selected minutes -/

/-- Whether an event selects the minute of an instant. -/
def selects (e : Event) (t : Instant) : Bool :=
  e.year.admits t.date.yearNumber && e.month.admits t.date.month && e.day.admits t.date.day &&
    e.weekday.admits t.date.weekday && e.hour.admits t.hour && e.minute.admits t.minute

/-- Where a search goes on behind a minute: at the start of the next one of the first unit that is
not selected. It does not go on if the minute is selected. -/
def skip? (e : Event) (t : Instant) : Option Instant :=
  if !e.year.admits t.date.yearNumber then some t.nextYear
  else if !e.month.admits t.date.month then some t.nextMonth
  -- day and weekday must both be selected, so a day is skipped if one of them is not
  else if !e.day.admits t.date.day || !e.weekday.admits t.date.weekday then some t.nextDay
  else if !e.hour.admits t.hour then some t.nextHour
  else if !e.minute.admits t.minute then some t.nextMinute
  else none

/-- Nothing is skipped exactly at a selected minute. -/
theorem skip?_eq_none_iff {e : Event} {t : Instant} : e.skip? t = none ↔ e.selects t = true := by
  simp only [skip?, selects]
  cases e.year.admits t.date.yearNumber <;> cases e.month.admits t.date.month <;>
    cases e.day.admits t.date.day <;> cases e.weekday.admits t.date.weekday <;>
    cases e.hour.admits t.hour <;> cases e.minute.admits t.minute <;> simp

/-- What a step of a search can be: the start of the next one of a unit that is not selected. -/
inductive Skips (e : Event) (t : Instant) : Instant → Prop where
  | year : e.year.admits t.date.yearNumber = false → Skips e t t.nextYear
  | month : e.month.admits t.date.month = false → Skips e t t.nextMonth
  | day : (e.day.admits t.date.day && e.weekday.admits t.date.weekday) = false →
      Skips e t t.nextDay
  | hour : e.hour.admits t.hour = false → Skips e t t.nextHour
  | minute : e.minute.admits t.minute = false → Skips e t t.nextMinute

/-- What is skipped is a unit that the event does not select. -/
theorem skips_of_skip? {e : Event} {t t' : Instant} (h : e.skip? t = some t') :
    e.Skips t t' := by
  -- the units are looked at from the year down, and the first one that is not selected is skipped
  simp only [skip?] at h
  split at h
  · next hyear => exact Option.some.inj h ▸ .year (by simpa using hyear)
  · split at h
    · next hmonth => exact Option.some.inj h ▸ .month (by simpa using hmonth)
    · split at h
      · next hday =>
        refine Option.some.inj h ▸ .day ?_
        rwa [← Bool.not_and, Bool.not_eq_true'] at hday
      · split at h
        · next hhour => exact Option.some.inj h ▸ .hour (by simpa using hhour)
        · split at h
          · next hminute => exact Option.some.inj h ▸ .minute (by simpa using hminute)
          · cases h

/-! ## How far a search can go

Every step of a search leaves less room in the calendar: it counts up one of the
units and leaves the greater ones alone. -/

/-- A bound on the minutes from an instant to the end of the last year, each month taken for 32
days and each year for 13 months. -/
def room (t : Instant) : Nat :=
  let months := (Component.lastYear + 1 - t.date.yearNumber) * 13 + (12 - t.date.month)
  let days := months * 32 + (daysInMonth t.date.year t.date.month - t.date.day)
  let hours := days * 24 + (23 - t.hour)
  hours * 60 + (59 - t.minute)

section Room

variable {t : Instant}

/-- Every step leaves less room up to the last year, which is why the search ends: a step over a
year, -/
theorem room_nextYear_lt (h : t.date.yearNumber ≤ Component.lastYear) :
    room t.nextYear < room t := by
  have hyear : t.nextYear.date.yearNumber = t.date.yearNumber + 1 := by
    simp only [Date.yearNumber, Component.lastYear, Instant.nextYear, Instant.midnight] at h ⊢
    omega
  simp only [room, hyear]
  simp only [Instant.nextYear, Instant.midnight, daysInMonth]
  omega

/-- over a month, -/
theorem room_nextMonth_lt (h : t.date.yearNumber ≤ Component.lastYear) :
    room t.nextMonth < room t := by
  rw [Instant.nextMonth]
  split
  · have hdays := daysInMonth_le t.date.year (t.date.month + 1)
    simp only [room, Instant.midnight, Date.yearNumber]
    omega
  · exact room_nextYear_lt h

/-- over a day, -/
theorem room_nextDay_lt (h : t.date.yearNumber ≤ Component.lastYear) :
    room t.nextDay < room t := by
  by_cases hday : t.date.day < daysInMonth t.date.year t.date.month
  · rw [Instant.nextDay, Date.next, if_pos hday]
    simp only [room, Instant.midnight, Date.yearNumber]
    omega
  · exact Instant.nextDay_eq_nextMonth hday ▸ room_nextMonth_lt h

/-- over an hour, -/
theorem room_nextHour_lt (h : t.date.yearNumber ≤ Component.lastYear) :
    room t.nextHour < room t := by
  rw [Instant.nextHour]
  split
  · simp only [room]
    omega
  · exact room_nextDay_lt h

/-- and over a minute. -/
theorem room_nextMinute_lt (h : t.date.yearNumber ≤ Component.lastYear) :
    room t.nextMinute < room t := by
  rw [Instant.nextMinute]
  split
  · simp only [room]
    omega
  · exact room_nextHour_lt h

/-- **A step of a search leaves less room.** -/
theorem room_lt_of_skip? {e : Event} {t' : Instant} (h : t.date.yearNumber ≤ Component.lastYear)
    (hskip : e.skip? t = some t') : room t' < room t := by
  cases skips_of_skip? hskip with
  | year => exact room_nextYear_lt h
  | month => exact room_nextMonth_lt h
  | day => exact room_nextDay_lt h
  | hour => exact room_nextHour_lt h
  | minute => exact room_nextMinute_lt h

end Room

/-! ## The next occurrence -/

/-- The first selected minute from the start of a minute on. There is none when the search passes
the last year of an event, and none is looked for from a year before 0. -/
def search (e : Event) (t : Instant) : Option Instant :=
  -- a negative year counts as a very late one here
  if _ : Component.lastYear < t.date.yearNumber then none
  else
    match _ : e.skip? t with
    | some t' => e.search t'
    | none => some t
termination_by room t
decreasing_by exact room_lt_of_skip? (by omega) (by assumption)

/-- The first selected minute at or after the minute of an instant. -/
def next (e : Event) (t : Instant) : Option Instant :=
  e.search t.startOfMinute

/-- What a search finds has no more room than where it starts, and is within the calendar. -/
theorem room_le_of_search {e : Event} {t t' : Instant} (h : e.search t = some t') :
    room t' ≤ room t ∧ t'.date.yearNumber ≤ Component.lastYear := by
  fun_induction search e t with
  | case1 t hlast => cases h
  | case2 t hlast t₁ hskip ih =>
    have hroom := room_lt_of_skip? (by omega) hskip
    have hfound := ih h
    exact ⟨by omega, hfound.2⟩
  | case3 t hlast hskip =>
    obtain rfl := Option.some.inj h
    exact ⟨Nat.le_refl _, by omega⟩

/-- So does going on behind an occurrence. -/
theorem room_nextMinute_lt_of_next {e : Event} {t t' : Instant} (h : e.next t = some t') :
    room t'.nextMinute < room t := by
  have hfound := room_le_of_search h
  have hstart : room t.startOfMinute = room t := rfl
  have hminute := room_nextMinute_lt hfound.2
  omega

/-! ## The occurrences of an interval -/

/-- Adds to `found`, the last in front, the selected minutes from the minute of `cursor` on that
are after `start` and not after `stop`, and gives them all in order. -/
def collect (e : Event) (start stop : Instant) (found : List Instant) (cursor : Instant) :
    List Instant :=
  match _ : e.next cursor with
  | none => found.reverse
  | some t =>
    -- `stop` itself can be an occurrence, `start` cannot
    if stop.isBefore t then found.reverse
    else collect e start stop (if start.isBefore t then t :: found else found) t.nextMinute
termination_by room cursor
decreasing_by exact room_nextMinute_lt_of_next (by assumption)

/-- The selected minutes after `start` and not after `stop`, in order. -/
def occurrences (e : Event) (start stop : Instant) : List Instant :=
  collect e start stop [] start

/-! ## The one instant of an event -/

/-- The instant of an event whose components are all restricted to one number inserted once. A
free second counts as 0. -/
def instant? (e : Event) : Option Instant := do
  let second ← if e.second.isPopulated then e.second.single? else some 0
  let date : Date := ⟨← e.year.single?, ← e.month.single?, ← e.day.single?⟩
  if date.isValid then
    return ⟨date, ← e.hour.single?, ← e.minute.single?, second, 0⟩
  else none

end Event

end Timetable
