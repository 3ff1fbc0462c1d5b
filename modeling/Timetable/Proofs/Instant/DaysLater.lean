import Mathlib.Logic.Function.Iterate
import Timetable.Proofs.Instant

/-!
Days later.

Going on from a day to the next one, some number of times, adds that number to the
number of the day. Every day of the calendar is reached in this way from another
day, and after seven days the days of the week begin again. An instant some days
later has the same time of day, so the order of two instants stays when both go on
by the same number of days.
-/

set_option autoImplicit false

namespace Timetable

/-! ## Days -/

namespace Date

variable {d : Date}

/-- Every day of the calendar is the next one of a day. -/
theorem exists_next_eq (hd : d.isValid = true) : ∃ d' : Date, d'.isValid = true ∧ d'.next = d := by
  obtain ⟨y, month, day⟩ := d
  rw [isValid_iff] at hd
  simp only at hd
  by_cases hday : day = 1
  · by_cases hmonth : month = 1
    -- the last day of the year before
    · refine ⟨⟨y - 1, 12, 31⟩, rfl, ?_⟩
      show (⟨y - 1 + 1, 1, 1⟩ : Date) = ⟨y, month, day⟩
      rw [Int.sub_add_cancel, hmonth, hday]
    -- the last day of the month before
    · have hlast := one_le_daysInMonth y (by omega : 1 ≤ month - 1) (by omega)
      refine ⟨⟨y, month - 1, daysInMonth y (month - 1)⟩, isValid_iff.mpr ?_, ?_⟩
      · simp only
        omega
      · rw [next, if_neg (Nat.lt_irrefl _), if_pos (by simp only; omega)]
        simp only [mk.injEq, true_and]
        omega
  · refine ⟨⟨y, month, day - 1⟩, isValid_iff.mpr ?_, ?_⟩
    · simp only
      omega
    · rw [next, if_pos (by simp only; omega)]
      simp only [mk.injEq, true_and]
      omega

/-- A day of the calendar is followed by days of the calendar. -/
theorem isValid_iterate_next (hd : d.isValid = true) (n : Nat) : (next^[n] d).isValid = true := by
  induction n with
  | zero => exact hd
  | succ n ih =>
    rw [Function.iterate_succ_apply']
    exact isValid_next ih

/-- **The number of a later day.** -/
theorem number_iterate_next (hd : d.isValid = true) (n : Nat) :
    (next^[n] d).number = d.number + n := by
  induction n with
  | zero => exact (Int.add_zero d.number).symm
  | succ n ih =>
    rw [Function.iterate_succ_apply', number_next (isValid_iterate_next hd n), ih]
    omega

/-- Every day is any number of days later than some day. -/
theorem exists_iterate_next_eq (hd : d.isValid = true) (n : Nat) :
    ∃ d' : Date, d'.isValid = true ∧ next^[n] d' = d := by
  induction n with
  | zero => exact ⟨d, hd, rfl⟩
  | succ n ih =>
    obtain ⟨d₁, hd₁, rfl⟩ := ih
    obtain ⟨d', hd', rfl⟩ := exists_next_eq hd₁
    exact ⟨d', hd', Function.iterate_succ_apply next n d'⟩

/-- After a week the days of the week begin again. -/
theorem weekday_week_later (hd : d.isValid = true) : (next^[7] d).weekday = d.weekday := by
  rw [weekday, weekday, number_iterate_next hd]
  omega

/-- Every day of the week comes within a week. -/
theorem exists_weekday_iterate_next (hd : d.isValid = true) {w : Nat} (hw : 1 ≤ w) (hw' : w ≤ 7) :
    ∃ n < 7, (next^[n] d).weekday = w := by
  refine ⟨((w - d.number) % 7).toNat, by omega, ?_⟩
  rw [weekday, number_iterate_next hd]
  omega

end Date

/-! ## Instants -/

namespace Instant

variable {t m : Instant}

/-- The same time of day, a number of days later. -/
def daysLater (t : Instant) (n : Nat) : Instant :=
  { t with date := Date.next^[n] t.date }

/-- The time of day stays, so the start of the minute is that of the later day. -/
theorem startOfMinute_daysLater (t : Instant) (n : Nat) :
    (t.daysLater n).startOfMinute = t.startOfMinute.daysLater n := rfl

/-- A day has 86400 seconds. -/
theorem seconds_daysLater (ht : t.date.isValid = true) (n : Nat) :
    (t.daysLater n).seconds = t.seconds + n * 86400 := by
  have hnumber : (t.daysLater n).date.number = t.date.number + n :=
    Date.number_iterate_next ht n
  have htime : (t.daysLater n).minuteOfDay = t.minuteOfDay := rfl
  have hsecond : (t.daysLater n).second = t.second := rfl
  rw [seconds, seconds, hnumber, htime, hsecond]
  omega

/-- **The order stays the same some days later.** -/
theorem daysLater_le_iff (ht : t.date.isValid = true) (hm : m.date.isValid = true) (n : Nat) :
    t.daysLater n ≤ m.daysLater n ↔ t ≤ m := by
  rw [le_iff, le_iff, seconds_daysLater ht, seconds_daysLater hm]
  have hnanosecond : (t.daysLater n).nanosecond = t.nanosecond := rfl
  have hnanosecond' : (m.daysLater n).nanosecond = m.nanosecond := rfl
  omega

/-- Some days later is not earlier. -/
theorem le_daysLater (ht : t.date.isValid = true) (n : Nat) : t ≤ t.daysLater n := by
  have hseconds := seconds_daysLater ht n
  have hnanosecond : (t.daysLater n).nanosecond = t.nanosecond := rfl
  rw [le_iff]
  omega

namespace IsMinute

theorem daysLater (ht : t.IsMinute) (n : Nat) : (t.daysLater n).IsMinute :=
  ⟨Date.isValid_iterate_next ht.date n, ht.hour, ht.minute, ht.second, ht.nanosecond⟩

/-- Every minute is any number of days later than some minute. -/
theorem exists_daysLater_eq (ht : t.IsMinute) (n : Nat) :
    ∃ m : Instant, m.IsMinute ∧ m.daysLater n = t := by
  obtain ⟨d, hd, hdate⟩ := Date.exists_iterate_next_eq ht.date n
  refine ⟨{ t with date := d }, ⟨hd, ht.hour, ht.minute, ht.second, ht.nanosecond⟩, ?_⟩
  rw [Instant.daysLater, hdate]

end IsMinute

end Instant

end Timetable
