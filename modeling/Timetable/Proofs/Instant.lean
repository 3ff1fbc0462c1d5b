import Mathlib.Data.Nat.Init
import Mathlib.Order.Basic
import Timetable.Instant

/-!
The order of days and instants.

The days of the calendar are numbered one after another, so the number of a day
orders the days as year, month and day do, from the left. Instants are ordered by
their seconds and the nanoseconds on top. The minutes from one minute to the start
of the next year are then exactly those that are later in the same year, and it is
the same for the smaller units: this is what a search that skips a unit relies on.
A day of a month falls on each day of the week in some year.
-/

set_option autoImplicit false

namespace Timetable

/-! ## The days of months and years -/

/-- The recursion of `daysBeforeMonth`, one month at a time. -/
theorem daysBeforeMonth_succ (y : Int) (m : Nat) :
    daysBeforeMonth y (m + 1) = daysBeforeMonth y m + daysInMonth y m := rfl

/-- Later months begin later. The number 13 is allowed for a month: before it are all the days of
the year. -/
theorem daysBeforeMonth_mono (y : Int) {m m' : Nat} (h : m ≤ m') :
    daysBeforeMonth y m ≤ daysBeforeMonth y m' := by
  induction m', h using Nat.le_induction with
  | base => exact Nat.le_refl _
  | succ n _ ih =>
    rw [daysBeforeMonth_succ]
    omega

/-- The months of a year are all its days. -/
theorem daysBeforeYear_succ (y : Int) :
    daysBeforeYear (y + 1) = daysBeforeYear y + daysBeforeMonth y 13 := by
  have hmonths : daysBeforeMonth y 13 = if isLeapYear y then 366 else 365 := by
    simp only [daysBeforeMonth, daysInMonth]
    split <;> rfl
  rw [hmonths]
  simp only [daysBeforeYear, isLeapYear, Bool.or_eq_true, Bool.and_eq_true, beq_iff_eq, bne_iff_ne]
  split <;> omega

/-- Later years begin later, also before the year 0. -/
theorem daysBeforeYear_mono {y y' : Int} (h : y ≤ y') : daysBeforeYear y ≤ daysBeforeYear y' := by
  simp only [daysBeforeYear]
  omega

/-- No month is empty, so the first of a month is a day of the calendar. -/
theorem one_le_daysInMonth (y : Int) {m : Nat} (h : 1 ≤ m) (h' : m ≤ 12) :
    1 ≤ daysInMonth y m := by
  unfold daysInMonth
  split
  -- February, and what is no month
  case h_12 => split <;> decide
  case h_13 => grind
  all_goals decide

/-! ## Leap years

All leap years have the same months, and no month is longer in another year. -/

section Leap

variable {y : Int} (h : isLeapYear y = true)

include h

/-- The year 2000 stands for all leap years. -/
theorem daysInMonth_of_isLeapYear (m : Nat) : daysInMonth y m = daysInMonth 2000 m := by
  have hfixed : isLeapYear 2000 = true := by decide
  unfold daysInMonth
  rw [h, hfixed]

/-- In all leap years a month begins on the same day of the year. -/
theorem daysBeforeMonth_of_isLeapYear (m : Nat) : daysBeforeMonth y m = daysBeforeMonth 2000 m := by
  induction m with
  | zero => rfl
  | succ m ih => rw [daysBeforeMonth_succ, daysBeforeMonth_succ, ih, daysInMonth_of_isLeapYear h]

/-- A day of a month in any year is one in a leap year as well; `exists_weekday_eq` moves days into
leap years. -/
theorem daysInMonth_le_of_isLeapYear (y' : Int) (m : Nat) : daysInMonth y' m ≤ daysInMonth y m := by
  unfold daysInMonth
  rw [h]
  split
  -- February
  case h_12 => split <;> decide
  all_goals exact Nat.le_refl _

end Leap

/-! ## The order of days -/

namespace Date

variable {d d' : Date}

/-- Being a day of the calendar, as bounds that arithmetic can use. -/
theorem isValid_iff :
    d.isValid = true ↔
      (1 ≤ d.month ∧ d.month ≤ 12) ∧ 1 ≤ d.day ∧ d.day ≤ daysInMonth d.year d.month := by
  simp only [isValid, Bool.and_eq_true, decide_eq_true_eq, and_assoc]

/-- A day comes after all earlier months of its year. -/
theorem daysBeforeMonth_lt_number (hd : d.isValid = true) :
    daysBeforeYear d.year + daysBeforeMonth d.year d.month < d.number := by
  rw [isValid_iff] at hd
  rw [number]
  omega

/-- A day does not come after the end of its month. -/
theorem number_le_daysBeforeMonth (hd : d.isValid = true) :
    d.number ≤ daysBeforeYear d.year + daysBeforeMonth d.year (d.month + 1) := by
  rw [isValid_iff] at hd
  rw [number, daysBeforeMonth_succ]
  omega

/-- A day of an earlier year has a smaller number: its month ends with the year at the latest, and
the other one begins in a later year. -/
theorem number_lt_of_year_lt (hd : d.isValid = true) (hd' : d'.isValid = true)
    (h : d.year < d'.year) : d.number < d'.number := by
  have hmonth := (isValid_iff.mp hd).1
  have hend := daysBeforeMonth_mono d.year (by omega : d.month + 1 ≤ 13)
  have hnext := daysBeforeYear_succ d.year
  have hyears := daysBeforeYear_mono (by omega : d.year + 1 ≤ d'.year)
  have hlast := number_le_daysBeforeMonth hd
  have hfirst := daysBeforeMonth_lt_number hd'
  omega

/-- The same within a year: the earlier month ends before the later one begins. -/
theorem number_lt_of_month_lt (hd : d.isValid = true) (hd' : d'.isValid = true)
    (hyear : d.year = d'.year) (h : d.month < d'.month) : d.number < d'.number := by
  have hmonths := daysBeforeMonth_mono d.year (by omega : d.month + 1 ≤ d'.month)
  have hlast := number_le_daysBeforeMonth hd
  have hfirst := daysBeforeMonth_lt_number hd'
  rw [← hyear] at hfirst
  omega

/-- Within a month the number grows with the day. -/
theorem number_lt_of_day_lt (hyear : d.year = d'.year) (hmonth : d.month = d'.month)
    (h : d.day < d'.day) : d.number < d'.number := by
  simp only [number, hyear, hmonth]
  omega

/-- **The order of days.** The numbers of days are ordered as their years, months and days are. -/
theorem number_lt_iff (hd : d.isValid = true) (hd' : d'.isValid = true) :
    d.number < d'.number ↔
      d.year < d'.year ∨
        (d.year = d'.year ∧ (d.month < d'.month ∨ (d.month = d'.month ∧ d.day < d'.day))) := by
  have before {d d' : Date} (hd : d.isValid = true) (hd' : d'.isValid = true)
      (h : d.year < d'.year ∨
        (d.year = d'.year ∧ (d.month < d'.month ∨ (d.month = d'.month ∧ d.day < d'.day)))) :
      d.number < d'.number := by
    rcases h with h | ⟨hyear, h | ⟨hmonth, h⟩⟩
    · exact number_lt_of_year_lt hd hd' h
    · exact number_lt_of_month_lt hd hd' hyear h
    · exact number_lt_of_day_lt hyear hmonth h
  constructor
  · intro h
    by_contra hnot
    -- otherwise the days are the same, or in the other order
    by_cases hback : d'.year < d.year ∨
        (d'.year = d.year ∧ (d'.month < d.month ∨ (d'.month = d.month ∧ d'.day < d.day)))
    · have := before hd' hd hback
      omega
    · have hsame : d.year = d'.year ∧ d.month = d'.month ∧ d.day = d'.day := by omega
      simp only [number, hsame] at h
      omega
  · exact before hd hd'

/-- Days with the same number are the same. -/
theorem eq_of_number_eq (hd : d.isValid = true) (hd' : d'.isValid = true)
    (h : d.number = d'.number) : d = d' := by
  have hlt := number_lt_iff hd hd'
  have hgt := number_lt_iff hd' hd
  have hsame : d.year = d'.year ∧ d.month = d'.month ∧ d.day = d'.day := by omega
  obtain ⟨y, m, n⟩ := d
  obtain ⟨y', m', n'⟩ := d'
  simpa using hsame

/-- The next day is a day of the calendar. -/
theorem isValid_next (hd : d.isValid = true) : d.next.isValid = true := by
  rw [isValid_iff] at hd
  rw [next]
  split
  · rw [isValid_iff]
    simp only
    omega
  · split
    · rw [isValid_iff]
      have := one_le_daysInMonth d.year (by omega : 1 ≤ d.month + 1) (by omega)
      simp only
      omega
    · rfl

/-- The next day has the next number. -/
theorem number_next (hd : d.isValid = true) : d.next.number = d.number + 1 := by
  rw [isValid_iff] at hd
  rw [next]
  split
  · simp only [number]
    omega
  · split
    · simp only [number, daysBeforeMonth_succ]
      omega
    -- the last day of the year: all twelve months come before the next one
    · have hmonth : d.month + 1 = 13 := by omega
      have hyear := daysBeforeYear_succ d.year
      rw [← hmonth, daysBeforeMonth_succ] at hyear
      have hstart : daysBeforeMonth (d.year + 1) 1 = 0 := rfl
      simp only [number, hstart, hyear]
      omega

/-! ## The days of the week -/

/-- The days of the week are counted from 1 to 7. -/
theorem weekday_bounds (d : Date) : 1 ≤ d.weekday ∧ d.weekday ≤ 7 := by
  rw [weekday]
  omega

/-- **Every day of the calendar falls on every day of the week**, in one of the seven leap years
from 2000 to 2024. From one of them to the next a day moves on by five days of the week. -/
theorem exists_weekday_eq (hd : d.isValid = true) {w : Nat} (hw : 1 ≤ w) (hw' : w ≤ 7) :
    ∃ y : Int, (2000 ≤ y ∧ y ≤ 2024) ∧ (⟨y, d.month, d.day⟩ : Date).isValid = true ∧
      (⟨y, d.month, d.day⟩ : Date).weekday = w := by
  generalize hfirst : (⟨2000, d.month, d.day⟩ : Date).number = first
  -- three times five is one more than a multiple of seven
  obtain ⟨j, hj, hday⟩ : ∃ j : Int, (0 ≤ j ∧ j ≤ 6) ∧ (first + 1461 * j - 1) % 7 = w - 1 :=
    ⟨3 * (w - first) % 7, by omega, by omega⟩
  -- no year from 2000 to 2024 is the last one of a century that is no leap year
  have hleap : isLeapYear (2000 + 4 * j) = true := by
    simp only [isLeapYear, Bool.or_eq_true, Bool.and_eq_true, beq_iff_eq, bne_iff_ne]
    omega
  refine ⟨2000 + 4 * j, by omega, ?_, ?_⟩
  · rw [isValid_iff] at hd ⊢
    have hmonth := daysInMonth_le_of_isLeapYear hleap d.year d.month
    simp only
    omega
  · have hyear : daysBeforeYear (2000 + 4 * j) = daysBeforeYear 2000 + 1461 * j := by
      simp only [daysBeforeYear]
      omega
    have hnumber : (⟨2000 + 4 * j, d.month, d.day⟩ : Date).number = first + 1461 * j := by
      rw [← hfirst, number, number]
      simp only [daysBeforeMonth_of_isLeapYear hleap, hyear]
      omega
    rw [weekday, hnumber, hday]
    omega

end Date

/-! ## The order of instants -/

namespace Instant

/-- Instants are ordered by their seconds and then by their nanoseconds. -/
instance : Preorder Instant where
  le t m := t.seconds < m.seconds ∨ (t.seconds = m.seconds ∧ t.nanosecond ≤ m.nanosecond)
  lt t m := t.seconds < m.seconds ∨ (t.seconds = m.seconds ∧ t.nanosecond < m.nanosecond)
  le_refl t := .inr ⟨rfl, Nat.le_refl _⟩
  le_trans t m m' := by omega
  lt_iff_le_not_ge t m := by omega

variable {t m m' : Instant}

/-- What `≤` says, for rewriting. -/
theorem le_iff : t ≤ m ↔ t.seconds < m.seconds ∨ (t.seconds = m.seconds ∧
    t.nanosecond ≤ m.nanosecond) :=
  Iff.rfl

/-- What `<` says, for rewriting. -/
theorem lt_iff : t < m ↔ t.seconds < m.seconds ∨ (t.seconds = m.seconds ∧
    t.nanosecond < m.nanosecond) :=
  Iff.rfl

instance : DecidableLE Instant := fun _ _ => decidable_of_iff _ le_iff.symm

/-- The test that the search makes is the order. -/
theorem isBefore_iff : t.isBefore m = true ↔ t < m := by
  simp only [isBefore, lt_iff, Bool.or_eq_true, Bool.and_eq_true, decide_eq_true_eq, beq_iff_eq]

/-- The order is total. There are two instants with the same seconds that are not equal, so it is no
linear order. -/
theorem not_lt : ¬ t < m ↔ m ≤ t := by
  -- both sides compare the seconds first, so this is arithmetic
  rw [lt_iff, le_iff]
  omega

/-- The start of a minute of the calendar. -/
structure IsMinute (t : Instant) : Prop where
  date : t.date.isValid = true
  hour : t.hour < 24
  minute : t.minute < 60
  second : t.second = 0
  nanosecond : t.nanosecond = 0

/-- An instant of the calendar, in the years that instants are kept for. -/
structure IsValid (t : Instant) : Prop where
  date : t.date.isValid = true
  firstYear : -262143 ≤ t.date.year
  lastYear : t.date.year ≤ 262142
  hour : t.hour < 24
  minute : t.minute < 60
  second : t.second < 60

/-- The minute in which an instant lies begins in the calendar. -/
theorem IsValid.isMinute (ht : t.IsValid) : t.startOfMinute.IsMinute :=
  ⟨ht.date, ht.hour, ht.minute, rfl, rfl⟩

/-- The start of its minute is the last minute that has begun at an instant. -/
theorem IsMinute.le_startOfMinute (hm : m.IsMinute) (ht : t.IsValid) (h : m ≤ t) :
    m ≤ t.startOfMinute := by
  have hsecond := ht.second
  rw [le_iff] at h ⊢
  simp only [seconds, startOfMinute, minuteOfDay, hm.second, hm.nanosecond] at h ⊢
  omega

/-- The seconds and nanoseconds that are dropped make an instant no earlier. -/
theorem startOfMinute_le (t : Instant) : t.startOfMinute ≤ t := by
  rw [le_iff]
  simp only [seconds, startOfMinute, minuteOfDay]
  omega

namespace IsMinute

/-- A start of a minute has nothing to drop. -/
theorem startOfMinute_eq (hm : m.IsMinute) : m.startOfMinute = m := by
  obtain ⟨date, hour, minute, second, nanosecond⟩ := m
  obtain ⟨-, -, -, rfl, rfl⟩ := hm
  rfl

/-- **The order of minutes.** Minutes are ordered as their days, hours and minutes of the hour
are. -/
theorem lt_iff (hm : m.IsMinute) (hm' : m'.IsMinute) :
    m < m' ↔ m.date.number < m'.date.number ∨ (m.date.number = m'.date.number ∧
      (m.hour < m'.hour ∨ (m.hour = m'.hour ∧ m.minute < m'.minute))) := by
  have hhour := hm.hour
  have hminute := hm.minute
  have hhour' := hm'.hour
  have hminute' := hm'.minute
  rw [Instant.lt_iff]
  simp only [seconds, minuteOfDay, hm.second, hm'.second, hm.nanosecond, hm'.nanosecond]
  omega

/-- On minutes the order is antisymmetric, because the number of a day tells its date. -/
theorem eq_of_le_of_le (hm : m.IsMinute) (hm' : m'.IsMinute) (h : m ≤ m') (h' : m' ≤ m) :
    m = m' := by
  have hlt := (hm.lt_iff hm').not.mp (not_lt.mpr h')
  have hgt := (hm'.lt_iff hm).not.mp (not_lt.mpr h)
  have hdate := Date.eq_of_number_eq hm.date hm'.date (by omega)
  have hrest : m.hour = m'.hour ∧ m.minute = m'.minute := by omega
  rw [← hm.startOfMinute_eq, ← hm'.startOfMinute_eq, startOfMinute, startOfMinute, hdate, hrest.1,
    hrest.2]

/-- Later minutes are in no earlier year. -/
theorem year_le_of_le (hm : m.IsMinute) (hm' : m'.IsMinute) (h : m ≤ m') :
    m.date.year ≤ m'.date.year := by
  have hback := (hm'.lt_iff hm).not.mp (not_lt.mpr h)
  have hyear := Date.number_lt_of_year_lt hm'.date hm.date
  omega

/-! ## The starts of the next units -/

/-- A day of the calendar begins with a minute. -/
theorem isMinute_midnight {d : Date} (hd : d.isValid = true) : (midnight d).IsMinute :=
  ⟨hd, Nat.succ_pos 23, Nat.succ_pos 59, rfl, rfl⟩

/-- The first of January is there in every year. -/
theorem isMinute_nextYear (t : Instant) : t.nextYear.IsMinute :=
  isMinute_midnight rfl

/-- The first of the next month, or of January after December. -/
theorem nextMonth (ht : t.IsMinute) : t.nextMonth.IsMinute := by
  have hmonth := (Date.isValid_iff.mp ht.date).1
  rw [Instant.nextMonth]
  split
  · refine isMinute_midnight (Date.isValid_iff.mpr ?_)
    have := one_le_daysInMonth t.date.year (by omega : 1 ≤ t.date.month + 1) (by omega)
    simp only
    omega
  · exact isMinute_nextYear t

/-- The search for the next occurrence stays on minutes: the steps over days, hours and minutes lead
to minutes. -/
theorem nextDay (ht : t.IsMinute) : t.nextDay.IsMinute :=
  isMinute_midnight (Date.isValid_next ht.date)

/-- After 23 o'clock the next hour is on the next day. -/
theorem nextHour (ht : t.IsMinute) : t.nextHour.IsMinute := by
  rw [Instant.nextHour]
  split
  · next h => exact ⟨ht.date, by simp only; omega, by simp only; omega, rfl, rfl⟩
  · exact ht.nextDay

/-- After the last minute of an hour the next one is in the next hour. -/
theorem nextMinute (ht : t.IsMinute) : t.nextMinute.IsMinute := by
  rw [Instant.nextMinute]
  split
  · next h => exact ⟨ht.date, ht.hour, by simp only; omega, rfl, rfl⟩
  · exact ht.nextHour

/-- The minutes before midnight of a day are those of the days before. -/
theorem lt_midnight_iff (hm : m.IsMinute) {d : Date} (hd : d.isValid = true) :
    m < midnight d ↔ m.date.number < d.number := by
  rw [hm.lt_iff (isMinute_midnight hd)]
  simp only [midnight]
  omega

/-- **The rest of a year.** The minutes before the next year are those of no later year. -/
theorem lt_nextYear_iff (hm : m.IsMinute) : m < t.nextYear ↔ m.date.year ≤ t.date.year := by
  have hdate := Date.isValid_iff.mp hm.date
  rw [nextYear, hm.lt_midnight_iff rfl, Date.number_lt_iff hm.date rfl]
  simp only
  omega

/-- **The rest of a month.** -/
theorem lt_nextMonth_iff (hm : m.IsMinute) (ht : t.IsMinute) :
    m < t.nextMonth ↔ m.date.year < t.date.year ∨
      (m.date.year = t.date.year ∧ m.date.month ≤ t.date.month) := by
  have hdate := Date.isValid_iff.mp hm.date
  have hmonth := ht.nextMonth.date
  rw [Instant.nextMonth] at hmonth ⊢
  -- within the year the months are compared, and December ends with the year
  split at hmonth
  · next h =>
    have hfirst : (⟨t.date.year, t.date.month + 1, 1⟩ : Date).isValid = true := hmonth
    rw [if_pos h, hm.lt_midnight_iff hfirst, Date.number_lt_iff hm.date hfirst]
    simp only
    omega
  · next h =>
    rw [if_neg h, hm.lt_nextYear_iff]
    omega

/-- **The rest of a day.** -/
theorem lt_nextDay_iff (hm : m.IsMinute) (ht : t.IsMinute) :
    m < t.nextDay ↔ m.date.number ≤ t.date.number := by
  rw [Instant.nextDay, hm.lt_midnight_iff (Date.isValid_next ht.date), Date.number_next ht.date]
  omega

/-- **The rest of an hour.** -/
theorem lt_nextHour_iff (hm : m.IsMinute) (ht : t.IsMinute) :
    m < t.nextHour ↔ m.date.number < t.date.number ∨
      (m.date.number = t.date.number ∧ m.hour ≤ t.hour) := by
  have hhour := hm.hour
  have hnext := ht.nextHour
  rw [Instant.nextHour] at hnext ⊢
  -- the last hour of a day ends with the day
  split at hnext
  · next h =>
    rw [if_pos h, hm.lt_iff hnext]
    simp only
    omega
  · next h =>
    rw [if_neg h, hm.lt_nextDay_iff ht]
    omega

/-- **The rest of a minute.** Before the next minute there is no minute that is later. -/
theorem lt_nextMinute_iff (hm : m.IsMinute) (ht : t.IsMinute) : m < t.nextMinute ↔ m ≤ t := by
  have hminute := hm.minute
  have hnext := ht.nextMinute
  rw [← Instant.not_lt, ht.lt_iff hm]
  rw [Instant.nextMinute] at hnext ⊢
  -- the last minute of an hour ends with the hour
  split at hnext
  · next h =>
    rw [if_pos h, hm.lt_iff hnext]
    simp only
    omega
  · next h =>
    rw [if_neg h, hm.lt_nextHour_iff ht]
    omega

/-- A step over a minute goes forward. -/
theorem lt_nextMinute (ht : t.IsMinute) : t < t.nextMinute := by
  rw [ht.lt_nextMinute_iff ht]

/-- The next minute is not later than the next year. -/
theorem nextMinute_le_nextYear (ht : t.IsMinute) : t.nextMinute ≤ t.nextYear := by
  have hnext := isMinute_nextYear t
  have hlater : t < t.nextYear := ht.lt_nextYear_iff.mpr (Int.le_refl _)
  rw [← not_lt, hnext.lt_nextMinute_iff ht]
  exact not_le_of_gt hlater

end IsMinute

/-- Later instants are in no earlier year, whatever their seconds are. -/
theorem IsValid.year_le_of_le (ht : t.IsValid) (hm : m.IsValid) (h : t ≤ m) :
    t.date.year ≤ m.date.year := by
  have hle := ht.isMinute.le_startOfMinute hm (t.startOfMinute_le.trans h)
  have hyear := ht.isMinute.year_le_of_le hm.isMinute hle
  exact hyear

end Instant

end Timetable
