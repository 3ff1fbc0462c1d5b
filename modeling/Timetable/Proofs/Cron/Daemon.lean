import Timetable.Event.Occurrence
import Timetable.Proofs.Cron.Fields
import Timetable.Proofs.Instant

/-!
When cron runs a line.

The time fields of a line are read here as crontab(5) describes them, on their
text and without the reader of this library. A star stands for every number, and
a list of numbers and ranges for the numbers in it. Minute, hour and month must
all be named. The day is named by its number in the month or by its day of the
week: where only one of these two fields is restricted, that one decides, and
where both are, either one is enough. Names of months and days and the steps of a
range are left out of the reading, since none are ever written for an event.

An event asks for both. So the fields that are written for an event select its
minutes if one of the two is free, and otherwise they select those at which the
event would come with one of the two freed.
-/

set_option autoImplicit false

namespace Timetable

namespace Cron

open Text Selection

/-! ## The minutes of a line -/

/-- The number that a text of digits stands for. -/
def worth (t : List Char) : Nat :=
  Nat.ofDigitChars 10 t 0

/-- Whether an item of a list names a number: it is the number, or a range that goes over it. -/
def itemNames (item : List Char) (n : Nat) : Bool :=
  match item.splitOn '-' with
  | [a] => worth a == n
  | [a, b] => worth a ≤ n && n ≤ worth b
  | _ => false

/-- Whether an item of a field names a number. -/
def fieldNames (f : List Char) (n : Nat) : Bool :=
  (f.splitOn ',').any (itemNames · n)

/-- Whether the last field of a line names a day of the week. The field counts from Sunday, which is
0 and also 7, and the days here are Monday, 1, to Sunday, 7. -/
def fieldNamesDay (f : List Char) (n : Nat) : Bool :=
  fieldNames f (n % 7) || (n == 7 && fieldNames f 7)

/-- Whether a field is a star. -/
def isStar (f : List Char) : Bool :=
  f == ['*']

/-- Whether the fields for days name a date. Where both are restricted, either one is enough. -/
def fieldsNameDate (day weekday : List Char) (d : Date) : Bool :=
  match isStar day, isStar weekday with
  | true, true => true
  | false, true => fieldNames day d.day
  | true, false => fieldNamesDay weekday d.weekday
  | false, false => fieldNames day d.day || fieldNamesDay weekday d.weekday

/-- Whether cron runs a line with these time fields in the minute of an instant. -/
def isDue (line : List Char) (t : Instant) : Bool :=
  match words line with
  | [minute, hour, day, month, weekday] =>
    (isStar minute || fieldNames minute t.minute) && (isStar hour || fieldNames hour t.hour) &&
      (isStar month || fieldNames month t.date.month) && fieldsNameDate day weekday t.date
  | _ => false

/-! ## What the written fields name -/

section Written

variable {d : Domain} {n : Nat}

/-- A list names what its parts name. -/
theorem fieldNames_append_cons (t t' : List Char) (n : Nat) :
    fieldNames (t ++ ',' :: t') n = (fieldNames t n || fieldNames t' n) := by
  rw [fieldNames, List.splitOn, List.splitOnP_append_cons _ _ (by simp), List.any_append]
  rfl

theorem fieldNames_intercalate {α : Type} {f : α → List Char} {as : List α} (hne : as ≠ []) :
    fieldNames ([','].intercalate (as.map f)) n = as.any fun a => fieldNames (f a) n := by
  induction as with
  | nil => exact absurd rfl hne
  | cons a as ih =>
    cases as with
    | nil => simp
    | cons b bs =>
      have hrest := ih (by simp)
      rw [List.map_cons, List.map_cons, List.intercalate_cons_cons, List.append_assoc,
        List.singleton_append, fieldNames_append_cons, List.any_cons]
      rw [List.map_cons] at hrest
      rw [hrest]

theorem notMem_of_isDecimal {t : List Char} {m : Nat} (h : IsDecimal t m) {c : Char}
    (hc : c.isDigit = false) : c ∉ t :=
  fun hm => absurd (h.isDigit c hm) (by simp [hc])

theorem fieldNames_number {t : List Char} {m : Nat} (h : IsDecimal t m) :
    fieldNames t n = (m == n) := by
  have hcomma : ',' ∉ t := notMem_of_isDecimal h (by decide)
  have hdash : '-' ∉ t := notMem_of_isDecimal h (by decide)
  simp only [fieldNames, splitOn_of_notMem hcomma, List.any_cons, List.any_nil, Bool.or_false]
  rw [itemNames, splitOn_of_notMem hdash]
  simp only [worth, h.worth]

/-- Two numbers with a dash between them name what lies between them. -/
theorem fieldNames_range {t t' : List Char} {a b : Nat} (h : IsDecimal t a) (h' : IsDecimal t' b) :
    fieldNames (t ++ '-' :: t') n = (a ≤ n && n ≤ b) := by
  have hcomma : ',' ∉ t ++ '-' :: t' := by
    simp [notMem_of_isDecimal h (by decide : ','.isDigit = false),
      notMem_of_isDecimal h' (by decide : ','.isDigit = false)]
  have hdash : '-' ∉ t := notMem_of_isDecimal h (by decide)
  have hdash' : '-' ∉ t' := notMem_of_isDecimal h' (by decide)
  simp only [fieldNames, splitOn_of_notMem hcomma, List.any_cons, List.any_nil, Bool.or_false]
  rw [itemNames, splitOn_append_cons hdash, splitOn_of_notMem hdash']
  simp only [worth, h.worth, h'.worth]

/-- **A run names its numbers.** -/
theorem fieldNames_runText {r : Run} (hr : r.IsOrdered) :
    fieldNames (runText r).toList n = true ↔ n ∈ r.toList := by
  have hfirst := isDecimal_twoDigits r.first
  have hlast := isDecimal_twoDigits r.last
  rw [Run.IsOrdered] at hr
  rw [runText, Run.toList, Run.length, List.mem_range'_1]
  split
  · next hlength =>
    rw [String.toList_ofList, fieldNames_number hfirst, beq_iff_eq]
    omega
  · next hlength =>
    have hpair : fieldNames (twoDigits r.first ++ ',' :: twoDigits r.last) n =
        (r.first == n || r.last == n) := by
      rw [fieldNames_append_cons, fieldNames_number hfirst, fieldNames_number hlast]
    simp only [String.toList_append, String.toList_ofList, String.reduceToList, List.append_assoc,
      List.singleton_append, hpair, Bool.or_eq_true, beq_iff_eq]
    omega
  · simp only [String.toList_append, String.toList_ofList, String.reduceToList, List.append_assoc,
      List.singleton_append, fieldNames_range hfirst hlast, Bool.and_eq_true, decide_eq_true_eq]
    omega

/-- **The field of a selection names its members**, if there are any. -/
theorem fieldNames_fieldText {s : Selection d} (hs : s.Reached) (hp : s.isPopulated = true) :
    fieldNames (fieldText s).toList n = s.contains n := by
  obtain ⟨hordered, hnumbers⟩ := Run.ofMembers_spec s.members
  have hne : s.runs ≠ [] := fun h => hs.members_ne_nil hp (ofMembers_eq_nil h)
  have hruns : fieldNames (fieldText s).toList n =
      s.runs.any fun r => fieldNames (runText r).toList n := by
    rw [← fieldNames_intercalate hne]
    simp [fieldText, hp, String.toList_intercalate, Function.comp_def]
  rw [hruns, Bool.eq_iff_iff, contains_iff, ← hnumbers, List.any_eq_true, List.mem_flatMap]
  exact exists_congr fun r => and_congr_right fun hr => fieldNames_runText (hordered r hr)

/-- **The field of the days of the week names them**, if there are any. -/
theorem fieldNamesDay_weekdayText {s : Selection (Component.domain .weekday)} (hs : s.Reached)
    (hp : s.isPopulated = true) (hn : 1 ≤ n) (hn' : n ≤ 7) :
    fieldNamesDay (weekdayText s).toList n = s.contains n := by
  have hnames : ∀ k, fieldNames (weekdayText s).toList k =
      s.members.any fun m => daySinceSunday m == k := by
    intro k
    have hdays := fieldNames_intercalate (n := k) (f := fun m => decimal (daySinceSunday m))
      (hs.members_ne_nil hp)
    simp only [fieldNames_number (isDecimal_decimal _)] at hdays
    rw [← hdays]
    simp [weekdayText, hp, String.toList_intercalate, Function.comp_def, decimal]
  have hholds : ∀ m ∈ s.members, 1 ≤ m ∧ m ≤ 7 := fun m hm => holds_iff.mp (hs.holds hm)
  rw [Bool.eq_iff_iff, contains_iff, fieldNamesDay, hnames, hnames]
  simp only [Bool.or_eq_true, Bool.and_eq_true, List.any_eq_true, beq_iff_eq, daySinceSunday]
  constructor
  · rintro (⟨m, hm, heq⟩ | ⟨-, m, hm, heq⟩)
    · have := hholds m hm
      obtain rfl : m = n := by omega
      exact hm
    -- the fields that are written have no 7
    · omega
  · exact fun hmem => .inl ⟨n, hmem, rfl⟩

/-- A field is a star exactly where the event is free. -/
theorem isStar_fieldText {s : Selection d} (hs : s.Reached) (hd : d.hi < wordLimit) :
    isStar (fieldText s).toList = !s.isPopulated := by
  cases hp : s.isPopulated with
  | true => exact beq_eq_false_iff_ne.mpr (inserts_fieldText hs hp hd).ne_star
  | false => simp [fieldText, hp, isStar]

theorem isStar_weekdayText {s : Selection d} (hs : s.Reached) :
    isStar (weekdayText s).toList = !s.isPopulated := by
  cases hp : s.isPopulated with
  | true => exact beq_eq_false_iff_ne.mpr (inserts_weekdayText hs hp).ne_star
  | false => simp [weekdayText, hp, isStar]

/-- A field lets through what the selection takes. -/
theorem admits_fieldText {s : Selection d} (hs : s.Reached) (hd : d.hi < wordLimit) (n : Nat) :
    (isStar (fieldText s).toList || fieldNames (fieldText s).toList n) = s.admits n := by
  rw [isStar_fieldText hs hd, admits]
  cases hp : s.isPopulated with
  | true => rw [fieldNames_fieldText hs hp]
  | false => rfl

end Written

/-! ## What cron runs for an event -/

section Due

variable {e : Event}

/-- The fields for days name the dates that the event admits on both counts, or on either one if
both are restricted. -/
theorem fieldsNameDate_fieldTexts (he : e.Reached) (d : Date) :
    fieldsNameDate (fieldText e.day).toList (weekdayText e.weekday).toList d =
      if e.day.isPopulated && e.weekday.isPopulated then
        e.day.admits d.day || e.weekday.admits d.weekday
      else e.day.admits d.day && e.weekday.admits d.weekday := by
  obtain ⟨hfirst, hlast⟩ := d.weekday_bounds
  have hday := isStar_fieldText (s := e.day) (he .day) (by decide)
  have hweekday := isStar_weekdayText (s := e.weekday) (he .weekday)
  simp only [fieldsNameDate, hday, hweekday, admits]
  -- which of the two fields are stars decides how they are put together
  cases hp : e.day.isPopulated with
  | false =>
    cases hp' : e.weekday.isPopulated with
    | false => rfl
    | true => simp [fieldNamesDay_weekdayText (s := e.weekday) (he .weekday) hp' hfirst hlast]
  | true =>
    have hnamed := fieldNames_fieldText (s := e.day) (n := d.day) (he .day) hp
    cases hp' : e.weekday.isPopulated with
    | false => simp [hnamed]
    | true =>
      simp [hnamed, fieldNamesDay_weekdayText (s := e.weekday) (he .weekday) hp' hfirst hlast]

/-- **When cron runs the fields of an event.** If the day or the weekday of the event is free, cron
runs them at its minutes. If both are restricted, it runs them at the minutes that the event would
have with one of the two freed. -/
theorem isDue_timeFields (he : e.Reached) (hyear : e.year.isPopulated = false) (t : Instant) :
    isDue (timeFields e).toList t =
      if e.day.isPopulated && e.weekday.isPopulated then
        Event.selects { e with day := .any } t || Event.selects { e with weekday := .any } t
      else e.selects t := by
  have hminute := admits_fieldText (s := e.minute) (he .minute) (by decide) t.minute
  have hhour := admits_fieldText (s := e.hour) (he .hour) (by decide) t.hour
  have hmonth := admits_fieldText (s := e.month) (he .month) (by decide) t.date.month
  rw [isDue, words_timeFields he]
  simp only [fieldTexts, List.map_cons, List.map_nil, hminute, hhour, hmonth,
    fieldsNameDate_fieldTexts he, Event.selects, admits_of_free hyear, admits_any, Bool.true_and,
    Bool.and_true]
  split
  · rw [Bool.and_or_distrib_left, Bool.or_comm]
    ac_rfl
  · ac_rfl

/-- At a time of an event with both kinds of days restricted, cron and the event agree exactly if
both admit the date or neither does. -/
theorem selects_iff_isDue_of_restricted (he : e.Reached) (hyear : e.year.isPopulated = false)
    (hday : e.day.isPopulated = true) (hweekday : e.weekday.isPopulated = true) {t : Instant}
    (hmonth : e.month.admits t.date.month = true) (hhour : e.hour.admits t.hour = true)
    (hminute : e.minute.admits t.minute = true) :
    (e.selects t = true ↔ isDue (timeFields e).toList t = true) ↔
      (e.day.admits t.date.day = true ↔ e.weekday.admits t.date.weekday = true) := by
  rw [isDue_timeFields he hyear, hday, hweekday]
  simp only [Event.selects, admits_of_free hyear, hmonth, hhour, hminute, admits_any, Bool.true_and,
    Bool.and_true, if_true, Bool.and_eq_true, Bool.or_eq_true]
  tauto

/-- **Where cron and the event agree.** They do at all times of the calendar exactly if the day or
the weekday of the event is free, or both admit every date of its months. Any day of a month falls
on any day of the week in some year, so a date that one of them leaves out shows. -/
theorem forall_selects_iff_isDue_iff (he : e.Reached) (hyear : e.year.isPopulated = false) :
    (∀ t : Instant, t.IsValid → (e.selects t = true ↔ isDue (timeFields e).toList t = true)) ↔
      e.day.isPopulated = false ∨ e.weekday.isPopulated = false ∨
        ∀ d : Date, d.isValid = true → e.month.admits d.month = true →
          e.day.admits d.day = true ∧ e.weekday.admits d.weekday = true := by
  cases hp : e.day.isPopulated with
  | false => simp [isDue_timeFields he hyear, hp]
  | true =>
    cases hp' : e.weekday.isPopulated with
    | false => simp [isDue_timeFields he hyear, hp']
    | true =>
      simp only [Bool.true_eq_false, false_or]
      constructor
      · intro hall d hd hmonth
        obtain ⟨hour, hhour, hhour'⟩ := (he .hour).exists_admits (by decide)
        obtain ⟨minute, hminute, hminute'⟩ := (he .minute).exists_admits (by decide)
        obtain ⟨w, hw, hw'⟩ := (he .weekday).exists_admits (by decide)
        -- the same day of the month in another year
        have hsame : ∀ y : Int, 2000 ≤ y ∧ y ≤ 2024 →
            (⟨y, d.month, d.day⟩ : Date).isValid = true →
            (e.day.admits d.day = true ↔
              e.weekday.admits (⟨y, d.month, d.day⟩ : Date).weekday = true) := by
          intro y hy hvalid
          have hyears : -262143 ≤ y ∧ y ≤ 262142 := by omega
          let t : Instant := ⟨⟨y, d.month, d.day⟩, hour, minute, 0, 0⟩
          have ht : t.IsValid :=
            ⟨hvalid, hyears.1, hyears.2, Nat.lt_succ_of_le (holds_iff.mp hhour).2,
              Nat.lt_succ_of_le (holds_iff.mp hminute).2, Nat.succ_pos 59⟩
          exact (selects_iff_isDue_of_restricted (t := t) he hyear hp hp' hmonth hhour' hminute').mp
            (hall t ht)
        have hday : e.day.admits d.day = true := by
          obtain ⟨y, hy, hvalid, hweekday⟩ :=
            Date.exists_weekday_eq hd (holds_iff.mp hw).1 (holds_iff.mp hw).2
          rw [hsame y hy hvalid, hweekday]
          exact hw'
        obtain ⟨y, hy, hvalid, hweekday⟩ :=
          Date.exists_weekday_eq hd d.weekday_bounds.1 d.weekday_bounds.2
        exact ⟨hday, hweekday ▸ (hsame y hy hvalid).mp hday⟩
      · intro hdates t ht
        have hdate := hdates t.date ht.date
        rw [isDue_timeFields he hyear, hp, hp']
        simp only [Event.selects, admits_any, Bool.and_self, Bool.and_true, if_true,
          Bool.and_eq_true, Bool.or_eq_true]
        tauto

/-- **The fields that are written for an event select its minutes and, where both kinds of days are
restricted, more.** For every event of no particular year that operations lead to, cron runs the
fields at the minutes of the event if its day or its weekday is free. If both are restricted, cron
runs them at the minutes that the event would have with one of the two freed. These are the minutes
of the event itself exactly if day and weekday admit every date of its months. -/
theorem isDue_timeFields_exact (he : e.Reached) (hyear : e.year.isPopulated = false) :
    (∀ t, isDue (timeFields e).toList t =
      if e.day.isPopulated && e.weekday.isPopulated then
        Event.selects { e with day := .any } t || Event.selects { e with weekday := .any } t
      else e.selects t) ∧
    ((∀ t : Instant, t.IsValid → (e.selects t = true ↔ isDue (timeFields e).toList t = true)) ↔
      e.day.isPopulated = false ∨ e.weekday.isPopulated = false ∨
        ∀ d : Date, d.isValid = true → e.month.admits d.month = true →
          e.day.admits d.day = true ∧ e.weekday.admits d.weekday = true) :=
  ⟨isDue_timeFields he hyear, forall_selects_iff_isDue_iff he hyear⟩

/-- With all days of the longest February and all days of the week, nothing is left out. -/
theorem isDue_timeFields_exact_february :
    let e : Event :=
      { weekday := .ofList [1, 2, 3, 4, 5, 6, 7], month := .one 2,
        day := .ofList (List.range' 1 29), hour := .one 6, minute := .one 30, second := .one 0 }
    (e.Reached ∧ e.year.isPopulated = false) ∧ e.day.isPopulated = true ∧
      e.weekday.isPopulated = true ∧
      ∀ t : Instant, t.IsValid → (e.selects t = true ↔ isDue (timeFields e).toList t = true) := by
  intro e
  have he : e.Reached := by
    intro c
    cases c with
    | year => exact .any
    | weekday | day => exact reached_ofList _
    | month | hour | minute | second => exact reached_one (by decide) (by decide)
  have hweekdays : ∀ n < 8, 1 ≤ n → e.weekday.admits n = true := by decide
  have hdays : ∀ n < 30, 1 ≤ n → e.day.admits n = true := by decide +kernel
  refine ⟨⟨he, rfl⟩, by decide, by decide, ?_⟩
  refine (isDue_timeFields_exact he rfl).2.mpr (.inr (.inr fun d hd hmonth => ?_))
  obtain ⟨-, hfirst, hlast⟩ := Date.isValid_iff.mp hd
  have hmonth : (2 == d.month) = true := hmonth
  have hfebruary : d.month = 2 := (beq_iff_eq.mp hmonth).symm
  have hshort : daysInMonth d.year d.month ≤ 29 := by
    rw [hfebruary, daysInMonth]
    split <;> decide
  obtain ⟨hmonday, hsunday⟩ := d.weekday_bounds
  exact ⟨hdays d.day (by omega) hfirst, hweekdays d.weekday (by omega) hmonday⟩

/-- Cron runs the fields for Friday the 13th also on the Friday before, which the event does not
select. -/
theorem isDue_friday_before :
    let e : Event :=
      { weekday := .one 5, day := .one 13, hour := .one 0, minute := .one 0, second := .one 0 }
    let t : Instant := ⟨⟨2024, 9, 6⟩, 0, 0, 0, 0⟩
    Event.parse "Fri *-*-13 00:00" = .ok e ∧ e.year.isPopulated = false ∧ t.IsValid ∧
      timeFields e = "00 00 13 * 5" ∧ isDue (timeFields e).toList t = true ∧
      e.selects t = false := by
  intro e t
  have ht : t.IsValid := by
    constructor <;> decide
  exact ⟨by decide, rfl, ht, by decide, by decide, by decide⟩

end Due

end Cron

end Timetable
