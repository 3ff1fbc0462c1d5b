import Timetable.Proofs.Expression.Meaning
import Timetable.Proofs.Expression.Rules

/-!
Rules in any order.

What a rule does with the captured parts of a text is what the expression says whose
words they are. As a text fits one rule at most, and in one way, a search finds this
rule and these parts whatever the order of the rules is and whatever the search
prefers. So the rules read a text as it is read by its words, and refuse what is
refused there.
-/

set_option autoImplicit false

namespace Timetable

open Text

namespace Expression

/-! ## What a rule does -/

/-- No time of day has been inserted. -/
def IsTimeless (e : Event) : Prop :=
  e.hour = .any ∧ e.minute = .any ∧ e.second = .any

/-- Setting another part leaves the time of day unset. -/
theorem IsTimeless.set {e : Event} (he : IsTimeless e) {c : Component} (s : Selection c.domain)
    (hc : c ≠ .hour ∧ c ≠ .minute ∧ c ≠ .second) : IsTimeless (e.set c s) := by
  obtain ⟨hhour, hminute, hsecond⟩ := hc
  refine ⟨?_, ?_, ?_⟩
  · exact (e.get_set_of_ne s hhour).trans he.1
  · exact (e.get_set_of_ne s hminute).trans he.2.1
  · exact (e.get_set_of_ne s hsecond).trans he.2.2

/-- A list changes the component into which it is inserted. -/
theorem exists_of_insertList {c : Component} {e e' : Event} {l : List Char}
    (h : insertList c e l = .ok e') : ∃ s, e' = e.set c s := by
  have hunit : ∀ c, insertUnit c e l = .ok e' → ∃ s, e' = e.set c s := by
    intro c h
    rw [insertUnit] at h
    split at h
    · next s _ => exact ⟨s, (Except.ok.inj h).symm⟩
    · cases h
  -- days of the week and years are read in their own ways, the others in the common one
  cases c with
  | weekday | year =>
    obtain ⟨is, -, h⟩ := bind_eq_ok.mp h
    obtain ⟨s, -, h⟩ := bind_eq_ok.mp h
    exact ⟨s, (pure_eq_ok.mp h).symm⟩
  | month | day | hour | minute | second => exact hunit _ h

/-- So does reading a list into another part, -/
theorem IsTimeless.of_insertList {e e' : Event} (he : IsTimeless e) {c : Component}
    (hc : c ≠ .hour ∧ c ≠ .minute ∧ c ≠ .second) {l : List Char}
    (h : insertList c e l = .ok e') : IsTimeless e' := by
  obtain ⟨s, rfl⟩ := exists_of_insertList h
  exact he.set s hc

/-- whether or not the list is written. -/
theorem IsTimeless.of_whenWritten {α : Type} {step : Event → α → Except SelectionError Event}
    {e e' : Event} (he : IsTimeless e) {o : Option α}
    (hstep : ∀ a e', step e a = .ok e' → IsTimeless e') (h : whenWritten step e o = .ok e') :
    IsTimeless e' := by
  cases o with
  | none => exact Except.ok.inj h ▸ he
  | some a => exact hstep a e' h

/-- To insert 0 is to insert a list of it. -/
theorem insertZero_eq_insertUnit (c : Component) (e : Event) :
    insertZero e c = insertUnit c e ['0'] := by
  have hread : Item.readList ['0'] = .ok [.number 0] := rfl
  rw [insertZero, insertUnit, Selection.insertText, hread]
  simp only [Selection.insertAll, Selection.insertItem]
  cases (e.get c).insert 0 <;> rfl

/-- The event without a time comes at midnight. -/
theorem foldlM_insertZero {e : Event} (he : IsTimeless e) :
    [Component.hour, .minute, .second].foldlM insertZero e =
      .ok { e with hour := .ofList [0], minute := .ofList [0], second := .ofList [0] } := by
  obtain ⟨w, y, m, d, h, n, s⟩ := e
  obtain ⟨rfl, rfl, rfl⟩ := he
  rfl

section Steps

variable (x : Expression) (t : List Char) (e : Event)

/-- The steps of a rule for days of the week are what `Event.parse` does with them, -/
theorem foldlM_weekdaySteps :
    (if x.outline.weekday then [Step.set .weekday 1] else []).foldlM
      (Step.apply (some t :: x.captures)) e = whenWritten insertWeekdays e x.weekday := by
  cases hw : x.weekday with
  | none => simp [outline, hw, whenWritten, pure, Except.pure]
  | some w => simp [outline, captures, hw, Step.apply, group, whenWritten, insertList]

/-- those for a date are, -/
theorem foldlM_dateSteps (hyear : x.monthDay = none → x.year = none) :
    x.outline.dateSteps.foldlM (Step.apply (some t :: x.captures)) e = (do
      let e ← whenWritten insertYears e x.year
      whenWritten (fun e (m, d) => do insertUnit .day (← insertUnit .month e m) d) e
        x.monthDay) := by
  rcases hmd : x.monthDay with _ | ⟨m, d⟩
  · simp [outline, Outline.dateSteps, hmd, hyear hmd, whenWritten, pure, Except.pure, bind,
      Except.bind]
  -- the number of a group depends on whether days of the week stand in front
  · have hgroups : group (some t :: x.captures) x.outline.dateGroup = x.year ∧
        group (some t :: x.captures) (x.outline.dateGroup + 1) = some m ∧
        group (some t :: x.captures) (x.outline.dateGroup + 2) = some d := by
      cases hw : x.weekday <;>
        simp [outline, Outline.dateGroup, captures, dateCaptures, group, hw, hmd]
    obtain ⟨hy, hm, hd⟩ := hgroups
    have hdate : x.outline.date = true := by simp [outline, hmd]
    simp only [Outline.dateSteps, hdate, if_true, List.foldlM_cons, List.foldlM_nil, bind_pure,
      Step.apply, hy, hm, hd, whenWritten, insertList]

/-- and so are those for the time. Where no time is written, it is set to midnight in both ways. -/
theorem foldlM_timeSteps (he : IsTimeless e) :
    x.outline.timeSteps.foldlM (Step.apply (some t :: x.captures)) e =
      insertTime e x.hourMinute x.second := by
  rcases hhm : x.hourMinute with _ | ⟨h, m⟩
  · have htime : x.outline.time = false := by simp [outline, hhm]
    simp only [Outline.timeSteps, htime, Bool.false_eq_true, if_false, List.foldlM_cons,
      List.foldlM_nil, bind_pure, Step.apply, foldlM_insertZero he, insertTime]
    rfl
  -- the same for the time, which may stand behind a date as well
  · have hgroups : group (some t :: x.captures) x.outline.timeGroup = some h ∧
        group (some t :: x.captures) (x.outline.timeGroup + 1) = some m ∧
        group (some t :: x.captures) (x.outline.timeGroup + 2) = x.second := by
      cases hw : x.weekday <;> rcases hmd : x.monthDay with _ | ⟨m', d⟩ <;>
        simp [outline, Outline.timeGroup, Outline.dateGroup, captures, dateCaptures,
          timeCaptures, group, hw, hmd, hhm]
    obtain ⟨hh, hm, hs⟩ := hgroups
    have htime : x.outline.time = true := by simp [outline, hhm]
    simp only [Outline.timeSteps, htime, if_true, List.foldlM_cons, List.foldlM_nil, bind_pure,
      Step.apply, hh, hm, hs, whenWritten, insertList, insertTime]
    cases x.second with
    | none => simp only [insertZero_eq_insertUnit, Option.getD_none]
    | some s => simp only [Option.getD_some]

end Steps

/-- **A rule does what the expression says.** -/
theorem rule_event {x : Expression} (hx : x.IsFormed) (t : List Char) :
    x.outline.rule.event (some t :: x.captures) = x.event := by
  rw [event_eq, Rule.event, Outline.rule, List.foldlM_append, List.foldlM_append,
    foldlM_weekdaySteps, bind_assoc]
  refine bind_congr_of_ok fun e₁ h₁ => ?_
  rw [foldlM_dateSteps x t e₁ hx.year, bind_assoc]
  refine bind_congr_of_ok fun e₂ h₂ => bind_congr_of_ok fun e₃ h₃ => ?_
  -- the time is inserted last, so nothing of it is there yet
  have he₁ : IsTimeless e₁ := IsTimeless.of_whenWritten ⟨rfl, rfl, rfl⟩
    (fun l e' h => IsTimeless.of_insertList (c := .weekday) ⟨rfl, rfl, rfl⟩ (by decide) h) h₁
  have he₂ : IsTimeless e₂ := he₁.of_whenWritten
    (fun l e' h => he₁.of_insertList (c := .year) (by decide) h) h₂
  have he₃ : IsTimeless e₃ := by
    refine he₂.of_whenWritten (fun date e' h => ?_) h₃
    obtain ⟨m, d⟩ := date
    obtain ⟨e, hm, hd⟩ := bind_eq_ok.mp h
    have he : IsTimeless e := he₂.of_insertList (c := .month) (by decide) hm
    exact he.of_insertList (c := .day) (by decide) hd
  exact foldlM_timeSteps x t e₃ he₃

/-! ## Rules in any order -/

/-- **A search through the rules**, in any order and with any preference, finds what the words of
the text are, or nothing if they are no expression. -/
theorem findSome?_rules {find : Form → List Char → Option Captures} (hfind : Form.IsSearch find)
    {order : List Rule} (horder : order.Perm rules) {t : List Char} {ws : List (List Char)}
    (ht : Joined t ws) :
    (order.findSome? fun r => (find r.form t).map r.event) =
      (ofWords? ws).map Expression.event := by
  have hrules : ∀ r, r ∈ order ↔ ∃ o ∈ Outline.all, o.rule = r := by
    intro r
    rw [horder.mem_iff, rules_eq, List.mem_map]
  cases hx : ofWords? ws with
  | none =>
    -- a text that fits a rule has the words of an expression
    refine List.findSome?_eq_none_iff.mpr fun r hr => ?_
    obtain ⟨o, ho, rfl⟩ := (hrules r).mp hr
    rw [Option.map_eq_none_iff, Option.eq_none_iff_forall_ne_some]
    intro cs hcs
    obtain ⟨x, hformed, -, hxt, -⟩ := (fits_rule_iff ho).mp (hfind.sound hcs)
    rw [← ht.spaced.words_eq, hxt.spaced.words_eq, ofWords?_parts hformed] at hx
    cases hx
  | some x =>
    obtain ⟨hformed, rfl⟩ := ofWords?_eq_some_iff.mp hx
    have hfits : x.outline.rule.form.Fits t (some t :: x.captures) :=
      (fits_rule_iff hformed.outline_mem_all).mpr ⟨x, hformed, rfl, ht, rfl⟩
    have hvalue : ∀ r ∈ order, ∀ v, (find r.form t).map r.event = some v → v = x.event := by
      intro r hr v hv
      obtain ⟨o, ho, rfl⟩ := (hrules r).mp hr
      obtain ⟨cs, hcs, rfl⟩ := Option.map_eq_some_iff.mp hv
      obtain ⟨rfl, rfl⟩ := eq_of_fits ho hformed.outline_mem_all (hfind.sound hcs) hfits
      exact rule_event hformed t
    cases hfound : order.findSome? fun r => (find r.form t).map r.event with
    | none =>
      have hmem := (hrules _).mpr ⟨x.outline, hformed.outline_mem_all, rfl⟩
      have hnone := List.findSome?_eq_none_iff.mp hfound _ hmem
      have hsome := hfind.eq_some hfits fun ds h =>
        (eq_of_fits hformed.outline_mem_all hformed.outline_mem_all h hfits).2
      rw [hsome] at hnone
      cases hnone
    | some v =>
      obtain ⟨r, hr, hv⟩ := List.exists_of_findSome?_eq_some hfound
      exact congrArg some (hvalue r hr v hv)

end Expression

/-- A text with a blank in it is no keyword. -/
theorem Keyword.ofName?_eq_none {s : List Char} {c : Char} (hs : c ∈ s) (hc : isBlank c = true) :
    ofName? (String.ofList (s.map lowerLetter)) = none := by
  have hnames : ∀ k : Keyword, ∀ d ∈ k.name.toList, isBlank d = false := by
    intro k
    cases k <;> decide
  -- the names of keywords have no blank, and no other character becomes one in small letters
  have hkelvin : c ≠ '\u212A' := by
    rintro rfl
    exact absurd hc (by decide)
  have hupper : ¬ c.isUpper = true := by
    intro h
    have hno := isBlank_of_class (p := Char.isUpper) (by decide) h
    rw [hc] at hno
    exact Bool.noConfusion hno
  have hlower : lowerLetter c = c := by
    simp [lowerLetter, hkelvin, Char.toLower_eq_of_not_isUpper hupper]
  refine Option.eq_none_iff_forall_ne_some.mpr fun k hk => ?_
  have hname := congrArg String.toList (ofName?_eq_some_iff.mp hk)
  rw [String.toList_ofList] at hname
  have hmem : c ∈ k.name.toList := hname ▸ hlower ▸ List.mem_map_of_mem hs
  rw [hnames k c hmem] at hc
  exact Bool.noConfusion hc

namespace Event

open Expression

/-- The words of a text are read as what the expression is that they are, if they are one. -/
theorem read_eq_ofFound (text : String) (ws : List (List Char)) :
    parse.read text ws = ofFound text ((ofWords? ws).map Expression.event) := by
  rw [parse.read]
  cases ofWords? ws with
  | none => rfl
  | some x =>
    simp only [Option.map_some]
    cases x.event <;> rfl

/-- Rules in any order, and a search with any preference, read a text as it is read. -/
theorem parseBy_eq_parse {find : Form → List Char → Option Captures} (hfind : Form.IsSearch find)
    {order : List Rule} (horder : order.Perm rules) (text : String) :
    parseBy find order text = parse text := by
  obtain ⟨hwords, htrim⟩ | ⟨hwords, ht⟩ := trim_eq_nil_or_joined text.toList
  · rw [parseBy, parse, htrim, hwords]
    rfl
  · have hne : (trim text.toList).isEmpty = false := by
      obtain ⟨c, r, -, hhead⟩ := ht.exists_head
      rw [hhead]
      rfl
    rw [parseBy, hne]
    simp only [Bool.false_eq_true, if_false, findSome?_rules hfind horder ht, ← read_eq_ofFound]
    rw [parse]
    generalize words text.toList = ws at ht
    generalize trim text.toList = t at ht
    cases ht with
    | one hw => rfl
    | @cons w b t ws hw hb ht =>
      -- there is a second word, so there is a blank between
      obtain ⟨c, r, hc, rfl⟩ := hb.exists_head
      obtain ⟨v, vs, rfl⟩ := List.exists_cons_of_ne_nil ht.ne_nil
      rw [Keyword.ofName?_eq_none (c := c) (by simp) hc]

/-- Reading is trying the rules in their order, each with the search that prefers to take much. -/
theorem parse_eq_parseBy (text : String) : parse text = parseBy Form.greedy rules text :=
  (parseBy_eq_parse Form.isSearch_greedy (.refl rules) text).symm

/-- **The order of the rules does not matter.** No text fits two of the rules, and a text that fits
one has the same captures in whatever way it fits. So the rules, tried in any order by a search with
any preference, read every text as the same event, or refuse it with the same error. -/
theorem rules_any_order :
    (rules.Pairwise fun r r' => ∀ t cs cs', r.form.Fits t cs → ¬ r'.form.Fits t cs') ∧
    (∀ r ∈ rules, ∀ t cs cs', r.form.Fits t cs → r.form.Fits t cs' → cs = cs') ∧
    ∀ find, Form.IsSearch find → ∀ order : List Rule, order.Perm rules → ∀ text,
      parseBy find order text = parse text := by
  refine ⟨?_, ?_, fun find hfind order horder => parseBy_eq_parse hfind horder⟩
  · have hdistinct : Outline.all.Pairwise (· ≠ ·) := by decide
    rw [rules_eq, List.pairwise_map]
    refine hdistinct.imp_of_mem fun ho ho' hne t cs cs' h h' => ?_
    exact hne (eq_of_fits ho ho' h h').1
  · intro r hr t cs cs' h h'
    rw [rules_eq, List.mem_map] at hr
    obtain ⟨o, ho, rfl⟩ := hr
    exact (eq_of_fits ho ho h h').2

/-- A text with all three parts fits the first rule and none of the others, and in one way. It is
read as the same event when this rule is tried last and the search prefers to take little. -/
theorem rules_any_order_reversed :
    let text := "Mon *-10-1 8:05"
    let cs : Captures :=
      [some text.toList, some ['M', 'o', 'n'], some ['*'], some ['1', '0'], some ['1'],
        some ['8'], some ['0', '5'], none]
    ∃ r rs, rules = r :: rs ∧ r.form.Fits text.toList cs ∧
      (∀ r' ∈ rs, ∀ cs', ¬ r'.form.Fits text.toList cs') ∧
      (∀ cs', r.form.Fits text.toList cs' → cs' = cs) ∧
      parseBy Form.reluctant rules.reverse text = .ok
        { weekday := .one 1, month := .one 10, day := .one 1, hour := .one 8, minute := .one 5,
          second := .one 0 } := by
  intro text cs
  obtain ⟨hdisjoint, hunique, hread⟩ := rules_any_order
  have hfound : Form.reluctant (Outline.rule ⟨true, true, true⟩).form text.toList = some cs := by
    decide
  have hfits := Form.isSearch_reluctant.sound hfound
  refine ⟨Outline.rule ⟨true, true, true⟩, _, rules_eq, hfits, ?_, ?_, ?_⟩
  · intro r' hr' cs'
    exact (List.pairwise_cons.mp hdisjoint).1 r' hr' _ _ _ hfits
  · exact fun cs' h => hunique _ (by simp [rules_eq, Outline.all]) _ _ _ h hfits
  · rw [hread _ Form.isSearch_reluctant _ (List.reverse_perm rules)]
    decide

end Event

end Timetable
