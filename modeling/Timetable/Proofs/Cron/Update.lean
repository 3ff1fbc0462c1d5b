import Mathlib.Data.List.Flatten
import Mathlib.Logic.Relation
import Timetable.Cron.Update
import Timetable.Proofs.Cron.Unmarked

/-!
What updates make of a crontab.

An update replaces the body of the own section and nothing else: of the body it
leaves lines out, and behind it it puts new ones. Neither can make a marker. A
marker is a line, so leaving out lines makes none, and a line of an entry has a
tab in it, which no marker has, so none comes to stand across the place where it
is put. So whatever updates do in any number, the first markers stay where they
are, and what is outside of them stays as it is.

What remains of the body depends on the entries alone, and an update takes out
what an earlier one with the same entries has put in. So the last of several
updates decides alone.
-/

set_option autoImplicit false

namespace Timetable

/-- An entry whose line is one line and is found again. -/
structure Entry.IsRegular (e : Entry) : Prop where
  event : e.event.Reached
  commandLine : e.commandLine ≠ ""
  singleLine : e.IsSingleLine

namespace Cron

open Text OwnSection

/-- What an update puts behind the body of the section. -/
def fresh (es : List Entry) (add : Bool) : List Char :=
  if add then (Entry.linesOf es).toList else []

/-- An update in the parts of the crontab, whether or not there is a section yet. -/
theorem update_eq (es : List Entry) (add : Bool) (t : List Char) :
    update es add t =
      ({ ofText t with
          body := (Entry.removeAll es (ofText t).body).1 ++ fresh es add : OwnSection }.assemble,
        (Entry.removeAll es (ofText t).body).2) := by
  -- without a section the body is empty, and there is nothing to take out
  cases hfind : find? t with
  | some o => simp [update, ofText, hfind, fresh]
  | none => simp [update, ofText, hfind, fresh, Entry.removeAll_nil]

/-! ## One update -/

/-- **An update keeps the parts in their places.** The first markers of the result are around the
new body, and what is outside of them is as before. -/
theorem find?_update {es : List Entry} (hes : IsUnmarked es) (add : Bool) {t : List Char}
    (ht : (ofText t).IsProper) :
    find? (update es add t).1 = some { ofText t with
      body := (Entry.removeAll es (ofText t).body).1 ++ fresh es add } := by
  obtain ⟨ks, hks, hkept⟩ := Entry.removeAll_sublist es (ofText t).body
  have hbody : ¬ endMarker <:+: (Entry.removeAll es (ofText t).body).1 := by
    rw [hkept]
    exact isLineMark_endMarker.not_infix_of_sublist ht.body hks
  -- leaving lines out made no end marker, and putting lines in makes none
  rw [update_eq]
  refine find?_assemble ⟨ht.before, ?_⟩
  cases add with
  | false => simpa [fresh] using hbody
  | true => exact hes.not_infix_append hbody

/-- The parts that another update starts from. -/
theorem ofText_update {es : List Entry} (hes : IsUnmarked es) (add : Bool) {t : List Char}
    (ht : (ofText t).IsProper) :
    ofText (update es add t).1 = { ofText t with
      body := (Entry.removeAll es (ofText t).body).1 ++ fresh es add } := by
  rw [ofText, find?_update hes add ht, Option.getD_some]

/-- Entries that are only to go leave some of the characters of a crontab with a section. -/
theorem update_sublist (es : List Entry) {o : OwnSection} (ho : o.IsProper) :
    (update es false o.assemble).1.Sublist o.assemble := by
  obtain ⟨ks, hks, hkept⟩ := Entry.removeAll_sublist es o.body
  have hbody : ks.flatten.Sublist o.body := by
    simpa only [flatten_lines] using hks.flatten
  rw [update_eq, ofText_assemble ho, hkept]
  simp only [fresh, Bool.false_eq_true, if_false, List.append_nil, assemble]
  exact (((List.Sublist.refl _).append hbody).append (List.Sublist.refl _)).append
    (List.Sublist.refl _)

/-! ## Runs of updates -/

/-- A text that is the output of an update of another one. -/
def IsUpdate (t c : List Char) : Prop :=
  ∃ es add, IsUnmarked es ∧ c = (update es add t).1

theorem IsUpdate.find?_eq {t c before after : List Char} (h : IsUpdate t c)
    (ht : Outside t before after) : ∃ body, find? c = some ⟨before, body, after⟩ := by
  obtain ⟨es, add, hes, rfl⟩ := h
  obtain ⟨body, hparts, hproper⟩ := ht.ofText_eq
  rw [find?_update hes add hproper, hparts]
  exact ⟨_, rfl⟩

/-- What is outside of the section before an update is outside of it afterwards, so the next update
finds it there. -/
theorem IsUpdate.outside {t c before after : List Char} (h : IsUpdate t c)
    (ht : Outside t before after) : Outside c before after := by
  obtain ⟨body, hfind⟩ := h.find?_eq ht
  obtain ⟨rfl, hproper⟩ := find?_eq_some_iff.mp hfind
  exact .marked hproper

/-- **Text outside of the section is never touched.** After any run of updates there is a section,
and what is before and after it is what was there at the start. -/
theorem find?_of_updates {t c before after : List Char} (ht : Outside t before after)
    (hrun : Relation.TransGen IsUpdate t c) :
    ∃ body, find? c = some ⟨before, body, after⟩ := by
  -- the result of an update is again a text with the same outside, which the next one needs
  have hout : Outside c before after ∧ ∃ body, find? c = some ⟨before, body, after⟩ := by
    induction hrun with
    | single h => exact ⟨h.outside ht, h.find?_eq ht⟩
    | tail _ h ih => exact ⟨h.outside ih.1, h.find?_eq ih.1⟩
  exact hout.2

/-- A crontab without a section, and without a line end, in which a line is put and taken out. -/
theorem find?_of_updates_mailto :
    ∃ c, Relation.TransGen IsUpdate "MAILTO=ops".toList c ∧
      ∃ body, find? c = some ⟨"MAILTO=ops\n".toList, body, []⟩ := by
  have hes : IsUnmarked [{ event := .anytime, commandLine := "backup" }] := by decide
  have ht : Outside "MAILTO=ops".toList "MAILTO=ops\n".toList [] :=
    .unmarked (by decide)
  -- once with the line and once without it
  have hrun : Relation.TransGen IsUpdate "MAILTO=ops".toList _ :=
    .tail (.single ⟨_, true, hes, rfl⟩) ⟨_, false, hes, rfl⟩
  exact ⟨_, hrun, find?_of_updates ht hrun⟩

/-! ## The lines of the body -/

/-- The lines that an update leaves of some others. -/
def kept (es : List Entry) (ls : List (List Char)) : List (List Char) :=
  ls.filter fun l => !es.any (·.owns l)

/-- The lines that an update puts in. -/
def added (es : List Entry) (add : Bool) : List (List Char) :=
  if add then es.map (·.line.toList) else []

theorem fresh_eq (es : List Entry) (add : Bool) : fresh es add = (added es add).flatten := by
  cases add with
  | false => rfl
  | true => exact Entry.toList_linesOf es

section Lines

variable {es : List Entry} {t : List Char}

/-- Every line that is put in is the line of an entry. -/
theorem exists_of_mem_added {add : Bool} {l : List Char} (hl : l ∈ added es add) :
    ∃ e ∈ es, e.line.toList = l := by
  rw [added] at hl
  split at hl
  · exact List.mem_map.mp hl
  · simp at hl

/-- The entries own the lines that are put in for them. -/
theorem any_owns_of_mem_added (hes : ∀ e ∈ es, e.IsRegular) {add : Bool} {l : List Char}
    (hl : l ∈ added es add) : es.any (·.owns l) = true := by
  obtain ⟨e, he, rfl⟩ := exists_of_mem_added hl
  exact List.any_eq_true.mpr ⟨e, he, Entry.owns_line (hes e he).event (hes e he).commandLine⟩

/-- Of what an update leaves and puts in, another one with the same entries leaves what the first
one has left. -/
theorem kept_kept_append_added (hes : ∀ e ∈ es, e.IsRegular) (ls : List (List Char)) (add : Bool) :
    kept es (kept es ls ++ added es add) = kept es ls := by
  -- the lines that were put in are owned by the entries they were put in for
  have hgone : kept es (added es add) = [] := by
    refine List.filter_eq_nil_iff.mpr fun l hl => ?_
    simp [any_owns_of_mem_added hes hl]
  -- those that were left are owned by none of them
  have hleft : kept es (kept es ls) = kept es ls := by simp [kept, List.filter_filter]
  calc kept es (kept es ls ++ added es add)
      = kept es (kept es ls) ++ kept es (added es add) := List.filter_append _ _
    _ = kept es ls := by rw [hleft, hgone, List.append_nil]

/-- What the other one takes out is what the first one has put in. -/
theorem countP_kept_append_added (hes : ∀ e ∈ es, e.IsRegular) (ls : List (List Char))
    (add : Bool) :
    (kept es ls ++ added es add).countP (fun l => es.any (·.owns l)) =
      if add then es.length else 0 := by
  have hkept : (kept es ls).countP (fun l => es.any (·.owns l)) = 0 := by
    refine List.countP_eq_zero.mpr fun l hl => ?_
    simpa [kept] using (List.mem_filter.mp hl).2
  have hadded : (added es add).countP (fun l => es.any (·.owns l)) = (added es add).length :=
    List.countP_eq_length.mpr fun l hl => any_owns_of_mem_added hes hl
  rw [List.countP_append, hkept, hadded, zero_add]
  cases add <;> simp [added]

/-- An update in the lines of the body. -/
theorem update_eq_of_singleLine (hes : ∀ e ∈ es, e.IsSingleLine) (add : Bool) (t : List Char) :
    update es add t =
      ({ ofText t with
          body := (kept es (lines (ofText t).body) ++ added es add).flatten : OwnSection }.assemble,
        (lines (ofText t).body).countP fun l => es.any (·.owns l)) := by
  rw [update_eq, Entry.removeAll_eq hes, fresh_eq, List.flatten_append]
  rfl

/-- The lines that an update leaves in the body, and those that it puts there. -/
theorem lines_body_update (hes : ∀ e ∈ es, e.IsSingleLine) (hun : IsUnmarked es) (add : Bool)
    (ht : IsTidy t) :
    lines (ofText (update es add t).1).body =
      kept es (lines (ofText t).body) ++ added es add := by
  have hadded : IsLines (added es add) := by
    cases add with
    | false => exact isLines_nil
    | true => exact Entry.isLines_map_line hes
  have hkept : (kept es (lines (ofText t).body)).Sublist (lines (ofText t).body) :=
    List.filter_sublist
  -- the last line that is left has an end, so what is put in begins a line of its own
  have hlines : IsLines (kept es (lines (ofText t).body) ++ added es add) :=
    ((isLines_lines _).sublist hkept).append hadded fun l hl =>
      endsLine_iff.mp ht.endsLine l (hkept.subset hl)
  rw [ofText_update hun add ht.isProper, Entry.removeAll_eq hes, fresh_eq, ← List.flatten_append]
  exact lines_flatten hlines

/-- An update keeps a crontab tidy: what it puts in ends where a line ends. -/
theorem isTidy_update (hes : ∀ e ∈ es, e.IsSingleLine) (hun : IsUnmarked es) (add : Bool)
    (ht : IsTidy t) : IsTidy (update es add t).1 := by
  obtain ⟨hparts, hproper⟩ := find?_eq_some_iff.mp (find?_update hun add ht.isProper)
  refine .inr ⟨_, hproper, ?_, hparts⟩
  have hlines := lines_body_update hes hun add ht
  rw [ofText_update hun add ht.isProper] at hlines
  rw [endsLine_iff, hlines]
  intro l hl
  -- a line that was left ended before, and a line of an entry ends by itself
  obtain hl | hl := List.mem_append.mp hl
  · exact endsLine_iff.mp ht.endsLine l (List.mem_of_mem_filter hl)
  · obtain ⟨e, -, rfl⟩ := exists_of_mem_added hl
    exact e.newline_suffix_line

/-- Entries that own the same lines and have the same lines make the same updates. -/
theorem update_congr {es' : List Entry} (hes : ∀ e ∈ es, e.IsSingleLine)
    (hes' : ∀ e ∈ es', e.IsSingleLine)
    (howns : ∀ l, es.any (·.owns l) = es'.any (·.owns l))
    (hlines : es.map (·.line.toList) = es'.map (·.line.toList)) (add : Bool) :
    update es add t = update es' add t := by
  rw [update_eq_of_singleLine hes, update_eq_of_singleLine hes']
  simp only [kept, added, howns, hlines]

end Lines

/-! ## Several updates -/

/-- An update after another one, in the lines of the body that the first one has found. -/
theorem update_update {es es' : List Entry} (hes : ∀ e ∈ es, e.IsSingleLine)
    (hun : IsUnmarked es) (hes' : ∀ e ∈ es', e.IsSingleLine) (add add' : Bool) {t : List Char}
    (ht : IsTidy t) :
    update es' add' (update es add t).1 =
      ({ ofText t with
          body := (kept es' (kept es (lines (ofText t).body) ++ added es add) ++
            added es' add').flatten : OwnSection }.assemble,
        (kept es (lines (ofText t).body) ++ added es add).countP fun l =>
          es'.any (·.owns l)) := by
  rw [update_eq_of_singleLine hes', lines_body_update hes hun add ht,
    ofText_update hun add ht.isProper]

/-- The parts of the crontab after two updates. -/
theorem find?_update_update {es es' : List Entry} (hes : ∀ e ∈ es, e.IsSingleLine)
    (hun : IsUnmarked es) (hes' : ∀ e ∈ es', e.IsSingleLine) (hun' : IsUnmarked es')
    (add add' : Bool) {t : List Char} (ht : IsTidy t) :
    find? (update es' add' (update es add t).1).1 = some { ofText t with
      body := (kept es' (kept es (lines (ofText t).body) ++ added es add) ++
        added es' add').flatten } := by
  rw [find?_update hun' add' (isTidy_update hes hun add ht).isProper, Entry.removeAll_eq hes',
    lines_body_update hes hun add ht, ofText_update hun add ht.isProper, fresh_eq es',
    List.flatten_append]
  rfl

/-- The lines of the section after two updates. -/
theorem isLines_update_update {es es' : List Entry} (hes : ∀ e ∈ es, e.IsSingleLine)
    (hun : IsUnmarked es) (hes' : ∀ e ∈ es', e.IsSingleLine) (hun' : IsUnmarked es')
    (add add' : Bool) {t : List Char} (ht : IsTidy t) :
    IsLines (kept es' (kept es (lines (ofText t).body) ++ added es add) ++ added es' add') := by
  have htidy := isTidy_update hes hun add ht
  rw [← lines_body_update hes hun add ht, ← lines_body_update hes' hun' add' htidy]
  exact isLines_lines _

/-- **The last update decides.** An update takes out all that an earlier one with the same entries
has put in, and leaves what that one would have found. -/
theorem update_last {es : List Entry} (hes : ∀ e ∈ es, e.IsRegular) (hun : IsUnmarked es)
    (first last : Bool) {t : List Char} (ht : IsTidy t) :
    update es last (update es first t).1 =
      ((update es last t).1, if first then es.length else 0) := by
  have hsingle : ∀ e ∈ es, e.IsSingleLine := fun e he => (hes e he).singleLine
  rw [update_update hsingle hun hsingle first last ht, update_eq_of_singleLine hsingle last,
    kept_kept_append_added hes, countP_kept_append_added hes]

/-- What two schedules of one job put in is taken out, and counted. -/
theorem update_last_two_schedules :
    let e : Entry := { profile := "home", command := "backup", event := .anytime,
                       commandLine := "wrap --config c run-schedule backup@home" }
    let es := [e, { e with event := Keyword.daily.event }]
    update es false (update es true "MAILTO=ops".toList).1 =
      ((update es false "MAILTO=ops".toList).1, 2) := by
  intro e es
  have hes : ∀ e ∈ es, e.IsRegular := by
    simp only [es, List.mem_cons, List.not_mem_nil, or_false, forall_eq_or_imp, forall_eq]
    exact ⟨⟨Event.reached_anytime, by decide, by decide⟩,
      ⟨Keyword.event_reached _, by decide, by decide⟩⟩
  have hun : IsUnmarked es := by decide
  exact update_last hes hun true false (.inl (by decide))

/-- A crontab has an own section, and none of the entries owns a line of it. -/
def IsFreeOf (es : List Entry) (c : List Char) : Prop :=
  ∃ o, find? c = some o ∧ ∀ l ∈ lines o.body, es.any (·.owns l) = false

/-- Nothing is put in, so a crontab is free of some entries after the others are taken out exactly
if no line that these leave is owned. -/
theorem isFreeOf_update_iff {es fs : List Entry} (hes : ∀ e ∈ es, e.IsSingleLine)
    (hun : IsUnmarked es) {t : List Char} (ht : IsTidy t) :
    IsFreeOf fs (update es false t).1 ↔
      ∀ l ∈ kept es (lines (ofText t).body), fs.any (·.owns l) = false := by
  have hlines := lines_body_update hes hun false ht
  rw [ofText_update hun false ht.isProper] at hlines
  have hnothing : added es false = [] := rfl
  rw [IsFreeOf, find?_update hun false ht.isProper]
  simp only [Option.some.injEq, exists_eq_left', hlines, hnothing, List.append_nil]

/-- **Entries that take out what others have put in.** They take out as many lines as were put in
and leave none that either own exactly when they own all that were put in, and of those that were
there before none that the others do not own. -/
theorem update_removes_iff {es es' : List Entry} (hes : ∀ e ∈ es, e.IsRegular)
    (hun : IsUnmarked es) (hes' : ∀ e ∈ es', e.IsSingleLine) (hun' : IsUnmarked es')
    {t : List Char} (ht : IsTidy t) :
    ((update es' false (update es true t).1).2 = es.length ∧
      IsFreeOf (es ++ es') (update es' false (update es true t).1).1) ↔
      (∀ e ∈ es, es'.any (·.owns e.line.toList) = true) ∧
        ∀ l ∈ lines (ofText t).body, es'.any (·.owns l) = true → es.any (·.owns l) = true := by
  have hsingle : ∀ e ∈ es, e.IsSingleLine := fun e he => (hes e he).singleLine
  have hcount : (update es' false (update es true t).1).2 =
      (kept es (lines (ofText t).body)).countP (fun l => es'.any (·.owns l)) +
        (added es true).countP (fun l => es'.any (·.owns l)) := by
    rw [update_update hsingle hun hes' true false ht, List.countP_append]
  have hlength : (added es true).length = es.length := List.length_map _
  rw [isFreeOf_update_iff hes' hun' (isTidy_update hsingle hun true ht),
    lines_body_update hsingle hun true ht, hcount]
  constructor
  · rintro ⟨hnumber, hfree⟩
    -- a line that was put in and is still there would be one that the first entries own
    have hall : ∀ l ∈ added es true, es'.any (·.owns l) = true := by
      intro l hl
      by_contra hown
      have hnone := hfree l
        (List.mem_filter.mpr ⟨List.mem_append_right _ hl, by simpa using hown⟩)
      rw [List.any_append, any_owns_of_mem_added hes hl] at hnone
      exact Bool.noConfusion hnone
    -- so these make up the whole number, and none of the other lines has gone
    rw [List.countP_eq_length.mpr hall, hlength, Nat.add_eq_right, List.countP_eq_zero] at hnumber
    refine ⟨fun e he => hall _ (List.mem_map_of_mem he), fun l hl hown => ?_⟩
    by_contra hkeep
    exact hnumber l (List.mem_filter.mpr ⟨hl, by simpa using hkeep⟩) hown
  · rintro ⟨hlines, hold⟩
    have hall : ∀ l ∈ added es true, es'.any (·.owns l) = true := by
      intro l hl
      obtain ⟨e, he, rfl⟩ := exists_of_mem_added hl
      exact hlines e he
    have hkept : ∀ l ∈ kept es (lines (ofText t).body), ¬ es'.any (·.owns l) = true := by
      intro l hl hown
      obtain ⟨hl, hkeep⟩ := List.mem_filter.mp hl
      simp [hold l hl hown] at hkeep
    refine ⟨?_, fun l hl => ?_⟩
    · rw [List.countP_eq_length.mpr hall, List.countP_eq_zero.mpr hkept, hlength, zero_add]
    · obtain ⟨hl, hkeep'⟩ := List.mem_filter.mp hl
      have hkeep : es'.any (·.owns l) = false := by simpa using hkeep'
      obtain hl | hl := List.mem_append.mp hl
      · have hkeep₁ : es.any (·.owns l) = false := by simpa using (List.mem_filter.mp hl).2
        rw [List.any_append, hkeep₁, hkeep, Bool.or_false]
      · rw [hall l hl] at hkeep
        exact Bool.noConfusion hkeep

end Cron

end Timetable
