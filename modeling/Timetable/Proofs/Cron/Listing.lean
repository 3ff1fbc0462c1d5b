import Timetable.Proofs.Cron.Fields
import Timetable.Proofs.Cron.Line
import Timetable.Proofs.Cron.Removal

/-!
Reading the entries of a section.

A section is read line by line. So what is put behind lines that have their line
ends is read after them and does not change what is read from them. The blanks
around a line are dropped; a written line has none.
-/

set_option autoImplicit false

namespace Timetable

/-- An entry as it is read from the line of another one. -/
structure Entry.IsReadOf (e' e : Entry) : Prop where
  identity : e'.toIdentity = e.toIdentity
  event : e'.event.IsReadOf e.event
  commandLine : e'.commandLine = e.commandLine
  workDir : e'.workDir = e.workDir
  user : e'.user = e.user

namespace Cron

open Text

/-! ## Line by line -/

/-- What is read from a line: its entry, unless it is blank, a comment, or no entry. -/
def lineEntries (line : List Char) : List Entry :=
  if (trim line).isEmpty || (trim line).head? == some '#' then []
  else
    match readLine (trim line) with
    | .ok e => e.toList
    | .error _ => []

theorem readSection_eq (body : List Char) :
    readSection body = (body.splitOn '\n').flatMap lineEntries := by
  rw [readSection, List.filterMap_filter, List.filterMap_map, List.filterMap_eq_flatMap_toList]
  refine congrArg (List.flatMap · _) (funext fun l => ?_)
  simp only [Function.comp_apply, lineEntries]
  -- the two conditions say the same, and an error is no entry in either
  cases hempty : (trim l).isEmpty <;> cases hhead : (trim l).head? == some '#' <;>
    simp [bne, hhead]
  cases readLine (trim l) with
  | ok e => rfl
  | error _ => rfl

theorem readSection_append_newline {a : List Char} (ha : '\n' ∉ a) (b : List Char) :
    readSection (a ++ '\n' :: b) = lineEntries a ++ readSection b := by
  rw [readSection_eq, readSection_eq, splitOn_append_cons ha, List.flatMap_cons]

theorem readSection_nil : readSection [] = [] := by
  rw [readSection_eq, splitOn_of_notMem (List.not_mem_nil)]
  rfl

/-- **What is put behind whole lines is read after them.** -/
theorem readSection_append {a : List Char} (ha : EndsLine a) (b : List Char) :
    readSection (a ++ b) = readSection a ++ readSection b := by
  induction a using line_induction with
  | last a hnone =>
    obtain rfl | hend := ha
    · rw [readSection_nil, List.nil_append, List.nil_append]
    · exact absurd (hend.subset (by simp)) hnone
  | line a c hnone ih =>
    have hc : EndsLine c := by
      rw [List.append_cons] at ha
      exact ha.of_append
    rw [List.append_assoc, List.cons_append, readSection_append_newline hnone,
      readSection_append_newline hnone, ih hc, List.append_assoc]

/-- Removal leaves a text that ends where a line ends. -/
theorem endsLine_removeAll (es : List Entry) {body : List Char} (hbody : EndsLine body) :
    EndsLine (Entry.removeAll es body).1 := by
  obtain ⟨ks, hks, hkept⟩ := Entry.removeAll_sublist es body
  rw [hkept, endsLine_iff, lines_flatten ((isLines_lines body).sublist hks)]
  exact fun l hl => endsLine_iff.mp hbody l (hks.subset hl)

/-- Written lines are read one by one. -/
theorem readSection_linesOf {es : List Entry} (hes : ∀ e ∈ es, e.IsSingleLine) :
    readSection (Entry.linesOf es).toList =
      es.flatMap fun e => lineEntries ((timeFields e.event).toList ++ '\t' :: e.column.toList) := by
  rw [Entry.toList_linesOf]
  induction es with
  | nil => exact readSection_nil
  | cons e es ih =>
    have hbody := Entry.newline_notMem_line (hes e List.mem_cons_self).notMem_column
    rw [List.map_cons, List.flatten_cons, Entry.toList_line_eq_append, List.append_assoc,
      List.singleton_append, readSection_append_newline hbody,
      ih fun e' he' => hes e' (List.mem_cons_of_mem e he'), List.flatMap_cons]

/-- A written line is read as it stands, without its line end. -/
theorem lineEntries_eq {e : Entry} (he : e.event.Reached) {x : List Char} {c : Char}
    (hcolumn : e.column.toList = x ++ [c]) (hc : isBlank c = false) {r : Entry}
    (hread : readLine ((timeFields e.event).toList ++ '\t' :: e.column.toList) = .ok (some r)) :
    lineEntries ((timeFields e.event).toList ++ '\t' :: e.column.toList) = [r] := by
  obtain ⟨d, rest, hd, htime⟩ := exists_timeFields_eq_cons he
  have hstart : ∃ t, d :: t = (timeFields e.event).toList ++ '\t' :: e.column.toList :=
    ⟨_, by rw [htime, List.cons_append]⟩
  have hend : ∃ t, t ++ [c] = (timeFields e.event).toList ++ '\t' :: e.column.toList :=
    ⟨(timeFields e.event).toList ++ '\t' :: x, by simp [hcolumn]⟩
  have htrim := trim_eq_self (isBlank_of_isTimeChar hd) hc hstart hend
  have hhash : d ≠ '#' := by
    rintro rfl
    exact absurd hd (by decide)
  rw [lineEntries, htrim, hread]
  simp [htime, hhash]

end Cron

end Timetable
