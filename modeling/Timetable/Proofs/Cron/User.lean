import Timetable.Proofs.Cron.Update

/-!
The same entries with other users.

A crontab with a user column has the entries of a store written with users that
the store does not have. A user stands in the command column, and there are two
that are not written: none, and the one that stands for the current user. So the
lines of an entry with two users agree exactly when what is written for the two
agrees, and then the entry owns the same lines with either.
-/

set_option autoImplicit false

namespace Timetable

namespace Entry

/-- An entry with another user. -/
def withUser (e : Entry) (user : String) : Entry :=
  { e with user }

/-- Nothing is written for no user, and nothing for the current one. -/
theorem userText_eq_empty_iff {user : String} :
    userText user = "" ↔ user = "" ∨ user = currentUser := by
  by_cases h : user = "" ∨ user = currentUser
  · obtain rfl | rfl := h <;> simp [userText]
  · obtain ⟨hempty, hcurrent⟩ := not_or.mp h
    simp [userText, hempty, hcurrent]

/-- Two users give one column exactly if the same is written for them, -/
theorem column_withUser_eq_iff {e : Entry} {u v : String} :
    (e.withUser u).column = (e.withUser v).column ↔ userText u = userText v := by
  rw [column_eq, column_eq]
  exact String.append_left_inj _

/-- and one line exactly then. -/
theorem line_withUser_eq_iff {e : Entry} {u v : String} :
    (e.withUser u).line = (e.withUser v).line ↔ userText u = userText v := by
  have htime : (e.withUser u).event = (e.withUser v).event := rfl
  rw [line, line, htime, String.append_left_inj, String.append_right_inj, column_withUser_eq_iff]

/-- An entry owns the same lines with users for which the same is written. -/
theorem owns_withUser_eq {e : Entry} {u v : String} (h : userText u = userText v) :
    (e.withUser u).owns = (e.withUser v).owns := by
  have hcolumn := column_withUser_eq_iff (e := e).mpr h
  have hpattern : (e.withUser u).linePattern = (e.withUser v).linePattern := by
    rw [linePattern, linePattern, columnPattern, columnPattern, hcolumn]
    rfl
  funext l
  rw [owns, owns, hpattern]

end Entry

namespace Cron

open Text OwnSection

variable {es : List Entry} {u v : Entry → String}

/-- Entries with users that are chosen for them. -/
def withUsers (user : Entry → String) (es : List Entry) : List Entry :=
  es.map fun e => e.withUser (user e)

/-- The lines of all entries are the same exactly if that holds of each. -/
theorem map_line_withUsers_eq_iff :
    (withUsers u es).map (·.line.toList) = (withUsers v es).map (·.line.toList) ↔
      ∀ e ∈ es, Entry.userText (u e) = Entry.userText (v e) := by
  simp only [withUsers, List.map_map, List.map_inj_left, Function.comp_apply, String.toList_inj,
    Entry.line_withUser_eq_iff]

/-- Then the entries own the same lines as well, because a line is owned by its identity or by the
column. -/
theorem any_owns_withUsers_eq (h : ∀ e ∈ es, Entry.userText (u e) = Entry.userText (v e))
    (l : List Char) : (withUsers u es).any (·.owns l) = (withUsers v es).any (·.owns l) := by
  -- entry by entry the same lines are owned
  have howns : (withUsers u es).map Entry.owns = (withUsers v es).map Entry.owns := by
    simpa [withUsers] using fun e he => Entry.owns_withUser_eq (h e he)
  have hany (es : List Entry) : es.any (·.owns l) = (es.map Entry.owns).any (· l) := by
    simp [List.any_map, Function.comp_def]
  rw [hany, howns, ← hany]

/-- **A second update with other users.** It changes nothing exactly when the same is written for
the users of either. -/
theorem update_withUsers_eq_iff (hes : ∀ e ∈ withUsers u es, e.IsRegular)
    (hun : IsUnmarked (withUsers u es)) (hes' : ∀ e ∈ withUsers v es, e.IsRegular)
    (hun' : IsUnmarked (withUsers v es)) {t : List Char} (ht : IsTidy t) :
    (update (withUsers v es) true (update (withUsers u es) true t).1).1 =
        (update (withUsers u es) true t).1 ↔
      ∀ e ∈ es, Entry.userText (v e) = Entry.userText (u e) := by
  have hsingle : ∀ e ∈ withUsers u es, e.IsSingleLine := fun e he => (hes e he).singleLine
  have hsingle' : ∀ e ∈ withUsers v es, e.IsSingleLine := fun e he => (hes' e he).singleLine
  constructor
  · intro h
    have hfirst := lines_body_update hsingle hun true ht
    have hsecond := lines_body_update hsingle' hun' true (isTidy_update hsingle hun true ht)
    rw [h, hfirst] at hsecond
    -- as many lines are put in, so they are the last ones on both sides
    have hadded := (List.append_inj' hsecond (by simp [added, withUsers])).2
    exact map_line_withUsers_eq_iff.mp hadded.symm
  · intro h
    rw [update_congr hsingle' hsingle (any_owns_withUsers_eq h) (map_line_withUsers_eq_iff.mpr h),
      update_update hsingle hun hsingle true true ht, kept_kept_append_added hes,
      update_eq_of_singleLine hsingle]

end Cron

end Timetable
