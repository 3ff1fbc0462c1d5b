import Timetable.Proofs.Cron.Update
import Timetable.Proofs.Jobs.Entry

/-!
Lines of one job and entries of another.

A line of a job is owned by entries of the same identity only. So jobs of other
settings leave it where it is, whether they are installed or removed. Entries of
the same identity do not always own it: a command is told by the program name in
front of the flag, and without that name the whole column must be the same. So
settings that are changed take all lines of the old ones out exactly when each of
these lines has the name there, or is written again.
-/

set_option autoImplicit false

namespace Timetable

open Text Cron OwnSection

/-! ## Settings of one job -/

/-- Settings of a job with some profile that some program runs. -/
def Settings.backup (profile program : String) : Settings :=
  { scheduler := "crontab:tab"
    jobs := [{ configFile := "c", profile, command := "backup", program, schedules := ["*:5"] }] }

/-- The entry that the job gets. -/
def Settings.backupEntry (profile program : String) : Entry :=
  { configFile := "c", profile, command := "backup",
    event := { minute := .ofList [5], second := .ofList [0] },
    commandLine := program ++ " --config c run-schedule backup@" ++ profile }

namespace Settings.Makes

variable {s s' : Settings} {es es' : List Entry} {t : List Char}

/-! ## Other jobs -/

/-- Entries without a common identity own no line of each other. -/
theorem owns_eq_false (h : s.Makes es) (h' : s'.Makes es')
    (hother : ∀ e ∈ es, ∀ e' ∈ es', e'.toIdentity ≠ e.toIdentity) {l : List Char}
    (hl : l ∈ es.map (·.line.toList)) {e' : Entry} (he' : e' ∈ es') : e'.owns l = false := by
  obtain ⟨e, he, rfl⟩ := List.mem_map.mp hl
  exact Bool.eq_false_iff.mpr fun howns =>
    hother e he e' he' (h.identity_eq_of_owns h' he he' howns)

theorem kept_map_line (h : s.Makes es) (h' : s'.Makes es')
    (hother : ∀ e ∈ es, ∀ e' ∈ es', e'.toIdentity ≠ e.toIdentity) :
    kept es' (es.map (·.line.toList)) = es.map (·.line.toList) := by
  refine List.filter_eq_self.mpr fun l hl => ?_
  have hnone : es'.any (·.owns l) = false :=
    List.any_eq_false.mpr fun e' he' => by simp [h.owns_eq_false h' hother hl he']
  simp [hnone]

/-- **Jobs do not take out each other's lines.** No entry finds anything to remove in the lines
of jobs with other identities. An update with it, whether it puts lines in or not, leaves the lines
that were put in for the others, in their order and with nothing between them. -/
theorem lines_stay (h : s.Makes es) (h' : s'.Makes es')
    (hother : ∀ e ∈ es, ∀ e' ∈ es', e'.toIdentity ≠ e.toIdentity) (ht : IsTidy t) (add : Bool) :
    (∀ e' ∈ es', e'.remove (Entry.linesOf es).toList = ((Entry.linesOf es).toList, 0)) ∧
      ∃ o, find? (update es' add (update es true t).1).1 = some o ∧
        lines o.body = kept es' (kept es (lines (ofText t).body)) ++ es.map (·.line.toList) ++
          added es' add := by
  constructor
  · intro e' he'
    have hlines := lines_flatten (Entry.isLines_map_line h.singleLine)
    have hnone (l) (hl : l ∈ es.map (·.line.toList)) := h.owns_eq_false h' hother hl he'
    rw [Entry.remove_eq (h'.singleLine e' he'), Entry.toList_linesOf, hlines,
      List.filter_eq_self.mpr fun l hl => by simp [hnone l hl],
      List.countP_eq_zero.mpr fun l hl => by simp [hnone l hl]]
  · have hfind :=
      find?_update_update h.singleLine h.isUnmarked h'.singleLine h'.isUnmarked true add ht
    refine ⟨_, hfind, ?_⟩
    have hlines :=
      isLines_update_update h.singleLine h.isUnmarked h'.singleLine h'.isUnmarked true add ht
    have hadded : added es true = es.map (·.line.toList) := rfl
    have hkept := h.kept_map_line h' hother
    rw [lines_flatten hlines, hadded, kept, List.filter_append, ← kept, ← kept, hkept]

theorem backup_home : (backup "home" "wrap").Makes [backupEntry "home" "wrap"] :=
  ⟨by decide, by decide, by decide⟩

theorem backup_home_named :
    (backup "home" "resticprofile").Makes [backupEntry "home" "resticprofile"] :=
  ⟨by decide, by decide, by decide⟩

/-- A profile whose name would fit that of another one if it were read as a pattern. -/
theorem lines_stay_dotted :
    let es := [backupEntry "home" "resticprofile"]
    let es' := [backupEntry "h.me" "resticprofile"]
    (∀ e' ∈ es', e'.remove (Entry.linesOf es).toList = ((Entry.linesOf es).toList, 0)) ∧
      ∃ o, find? (update es' false (update es true []).1).1 = some o ∧
        lines o.body = es.map (·.line.toList) := by
  have hdotted : (backup "h.me" "resticprofile").Makes [backupEntry "h.me" "resticprofile"] :=
    ⟨by decide, by decide, by decide⟩
  have ht : IsTidy [] := .inl (by decide)
  exact backup_home_named.lines_stay hdotted (by decide) ht false

/-! ## The same jobs with changed settings -/

/-- Which lines of a job the entries of other settings own, all together. -/
theorem any_owns_line_iff (h : s.Makes es) (h' : s'.Makes es') {e : Entry} (he : e ∈ es)
    {j : Job} (hj : e.IsOf j) (hsame : ∃ e' ∈ es', e'.toIdentity = e.toIdentity) :
    es'.any (·.owns e.line.toList) = true ↔
      "resticprofile".toList <:+: j.lead e.user ∨ ∃ e' ∈ es', e'.column = e.column := by
  have howns : ∀ e' ∈ es', e'.owns e.line.toList = true ↔
      (e'.toIdentity = e.toIdentity ∧ "resticprofile".toList <:+: j.lead e.user) ∨
        e'.column = e.column := by
    intro e' he'
    obtain ⟨j', -, hj'⟩ := exists_isOf_of_mem_entries h'.entries he'
    exact hj.owns_line_iff (h.tellable e he) (h.singleLine e he) hj' (h'.tellable e' he')
  rw [List.any_eq_true]
  constructor
  · rintro ⟨e', he', hown⟩
    obtain ⟨-, hlead⟩ | hcolumn := (howns e' he').mp hown
    · exact .inl hlead
    · exact .inr ⟨e', he', hcolumn⟩
  · rintro (hlead | ⟨e', he', hcolumn⟩)
    · obtain ⟨e', he', hidentity⟩ := hsame
      exact ⟨e', he', (howns e' he').mpr (.inl ⟨hidentity, hlead⟩)⟩
    · exact ⟨e', he', (howns e' he').mpr (.inr hcolumn)⟩

/-- **Changed jobs replace their lines** in a crontab without a section exactly when each line of
the old settings has the program name in front of the flag, or its command column is written
again. -/
theorem replaces_iff (h : s.Makes es) (h' : s'.Makes es')
    (hsame : ∀ e ∈ es, ∃ e' ∈ es', e'.toIdentity = e.toIdentity)
    (ht : ¬ startMarker <:+: t ++ ['\n']) :
    find? (update es' true (update es true t).1).1 =
        some ⟨t ++ ['\n'], (Entry.linesOf es').toList, []⟩ ↔
      ∀ e ∈ es, ∀ j ∈ s.jobs, e.IsOf j →
        "resticprofile".toList <:+: j.lead e.user ∨ ∃ e' ∈ es', e'.column = e.column := by
  have hparts := find?_update_update h.singleLine h.isUnmarked h'.singleLine h'.isUnmarked true
    true (t := t) (.inl ht)
  have hnone : kept es (lines (ofText t).body) = [] := by simp [ofText_of_unmarked ht, kept]
  have hadded : added es true = es.map (·.line.toList) := rfl
  have hadded' : (added es' true).flatten = (Entry.linesOf es').toList :=
    (Entry.toList_linesOf es').symm
  rw [hnone, List.nil_append, List.flatten_append, hadded, hadded', ofText_of_unmarked ht] at hparts
  -- what is left in front of the new lines is what of the old ones is not owned
  have hleft : find? (update es' true (update es true t).1).1 =
        some ⟨t ++ ['\n'], (Entry.linesOf es').toList, []⟩ ↔
      ∀ e ∈ es, es'.any (·.owns e.line.toList) = true := by
    have hne {e : Entry} (he : e ∈ es) : e.line.toList ≠ [] := (h.singleLine e he).isLine_line.1
    rw [hparts]
    simp only [Option.some.injEq, OwnSection.mk.injEq, true_and, and_true, List.append_left_eq_self,
      List.flatten_eq_nil_iff, kept, List.mem_filter, Bool.not_eq_true', and_imp, List.mem_map,
      forall_exists_index, forall_apply_eq_imp_iff₂]
    exact forall₂_congr fun e he => by simp [hne he]
  rw [hleft]
  constructor
  · intro hall e he j _ hj
    exact (h.any_owns_line_iff h' he hj (hsame e he)).mp (hall e he)
  · intro hall e he
    obtain ⟨j, hmem, hj⟩ := exists_isOf_of_mem_entries h.entries he
    exact (h.any_owns_line_iff h' he hj (hsame e he)).mpr (hall e he j hmem hj)

/-- A line that runs the program by its name is replaced by one that does not. -/
theorem replaces_named :
    find? (update [backupEntry "home" "wrap"] true
        (update [backupEntry "home" "resticprofile"] true []).1).1 =
      some ⟨['\n'], (Entry.linesOf [backupEntry "home" "wrap"]).toList, []⟩ := by
  refine (backup_home_named.replaces_iff backup_home (by decide) (by decide)).mpr ?_
  intro e he j hj _
  obtain rfl := List.mem_singleton.mp he
  obtain rfl := List.mem_singleton.mp hj
  exact .inl (by decide)

/-- A line that does not run the program by its name is still there when the job is changed to do
so. -/
theorem replaces_unnamed :
    let es := [backupEntry "home" "wrap"]
    let es' := [backupEntry "home" "resticprofile"]
    (backup "home" "wrap").Makes es ∧ (backup "home" "resticprofile").Makes es' ∧
      (backup "home" "wrap").jobs.map Job.identity =
        (backup "home" "resticprofile").jobs.map Job.identity ∧
      find? (update es' true (update es true []).1).1 =
        some ⟨['\n'], (Entry.linesOf (es ++ es')).toList, []⟩ ∧
      Entry.linesOf (es ++ es') ≠ Entry.linesOf es' :=
  ⟨backup_home, backup_home_named, by decide, by decide, by decide⟩

end Settings.Makes

end Timetable
