import Timetable.Proofs.Jobs.Ownership

/-!
Jobs whose schedules change.

Settings reach a crontab through one entry for each schedule. So what an update
takes out depends on the schedules that there are now, and not on the jobs: a job
that has some replaces all lines that it had before, and a job that has none any
more keeps them. Here two updates are made in a crontab without a section, and
the lines of each job in it are compared with its schedules. A crontab may have a
start marker that is not closed; the section that is put in then begins there.
-/

set_option autoImplicit false

namespace Timetable

open Text Cron OwnSection

/-! ## The first section of a crontab -/

/-- The lines that stand in front of the first update in the section that it makes: none, or those
behind a start marker that has not been closed, and the new marker. -/
def OwnSection.openLines (t : List Char) : List (List Char) :=
  match cutAt? startMarker (t ++ ['\n']) with
  | some (_, r) => lines r ++ [startMarker]
  | none => []

namespace OwnSection

variable {t : List Char}

/-- What an open start marker has behind it is whole lines, and the new marker is one. -/
theorem isLine_of_mem_openLines (t : List Char) : ∀ l ∈ openLines t, IsLine l := by
  unfold openLines
  split
  · rw [List.forall_mem_append, List.forall_mem_singleton]
    exact ⟨(isLines_lines _).line, ⟨by decide, by decide⟩⟩
  · simp

/-- **A crontab gets its first section.** If there is none, also with a line end behind the text,
then whole lines that are put behind it with the markers around them are in the section, and in
front of them there is what an open start marker has behind it. -/
theorem isTidy_of_find?_eq_none (h : find? (t ++ ['\n']) = none) {ls : List (List Char)}
    (hls : IsLines ls) (hend : ∀ l ∈ ls, ['\n'] <:+ l) (hmark : ¬ endMarker <:+: ls.flatten) :
    IsTidy (OwnSection.assemble ⟨t ++ ['\n'], ls.flatten, []⟩) ∧
      lines (ofText (OwnSection.assemble ⟨t ++ ['\n'], ls.flatten, []⟩)).body =
        openLines t ++ ls := by
  -- whole lines between the first start marker and the first end marker behind it
  have hsection {b : List Char} {ks : List (List Char)} (hb : ¬ startMarker <:+: b)
      (hks : IsLines ks) (hksend : ∀ l ∈ ks, ['\n'] <:+ l) (hksmark : ¬ endMarker <:+: ks.flatten) :
      IsTidy (OwnSection.assemble ⟨b, ks.flatten, []⟩) ∧
        lines (ofText (OwnSection.assemble ⟨b, ks.flatten, []⟩)).body = ks := by
    have hproper : IsProper ⟨b, ks.flatten, []⟩ := ⟨hb, hksmark⟩
    refine ⟨.inr ⟨_, hproper, endsLine_iff.mpr ?_, rfl⟩, ?_⟩
    · exact fun l hl => hksend l (by rwa [lines_flatten hks] at hl)
    · rw [ofText_assemble hproper]
      exact lines_flatten hks
  unfold openLines
  cases hcut : cutAt? startMarker (t ++ ['\n']) with
  -- no start marker: the section begins behind the text
  | none =>
    have hbefore := (cutAt?_eq_none_iff isLineMark_startMarker.ne_nil).mp hcut
    exact hsection hbefore hls hend hmark
  -- an open start marker: the section begins there, and its first lines are what stood behind it
  | some p =>
    obtain ⟨b, r⟩ := p
    obtain ⟨ht, hb⟩ := isLineMark_startMarker.cutAt?_eq_some_iff.mp hcut
    have hr : ¬ endMarker <:+: r := by
      rw [ht, find?_append hb, Option.map_eq_none_iff] at h
      exact (cutAt?_eq_none_iff isLineMark_endMarker.ne_nil).mp h
    have hrend : EndsLine r := by
      have hwhole := endsLine_append_newline t
      rw [ht] at hwhole
      exact hwhole.of_append
    have hstart : ['\n'] <:+ startMarker := by decide
    have hflat : (lines r ++ startMarker :: ls).flatten = r ++ (startMarker ++ ls.flatten) := by
      rw [List.flatten_append, List.flatten_cons, flatten_lines]
    have hassemble : OwnSection.assemble ⟨t ++ ['\n'], ls.flatten, []⟩ =
        OwnSection.assemble ⟨b, (lines r ++ startMarker :: ls).flatten, []⟩ := by
      simp only [assemble, ht, hflat, List.append_assoc]
    have hopened : lines r ++ [startMarker] ++ ls = lines r ++ startMarker :: ls := by simp
    rw [hassemble]
    change _ ∧ _ = lines r ++ [startMarker] ++ ls
    rw [hopened]
    refine hsection hb ?_ ?_ ?_
    · have hstartLine : IsLine startMarker := ⟨by decide, by decide⟩
      exact (isLines_lines r).append (isLines_cons.mpr ⟨hstartLine, fun _ => hstart, hls⟩)
        (endsLine_iff.mp hrend)
    · rw [List.forall_mem_append, List.forall_mem_cons]
      exact ⟨endsLine_iff.mp hrend, hstart, hend⟩
    -- an end marker in the body would stand in one of its three parts
    · rw [hflat, isLineMark_endMarker.infix_append_iff_of_endsLine hrend,
        isLineMark_endMarker.infix_append_iff_of_endsLine (.inr hstart)]
      exact not_or.mpr ⟨hr, not_or.mpr ⟨by decide +kernel, hmark⟩⟩

end OwnSection

/-! ## The lines of an identity -/

/-- Whether a line carries an identity in a command. -/
def Identity.hasLine (i : Identity) (l : List Char) : Bool :=
  Entry.owns { toIdentity := i, event := .anytime } l

namespace Identity

variable {i : Identity} {l : List Char}

theorem hasLine_append_newline {body : List Char} (hbody : '\n' ∉ body) :
    i.hasLine (body ++ ['\n']) = true ↔ Entry.IsCommand i body := by
  unfold hasLine
  rw [Entry.owns_append_newline hbody]
  simp

/-- An entry owns all lines of its identity. -/
theorem owns_of_hasLine {e : Entry} (he : e.toIdentity = i) (hl : IsLine l)
    (h : i.hasLine l = true) : e.owns l = true := by
  obtain ⟨body, rfl, hbody⟩ := hl.eq_append_newline (Entry.newline_suffix_of_owns hl h)
  rw [hasLine_append_newline hbody, ← he] at h
  exact (Entry.owns_append_newline hbody).mpr (.inl h)

end Identity

/-- The line of a job that runs `resticprofile` is a line of its identity and of no other one. -/
theorem Entry.IsOf.hasLine_iff {e : Entry} {j : Job} (he : e.IsOf j) (ht : e.IsTellable)
    (hsingle : e.IsSingleLine) (hlead : "resticprofile".toList <:+: j.lead e.user) {i : Identity}
    (hi : i.IsTellable) : i.hasLine e.line.toList = true ↔ e.toIdentity = i := by
  have hbody := newline_notMem_line hsingle.notMem_column
  rw [toList_line_eq_append, Identity.hasLine_append_newline hbody, he.isCommand_iff ht hi]
  exact ⟨fun h => h.1.symm, fun h => ⟨h.symm, hlead⟩⟩

namespace Settings

/-- The same jobs at other times. -/
def withSchedules (s : Settings) (schedules : List String) : Settings :=
  { s with jobs := s.jobs.map fun j => { j with schedules } }

/-- Settings whose jobs all have `resticprofile` in the name of their program. -/
def RunsByName (s : Settings) : Prop :=
  ∀ j ∈ s.jobs, "resticprofile".toList <:+: j.program.toList

instance (s : Settings) : Decidable s.RunsByName :=
  inferInstanceAs (Decidable (∀ j ∈ s.jobs, "resticprofile".toList <:+: j.program.toList))

namespace Makes

variable {s s' : Settings} {es es' : List Entry} {e : Entry} {t : List Char}

/-- An entry of some settings is of a job whose line has the name of the program in front of its
flags. -/
theorem exists_lead (h : s.Makes es) (hs : s.RunsByName) (he : e ∈ es) :
    ∃ j, e.IsOf j ∧ "resticprofile".toList <:+: j.lead e.user := by
  obtain ⟨j, hj, hof⟩ := exists_isOf_of_mem_entries h.entries he
  refine ⟨j, hof, ?_⟩
  exact List.IsInfix.trans (hs j hj) (j.program_infix_lead e.user)

theorem hasLine_iff (h : s.Makes es) (hs : s.RunsByName) (he : e ∈ es) {i : Identity}
    (hi : i.IsTellable) : i.hasLine e.line.toList = true ↔ e.toIdentity = i := by
  obtain ⟨j, hof, hlead⟩ := h.exists_lead hs he
  exact hof.hasLine_iff (h.tellable e he) (h.singleLine e he) hlead hi

/-- The lines of an identity among those of some settings are the lines of its entries. -/
theorem filter_hasLine (h : s.Makes es) (hs : s.RunsByName) {i : Identity} (hi : i.IsTellable)
    {fs : List Entry} (hfs : fs ⊆ es) :
    (fs.map (·.line.toList)).filter i.hasLine =
      (fs.filter (·.toIdentity = i)).map (·.line.toList) := by
  have hsame : fs.filter (i.hasLine ∘ fun e => e.line.toList) = fs.filter (·.toIdentity = i) := by
    refine List.filter_congr fun e he => ?_
    have hline := h.hasLine_iff hs (hfs he) hi
    rw [Function.comp_apply, Bool.eq_iff_iff, decide_eq_true_iff]
    exact hline
  rw [List.filter_map, hsame]

/-- Of the lines of some settings those stay whose identity other settings do not schedule. -/
theorem kept_map_line_eq (h : s.Makes es) (hs : s.RunsByName) (h' : s'.Makes es') :
    kept es' (es.map (·.line.toList)) =
      (es.filter fun e => !es'.any (·.isSame e)).map (·.line.toList) := by
  unfold kept
  rw [List.filter_map]
  refine congrArg _ (List.filter_congr fun e he => ?_)
  -- an entry owns the line of another one exactly if both have one identity
  have hany : es'.any (·.owns e.line.toList) = es'.any (·.isSame e) := by
    rw [Bool.eq_iff_iff]
    constructor
    · intro howned
      obtain ⟨e', he', howns⟩ := List.any_eq_true.mp howned
      exact List.any_eq_true.mpr ⟨e', he', beq_iff_eq.mpr (h.identity_eq_of_owns h' he he' howns)⟩
    · intro hscheduled
      obtain ⟨e', he', hsame⟩ := List.any_eq_true.mp hscheduled
      obtain ⟨j, hof, hlead⟩ := h.exists_lead hs he
      exact (h.any_owns_line_iff h' he hof ⟨e', he', beq_iff_eq.mp hsame⟩).mpr (.inl hlead)
  simp only [Function.comp_apply, hany]

/-- No line of an identity stays in front if the identity is scheduled. -/
theorem filter_kept_eq_nil {i : Identity} (hi : ∃ e ∈ es', e.toIdentity = i)
    {ls : List (List Char)} (hls : ∀ l ∈ ls, IsLine l) : (kept es' ls).filter i.hasLine = [] := by
  refine List.filter_eq_nil_iff.mpr fun l hl hline => ?_
  obtain ⟨hmem, hnone⟩ := List.mem_filter.mp hl
  obtain ⟨e, he, hidentity⟩ := hi
  have hown := Identity.owns_of_hasLine hidentity (hls l hmem) hline
  rw [Bool.not_eq_true', List.any_eq_false] at hnone
  exact hnone e he hown

/-- Of the entries that are not scheduled any more none is of an identity if the identity is
scheduled or has never been. -/
theorem filter_unscheduled_eq_nil_iff {i : Identity} :
    (es.filter fun e => !es'.any (·.isSame e)).filter (·.toIdentity = i) = [] ↔
      (∃ e ∈ es', e.toIdentity = i) ∨ ∀ e ∈ es, e.toIdentity ≠ i := by
  have hany {e : Entry} (he : e.toIdentity = i) :
      es'.any (·.isSame e) = true ↔ ∃ e' ∈ es', e'.toIdentity = i := by
    simp only [List.any_eq_true, Entry.isSame, beq_iff_eq, he]
  -- entries of one identity are scheduled together or not at all
  simp only [List.filter_eq_nil_iff, List.mem_filter, Bool.not_eq_true', decide_eq_true_eq, and_imp]
  constructor
  · intro hnone
    by_cases hscheduled : ∃ e ∈ es', e.toIdentity = i
    · exact .inl hscheduled
    · refine .inr fun e he hidentity => ?_
      exact hnone e he (Bool.eq_false_iff.mpr (mt (hany hidentity).mp hscheduled)) hidentity
  · rintro (hscheduled | hnone) e he hunscheduled hidentity
    · rw [(hany hidentity).mpr hscheduled] at hunscheduled
      cases hunscheduled
    · exact hnone e he hidentity

/-- The section after the first update: what an open start marker has behind it, and the lines of
the entries. -/
theorem lines_first_update (h : s.Makes es) (ht : find? (t ++ ['\n']) = none) :
    IsTidy (update es true t).1 ∧
      lines (ofText (update es true t).1).body = openLines t ++ es.map (·.line.toList) := by
  -- a section of the text would still be one with a line end behind it
  have hnone : find? t = none := by
    refine Option.eq_none_iff_forall_ne_some.mpr fun o ho => ?_
    rw [find?_append_newline ho] at ht
    cases ht
  have hupdate : (update es true t).1 =
      OwnSection.assemble ⟨t ++ ['\n'], (es.map (·.line.toList)).flatten, []⟩ := by
    simp [update, hnone, Entry.toList_linesOf]
  have hmark : ¬ endMarker <:+: (es.map (·.line.toList)).flatten := by
    have happend := h.isUnmarked.not_infix_append (s := []) (by decide)
    rwa [List.nil_append, Entry.toList_linesOf] at happend
  rw [hupdate]
  refine isTidy_of_find?_eq_none ht (Entry.isLines_map_line h.singleLine) ?_ hmark
  intro l hl
  obtain ⟨e, -, rfl⟩ := List.mem_map.mp hl
  exact e.newline_suffix_line

/-- The section after both updates: of the old lines those whose identity is not scheduled any more,
and the new ones. -/
theorem lines_second_update (h : s.Makes es) (h' : s'.Makes es') (hs : s.RunsByName)
    (ht : find? (t ++ ['\n']) = none) :
    ∃ o, find? (update es' true (update es true t).1).1 = some o ∧
      lines o.body = kept es' (openLines t) ++
        (es.filter fun e => !es'.any (·.isSame e)).map (·.line.toList) ++
        es'.map (·.line.toList) := by
  obtain ⟨htidy, hfirst⟩ := h.lines_first_update ht
  have hfind := find?_update h'.isUnmarked true htidy.isProper
  refine ⟨_, hfind, ?_⟩
  have hlines := lines_body_update h'.singleLine h'.isUnmarked true htidy
  rw [ofText_update h'.isUnmarked true htidy.isProper, hfirst] at hlines
  rw [hlines, ← h.kept_map_line_eq hs h', kept, kept, kept, List.filter_append]
  rfl

/-- **The lines of a job after its schedules have changed.** Two settings are put one after the
other into a crontab without a section. The lines of an identity are then those of its schedules in
the second settings exactly if it has some there, or had none in the first ones and no line behind a
start marker that was open. -/
theorem reschedules_iff (h : s.Makes es) (h' : s'.Makes es') (hs : s.RunsByName)
    (hs' : s'.RunsByName) (ht : find? (t ++ ['\n']) = none) :
    ∃ o, find? (update es' true (update es true t).1).1 = some o ∧
      lines o.body = kept es' (openLines t) ++
        (es.filter fun e => !es'.any (·.isSame e)).map (·.line.toList) ++
        es'.map (·.line.toList) ∧
      ∀ i : Identity, i.IsTellable →
        ((lines o.body).filter i.hasLine =
            (es'.filter (·.toIdentity = i)).map (·.line.toList) ↔
          (∃ e ∈ es', e.toIdentity = i) ∨
            (∀ e ∈ es, e.toIdentity ≠ i) ∧ ∀ l ∈ kept es' (openLines t), i.hasLine l = false) := by
  obtain ⟨o, hfind, hlines⟩ := h.lines_second_update h' hs ht
  refine ⟨o, hfind, hlines, fun i hi => ?_⟩
  have hold := h.filter_hasLine hs hi
    (List.filter_sublist (p := fun e => !es'.any (·.isSame e))).subset
  have hnew := h'.filter_hasLine hs' hi (List.Subset.refl es')
  rw [hlines, List.filter_append, List.filter_append, hold, hnew, List.append_left_eq_self,
    List.append_eq_nil_iff, List.map_eq_nil_iff, filter_unscheduled_eq_nil_iff]
  -- of an identity that is scheduled nothing of the first settings is left
  by_cases hscheduled : ∃ e ∈ es', e.toIdentity = i
  · have hkept := filter_kept_eq_nil hscheduled (isLine_of_mem_openLines t)
    exact iff_of_true ⟨hkept, .inl hscheduled⟩ (.inl hscheduled)
  · rw [or_iff_right hscheduled, or_iff_right hscheduled, List.filter_eq_nil_iff, and_comm]
    simp only [Bool.not_eq_true]

/-- Another schedule takes the place of the old one. -/
theorem reschedules_later :
    let s := backup "home" "resticprofile"
    let s' := s.withSchedules ["*:10"]
    let e := backupEntry "home" "resticprofile"
    let e' := { e with event := { minute := .ofList [10], second := .ofList [0] } }
    s.Makes [e] ∧ s'.Makes [e'] ∧
      ∃ o, find? (update [e'] true (update [e] true []).1).1 = some o ∧
        (lines o.body).filter e.hasLine = [e'.line.toList] := by
  intro s s' e e'
  have h : s.Makes [e] := backup_home_named
  have h' : s'.Makes [e'] := ⟨by decide, by decide, by decide⟩
  have hs : s.RunsByName := by decide
  have hs' : s'.RunsByName := by decide
  have ht : find? ([] ++ ['\n']) = none := by decide
  obtain ⟨o, hfind, -, hlines⟩ := h.reschedules_iff h' hs hs' ht
  have hi : e.toIdentity.IsTellable := by decide
  exact ⟨h, h', o, hfind, (hlines _ hi).mpr (.inl ⟨e', by decide, rfl⟩)⟩

/-- A job whose schedules have been taken away keeps its line. -/
theorem reschedules_never :
    let s := backup "home" "resticprofile"
    let s' := s.withSchedules []
    let e := backupEntry "home" "resticprofile"
    s.Makes [e] ∧ s'.Makes [] ∧ s.RunsByName ∧ s'.RunsByName ∧
      find? (update [] true (update [e] true []).1).1 = some ⟨['\n'], e.line.toList, []⟩ ∧
      e.hasLine e.line.toList = true := by
  intro s s' e
  have h' : s'.Makes [] := ⟨by decide, by decide, by decide⟩
  exact ⟨backup_home_named, h', by decide, by decide, by decide,
    by decide⟩

end Makes

end Settings

end Timetable
