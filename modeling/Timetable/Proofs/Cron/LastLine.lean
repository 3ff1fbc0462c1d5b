import Timetable.Proofs.Cron.Listing
import Timetable.Proofs.Cron.Update

/-!
The last line of a crontab.

A marker is a line with its line end. So a line end that is put behind a crontab can
complete a marker there, and it changes nothing else about the markers. If it
completes no end marker, an update takes out the same lines with it and without it,
and the entries of the section are the same afterwards. If it does complete the
marker that ends the section, there is no section without it: then an update takes
nothing out, leaves the old section as it is and puts a second one behind it.
-/

set_option autoImplicit false

namespace Timetable

namespace OwnSection

open Text

variable {t : List Char} {o : OwnSection}

/-- **Parts that are put together have a section**, whatever they have in them: there are a start
marker and an end marker behind it. -/
theorem exists_find?_assemble (o : OwnSection) : ∃ o', find? o.assemble = some o' := by
  have hsection (b r : List Char) (hb : ¬ startMarker <:+: b) (hr : endMarker <:+: r) :
      ∃ o', find? (b ++ startMarker ++ r) = some o' := by
    rw [find?_append hb]
    cases hcut : cutAt? endMarker r with
    | none => exact absurd hr ((cutAt?_eq_none_iff isLineMark_endMarker.ne_nil).mp hcut)
    | some p => exact ⟨_, rfl⟩
  have hend : endMarker <:+: o.body ++ endMarker ++ o.after := ⟨o.body, o.after, rfl⟩
  have hassemble : o.assemble = o.before ++ startMarker ++ (o.body ++ endMarker ++ o.after) := by
    simp [assemble]
  rw [hassemble]
  cases hcut : cutAt? startMarker o.before with
  | none =>
    exact hsection _ _ ((cutAt?_eq_none_iff isLineMark_startMarker.ne_nil).mp hcut) hend
  | some p =>
    -- the first start marker stands before the section
    obtain ⟨b, r⟩ := p
    obtain ⟨hbefore, hb⟩ := isLineMark_startMarker.cutAt?_eq_some_iff.mp hcut
    rw [hbefore, List.append_assoc, List.append_assoc]
    exact hsection _ _ hb (List.infix_append_of_infix_right (List.infix_append_of_infix_right hend))

/-- The parts of a crontab that ends with the marker of its section, but for the line end of the
marker. -/
structure IsCutOff (t : List Char) (o : OwnSection) : Prop where
  proper : o.IsProper
  after : o.after = []
  eq : t = o.before ++ startMarker ++ o.body ++ endMarker.dropLast

/-- The line end is all that is missing. -/
theorem IsCutOff.append_newline (h : IsCutOff t o) : t ++ ['\n'] = o.assemble := by
  have hend : endMarker = endMarker.dropLast ++ ['\n'] := by decide
  rw [h.eq, assemble, h.after, List.append_nil, hend]
  simp

/-- With the line end the section is found. -/
theorem IsCutOff.find?_append_newline (h : IsCutOff t o) : find? (t ++ ['\n']) = some o :=
  find?_eq_some_iff.mpr ⟨h.append_newline, h.proper⟩

/-- And it is the one that an update works on. -/
theorem IsCutOff.ofText_append_newline (h : IsCutOff t o) : ofText (t ++ ['\n']) = o := by
  rw [ofText, h.find?_append_newline, Option.getD_some]

/-- **What a line end completes**: the marker that ends the section, where there is a section with
the line end and none without it. -/
theorem isCutOff_iff : IsCutOff t o ↔ find? t = none ∧ find? (t ++ ['\n']) = some o := by
  constructor
  · intro h
    have hfind := h.find?_append_newline
    refine ⟨Option.eq_none_iff_forall_ne_some.mpr fun o' ho' => ?_, hfind⟩
    have hafter := congrArg OwnSection.after
      (Option.some.inj ((find?_append_newline ho').symm.trans hfind))
    rw [h.after] at hafter
    simp at hafter
  · rintro ⟨hnone, hfind⟩
    obtain ⟨heq, ho⟩ := find?_eq_some_iff.mp hfind
    have hend : endMarker = endMarker.dropLast ++ ['\n'] := by decide
    -- the line end finishes the end marker, or it stands behind what is after it
    obtain hafter | ⟨a, x, hafter⟩ := List.eq_nil_or_concat o.after
    · refine ⟨ho, hafter, ?_⟩
      rw [assemble, hafter, List.append_nil, hend, ← List.append_assoc] at heq
      exact (List.append_inj' heq rfl).1
    · -- the section would be there without the line end
      rw [assemble, hafter, List.concat_eq_append, ← List.append_assoc] at heq
      have hsome := find?_eq_some_iff (o := ⟨o.before, o.body, a⟩).mpr
        ⟨(List.append_inj' heq rfl).1, ho.before, ho.body⟩
      rw [hnone] at hsome
      cases hsome

end OwnSection

namespace Cron

open Text OwnSection

variable {es : List Entry} {add : Bool} {t a : List Char} {o : OwnSection}

/-- The entries that are read from the own section of a crontab, if it has one. -/
def listedIn (crontab : List Char) : Option (List Entry) :=
  (find? crontab).map fun o => readSection o.body

/-- Where there is a section, a line end behind the crontab changes nothing that is listed. -/
theorem listedIn_append_newline (h : find? t = some o) : listedIn (t ++ ['\n']) = listedIn t := by
  rw [listedIn, listedIn, find?_append_newline h, h]
  rfl

/-- The section that an update makes where there is none. -/
def newSection (es : List Entry) (add : Bool) : List Char :=
  startMarker ++ fresh es add ++ endMarker

/-- Without a section an update puts a new one at the end, and nothing is taken out. -/
theorem update_of_find?_eq_none (h : find? t = none) :
    update es add t = (t ++ ['\n'] ++ newSection es add, 0) := by
  have hparts : ofText t = ⟨t ++ ['\n'], [], []⟩ := by rw [ofText, h, Option.getD_none]
  rw [update_eq, hparts, Entry.removeAll_nil]
  simp [assemble, newSection]

/-- With a section it works on its body. -/
theorem update_of_find?_eq_some (h : find? t = some o) :
    update es add t =
      ({ o with body := (Entry.removeAll es o.body).1 ++ fresh es add : OwnSection }.assemble,
        (Entry.removeAll es o.body).2) := by
  rw [update_eq, ofText, h, Option.getD_some]

/-! ## Behind whole lines -/

/-- An empty line behind the last one has no entries. -/
theorem readSection_append_newline_of_endsLine {r : List Char} (hr : EndsLine r) :
    readSection (r ++ ['\n']) = readSection r := by
  have hblank : readSection ['\n'] = [] := by
    rw [← List.nil_append ['\n'], readSection_append_newline List.not_mem_nil, readSection_nil]
    rfl
  rw [readSection_append hr, hblank, List.append_nil]

/-- What is in a section does not depend on whole lines before it. -/
theorem listedIn_append_of_unmarked (ha : EndsLine a) (h : ¬ startMarker <:+: a) (x : List Char) :
    listedIn (a ++ x) = listedIn x := by
  simp only [listedIn, find?, isLineMark_startMarker.cutAt?_append_of_endsLine ha h]
  cases cutAt? startMarker x with
  | none => rfl
  | some p =>
    obtain ⟨b, r⟩ := p
    simp only [Option.map_some, Option.bind_eq_bind, Option.bind_some]
    cases cutAt? endMarker r <;> rfl

/-- Where a section has begun, whole lines are read first. -/
theorem listedIn_append_of_open {b r : List Char} (hb : ¬ startMarker <:+: b) (hr : EndsLine r)
    (hend : ¬ endMarker <:+: r) (x : List Char) :
    listedIn (b ++ startMarker ++ r ++ x) =
      (cutAt? endMarker x).map fun p => readSection r ++ readSection p.1 := by
  rw [List.append_assoc, listedIn, find?_append hb,
    isLineMark_endMarker.cutAt?_append_of_endsLine hr hend]
  cases cutAt? endMarker x with
  | none => rfl
  | some p => simp [readSection_append hr]

/-- A blank line behind whole lines without a section does not matter. -/
theorem listedIn_append_newline_append (ha : EndsLine a) (h : find? a = none) (x : List Char) :
    listedIn (a ++ ['\n'] ++ x) = listedIn (a ++ x) := by
  have hnewline : ∀ s : List Char, EndsLine (s ++ ['\n']) := endsLine_append_newline
  cases hcut : cutAt? startMarker a with
  | none =>
    have hstart := (cutAt?_eq_none_iff isLineMark_startMarker.ne_nil).mp hcut
    have hblank : ¬ startMarker <:+: a ++ ['\n'] := by
      rw [isLineMark_startMarker.infix_append_iff_of_endsLine ha]
      exact not_or.mpr ⟨hstart, by decide⟩
    rw [listedIn_append_of_unmarked (hnewline a) hblank, listedIn_append_of_unmarked ha hstart]
  | some p =>
    -- the section has begun and does not end
    obtain ⟨b, r⟩ := p
    obtain ⟨rfl, hb⟩ := isLineMark_startMarker.cutAt?_eq_some_iff.mp hcut
    have hend : ¬ endMarker <:+: r := by
      rw [find?_append hb, Option.map_eq_none_iff] at h
      exact (cutAt?_eq_none_iff isLineMark_endMarker.ne_nil).mp h
    have hr : EndsLine r := ha.of_append
    have hblank : ¬ endMarker <:+: r ++ ['\n'] := by
      rw [isLineMark_endMarker.infix_append_iff_of_endsLine hr]
      exact not_or.mpr ⟨hend, by decide⟩
    rw [listedIn_append_of_open hb hr hend, List.append_assoc _ r,
      listedIn_append_of_open hb (hnewline r) hblank, readSection_append_newline_of_endsLine hr]

/-! ## Updates with and without the line end -/

/-- Every crontab that has been updated has a section. -/
theorem exists_listedIn_update (es : List Entry) (add : Bool) (t : List Char) :
    ∃ rs, listedIn (update es add t).1 = some rs := by
  rw [update_eq]
  obtain ⟨o', ho'⟩ := exists_find?_assemble
    { ofText t with body := (Entry.removeAll es (ofText t).body).1 ++ fresh es add }
  exact ⟨readSection o'.body, by rw [listedIn, ho', Option.map_some]⟩

/-- Unless the line end completes the marker that ends the section, it is of no account. -/
theorem update_append_newline_of_not_isCutOff (h : ∀ o, ¬ IsCutOff t o) (es : List Entry)
    (add : Bool) :
    (update es add (t ++ ['\n'])).2 = (update es add t).2 ∧
      listedIn (update es add (t ++ ['\n'])).1 = listedIn (update es add t).1 := by
  cases hfind : find? t with
  | some o =>
    -- what comes out has the line end at its end
    have hassemble : (update es add (t ++ ['\n'])).1 = (update es add t).1 ++ ['\n'] := by
      rw [update_of_find?_eq_some hfind, update_of_find?_eq_some (find?_append_newline hfind)]
      simp [assemble]
    have hcount : (update es add (t ++ ['\n'])).2 = (update es add t).2 := by
      rw [update_of_find?_eq_some hfind, update_of_find?_eq_some (find?_append_newline hfind)]
    obtain ⟨o', ho'⟩ := exists_find?_assemble
      { o with body := (Entry.removeAll es o.body).1 ++ fresh es add }
    rw [hassemble]
    refine ⟨hcount, listedIn_append_newline (o := o') ?_⟩
    rwa [update_of_find?_eq_some hfind]
  | none =>
    have hnone : find? (t ++ ['\n']) = none :=
      Option.eq_none_iff_forall_ne_some.mpr fun o ho => h o (isCutOff_iff.mpr ⟨hfind, ho⟩)
    rw [update_of_find?_eq_none hfind, update_of_find?_eq_none hnone]
    exact ⟨rfl, listedIn_append_newline_append (endsLine_append_newline t) hnone _⟩

/-- A section whose marker is cut off stays as it is, and a second one is put behind it. -/
theorem update_of_isCutOff (h : IsCutOff t o) (es : List Entry) (add : Bool) :
    update es add t = ({ o with after := newSection es add : OwnSection }.assemble, 0) := by
  rw [update_of_find?_eq_none (isCutOff_iff.mp h).1, h.append_newline]
  simp [assemble, h.after]

/-- An update of a crontab that is cut off finishes its section by accident: the line end in front
of the new section completes the end marker. -/
theorem find?_update_of_isCutOff (h : IsCutOff t o) (es : List Entry) (add : Bool) :
    find? (update es add t).1 = some { o with after := newSection es add } := by
  rw [update_of_isCutOff h]
  exact find?_assemble ⟨h.proper.before, h.proper.body⟩

/-- With the line end the section is updated as any other one. -/
theorem listedIn_update_append_newline (h : IsCutOff t o) (hes : IsUnmarked es) (add : Bool) :
    listedIn (update es add (t ++ ['\n'])).1 =
      some (readSection ((Entry.removeAll es o.body).1 ++ fresh es add)) := by
  have hproper : (ofText (t ++ ['\n'])).IsProper := h.ofText_append_newline ▸ h.proper
  rw [listedIn, find?_update hes add hproper, h.ofText_append_newline, Option.map_some]

/-- **What a missing line end changes.** With and without a line end behind the crontab, an update
takes out as many lines and leaves the same entries in the section, unless the line end completes
the marker that ends the section. There the update takes nothing out without it, leaves the section
as it is and puts a second one behind it; so the two come to the same only if the entries own
nothing in the section and nothing is put in that is read. -/
theorem update_append_newline_iff (es : List Entry) (add : Bool) (t : List Char) :
    (((update es add (t ++ ['\n'])).2 = (update es add t).2 ∧
        ∃ rs, listedIn (update es add t).1 = some rs ∧
          listedIn (update es add (t ++ ['\n'])).1 = some rs) ↔
      ∀ o, IsCutOff t o → (Entry.removeAll es o.body).2 = 0 ∧
        listedIn (update es add (t ++ ['\n'])).1 = some (readSection o.body)) ∧
    ∀ o, IsCutOff t o →
      update es add t = ({ o with after := newSection es add : OwnSection }.assemble, 0) ∧
        find? (update es add t).1 = some { o with after := newSection es add } := by
  refine ⟨?_, fun o h => ⟨update_of_isCutOff h es add, find?_update_of_isCutOff h es add⟩⟩
  obtain ⟨rs, hrs⟩ := exists_listedIn_update es add t
  -- only a crontab that is cut off has a section with the line end and none without
  by_cases hcut : ∃ o, IsCutOff t o
  · obtain ⟨o, ho⟩ := hcut
    have hread : listedIn (update es add t).1 = some (readSection o.body) := by
      rw [listedIn, find?_update_of_isCutOff ho, Option.map_some]
    have hcount : (update es add (t ++ ['\n'])).2 = (Entry.removeAll es o.body).2 := by
      rw [update_of_find?_eq_some (isCutOff_iff.mp ho).2]
    have hunique : ∀ o', IsCutOff t o' → o' = o := fun o' ho' =>
      Option.some.inj ((isCutOff_iff.mp ho').2.symm.trans (isCutOff_iff.mp ho).2)
    constructor
    · rintro ⟨hsame, rs', hrs', hlisted⟩ o' ho'
      obtain rfl := hunique o' ho'
      rw [hread] at hrs'
      exact ⟨by rw [← hcount, hsame, update_of_isCutOff ho], hrs' ▸ hlisted⟩
    · intro hall
      obtain ⟨hzero, hlisted⟩ := hall o ho
      exact ⟨by rw [hcount, hzero, update_of_isCutOff ho], _, hread, hlisted⟩
  · have hnot : ∀ o, ¬ IsCutOff t o := fun o ho => hcut ⟨o, ho⟩
    obtain ⟨hcount, hlisted⟩ := update_append_newline_of_not_isCutOff hnot es add
    exact ⟨fun _ o ho => absurd ho (hnot o), fun _ => ⟨hcount, rs, hrs, hlisted.trans hrs⟩⟩

/-- The parts of a crontab with one line in its section, that of a job. -/
def oneJob : OwnSection :=
  { before := "MAILTO=ops\n".toList, after := []
    body := "00 00 * * *\tresticprofile --config c run-schedule backup@home\n".toList }

/-- That crontab without a line end behind its last marker. -/
def oneJobCutOff : List Char :=
  oneJob.before ++ startMarker ++ oneJob.body ++ endMarker.dropLast

/-- The section of one job without the last line end is cut off. -/
theorem isCutOff_oneJob : IsCutOff oneJobCutOff oneJob :=
  ⟨⟨by decide, by decide⟩, rfl, rfl⟩

/-- Entries that own no line there can be taken out without a difference, but for a second
section. -/
theorem update_append_newline_iff_others :
    let es : List Entry := [{ configFile := "c", profile := "work", command := "backup",
                              event := .anytime, commandLine := "wrap" }]
    (update es false (oneJobCutOff ++ ['\n'])).2 = (update es false oneJobCutOff).2 ∧
      (∃ rs, listedIn (update es false oneJobCutOff).1 = some rs ∧
        listedIn (update es false (oneJobCutOff ++ ['\n'])).1 = some rs) ∧
      (update es false oneJobCutOff).1 =
        oneJobCutOff ++ '\n' :: startMarker ++ endMarker := by
  intro es
  obtain ⟨hiff, hsecond⟩ := update_append_newline_iff es false oneJobCutOff
  have hkept : ∀ o, IsCutOff oneJobCutOff o → (Entry.removeAll es o.body).2 = 0 ∧
      listedIn (update es false (oneJobCutOff ++ ['\n'])).1 = some (readSection o.body) := by
    intro o ho
    obtain rfl : oneJob = o := Option.some.inj
      ((isCutOff_iff.mp isCutOff_oneJob).2.symm.trans (isCutOff_iff.mp ho).2)
    have hunmarked : IsUnmarked es := by decide
    refine ⟨by decide, ?_⟩
    rw [listedIn_update_append_newline isCutOff_oneJob hunmarked]
    decide
  -- no line belongs to the job of the update, so as many go in both cases
  obtain ⟨hcount, hlisted⟩ := hiff.mpr hkept
  refine ⟨hcount, hlisted, ?_⟩
  rw [(hsecond oneJob isCutOff_oneJob).1]
  decide +kernel

/-- The job is scheduled anew: without the line end its old line stays, and the new one comes into a
second section. -/
theorem update_append_newline_rescheduled :
    let e : Entry := { configFile := "c", profile := "home", command := "backup",
                       event := Keyword.hourly.event,
                       commandLine := "resticprofile --config c run-schedule backup@home" }
    ¬ ['\n'] <:+ oneJobCutOff ∧ (update [e] true oneJobCutOff).2 = 0 ∧
      (update [e] true (oneJobCutOff ++ ['\n'])).2 = 1 ∧
      listedIn (update [e] true oneJobCutOff).1 ≠
        listedIn (update [e] true (oneJobCutOff ++ ['\n'])).1 := by
  intro e
  have hunmarked : IsUnmarked [e] := by decide
  refine ⟨by decide, ?_, ?_, ?_⟩
  · exact congrArg Prod.snd (update_of_isCutOff isCutOff_oneJob [e] true)
  · rw [update_eq, isCutOff_oneJob.ofText_append_newline]
    decide
  · rw [listedIn_update_append_newline isCutOff_oneJob hunmarked, listedIn,
      find?_update_of_isCutOff isCutOff_oneJob]
    decide

end Cron

end Timetable
