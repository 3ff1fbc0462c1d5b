import Timetable.Proofs.Cron.Writing

/-!
Reading again what was written.

A file that has been written is not too large to be read. But it is refused if it
has a header, and the operation may have given it one: the start marker of the own
section is a comment, so where a header is begun before the section, the marker
and what follows it can complete it. What a program lists then is read without
the start marker, and the section with it is not found again.
-/

set_option autoImplicit false

namespace Timetable

open Text OwnSection

namespace Cron

/-- What stands behind the start marker after an update. -/
def behindStart (es : List Entry) (add : Bool) (t : List Char) : List Char :=
  (Entry.removeAll es (ofText t).body).1 ++ fresh es add ++ endMarker ++ (ofText t).after

theorem update_eq_append (es : List Entry) (add : Bool) (t : List Char) :
    (update es add t).1 = (ofText t).before ++ startMarker ++ behindStart es add t := by
  rw [update_eq]
  simp [assemble, behindStart]

/-- An update gives a crontab without a header one if it completes what is begun before the
section. -/
theorem hasHeader_update_iff {t : List Char} (ht : hasHeader t = false) (es : List Entry)
    (add : Bool) :
    hasHeader (update es add t).1 = true ↔
      IsCompleted (ofText t).before (behindStart es add t) := by
  rw [update_eq]
  exact hasHeader_assemble_iff ht _

end Cron

namespace Store

open Cron

variable {s s' : Store} {h h' : Host} {add : Bool} {name path : String} {t c : List Char}
  {p : TableProgram}

namespace Target

/-- **A file that is written** is not too large, and it is read again unless it has got a header. -/
theorem reload_file (hload : (file path).load h = .ok t)
    (hsave : (file path).save h (String.ofList c) = .ok h') :
    hasHeader t = false ∧ h'.FileHolds path c ∧
      (String.ofList c).utf8ByteSize < StoreError.sizeLimit ∧
      (file path).load h' = if hasHeader c then .error (.generated path) else .ok c := by
  obtain ⟨text, hread, -⟩ := load_eq_ok hload
  have hholds := fileHolds_of_save hread hsave
  obtain ⟨haccepted, rfl⟩ := (load_file_eq_ok_iff hholds).mp hload
  obtain ⟨hsize, rfl⟩ := (save_file_eq_ok_iff hholds).mp hsave
  have hholds' := hholds.withText c
  have hread' : (file path).read (h.withText path c) = .ok (String.ofList c) := by
    rw [read, readFile_eq hholds', if_neg (Nat.not_le.mpr hsize)]
  refine ⟨haccepted.noHeader, hholds', hsize, ?_⟩
  rw [load_file_eq hread', String.toList_ofList]

/-- A table that is written is listed again, and a header is taken for one of the program. -/
theorem reload_program (hp : h.program name = .ok p) (hk : p.KeepsTable)
    (hsave : (program name).save h (String.ofList c) = .ok h') :
    (program name).load h' = .ok (dropHeader c) := by
  have hp' := save_program_eq_ok hp hk hsave
  -- whether a program keeps its table does not depend on the table that it has
  have hk' : TableProgram.KeepsTable { p with table := some (String.ofList c).toUTF8 } :=
    ⟨hk.succeeded, hk.stdout, hk.saving⟩
  have hread := read_program_of_table hp' hk' rfl
  rw [lossyText_toUTF8] at hread
  rw [load_program hread, String.toList_ofList]

end Target

/-- **What is written can be read again**, unless it has got a header. The file that is written is
never too large. It is read as it was written exactly if no header is begun before the own section
and completed by it; otherwise it is refused, although the crontab was taken before. A program that
keeps its table lists the whole section exactly if no header ends in it or behind it. -/
theorem Writes.load_iff (hw : s.Writes h add s' h') :
    ∃ t c, s.load h = .ok (String.ofList t) ∧ c = (update s'.entries add t).1 ∧
      (∀ path, s.file = some path →
        h'.FileHolds path c ∧ (String.ofList c).utf8ByteSize < StoreError.sizeLimit ∧
        (s'.load h' = .ok (String.ofList c) ↔
          ¬ IsCompleted (ofText t).before (behindStart s'.entries add t)) ∧
        (IsCompleted (ofText t).before (behindStart s'.entries add t) →
          s'.load h' = .error (.generated path))) ∧
      ∀ name p, s.target = .ok (.program name) → h.program name = .ok p → p.KeepsTable →
        s'.load h' = .ok (String.ofList (dropHeader c)) ∧
        (startMarker ++ behindStart s'.entries add t <:+ dropHeader c ↔
          ¬ (hasHeader (ofText t).before = false ∧
            IsCompleted (ofText t).before (behindStart s'.entries add t))) := by
  obtain ⟨target, t, htarget, htarget', hload, hsave⟩ := hw.exists_update
  refine ⟨t, _, by rw [load_eq htarget, hload]; rfl, rfl, fun path hfile => ?_,
    fun name p hprogram hp hk => ?_⟩
  · obtain rfl : .file path = target := Except.ok.inj ((target_of_file hfile).symm.trans htarget)
    -- a file is refused as soon as it has a header, and the update can have completed one
    obtain ⟨hheader, hholds, hsize, hreload⟩ := Target.reload_file hload hsave
    have hcompleted := hasHeader_update_iff hheader s'.entries add
    rw [load_eq htarget', hreload]
    refine ⟨hholds, hsize, ?_, fun h => ?_⟩
    · rw [← hcompleted]
      split
      · next hgenerated => simp [hgenerated, Except.map]
      · next hgenerated => simp [hgenerated, Except.map]
    · rw [if_pos (hcompleted.mpr h)]
      rfl
  -- a program lists what was written, and the header is dropped from it
  · obtain rfl : .program name = target := Except.ok.inj (hprogram.symm.trans htarget)
    rw [load_eq htarget', Target.reload_program hp hk hsave, update_eq_append]
    exact ⟨rfl, suffix_dropHeader_iff⟩

/-- A host without files, in which there can be one. -/
theorem fileHolds_empty : ({} : Host).FileHolds "tab" [] :=
  .free (Host.place_eq_free (by decide +kernel))

/-- A store of one job, whose crontab is a file. -/
def oneJobStore : Store :=
  { file := some "tab"
    entries := [{ configFile := "c", profile := "home", command := "backup",
                  event := Keyword.daily.event,
                  commandLine := "resticprofile --config c run-schedule backup@home" }] }

/-- A crontab that begins like a header and goes on with a variable. -/
def begun : List Char :=
  "# DO NOT EDIT THIS FILE\nMAILTO=ops\n".toList

/-- A crontab that begins like a header and has one more comment, whose line does not end. -/
def twoComments : List Char :=
  "# DO NOT EDIT THIS FILE\n# a".toList

/-- The line of the job is put into crontabs that are taken and stay small. -/
theorem exists_install_oneJobStore {t : List Char} (ht : IsAccepted t)
    (hsize : 4 * (oneJobStore.installed (({} : Host).withText "tab" t) "tab" t).length <
      StoreError.sizeLimit) :
    oneJobStore.load (({} : Host).withText "tab" t) = .ok (String.ofList t) ∧
      ∃ h', (oneJobStore.install (({} : Host).withText "tab" t)).2 = .ok h' := by
  have hholds := fileHolds_empty.withText t
  refine ⟨?_, exists_install_file rfl hholds ht hsize⟩
  rw [load_eq (target_of_file rfl), (Target.load_file_eq_ok_iff hholds).mpr ⟨ht, rfl⟩]
  rfl

/-- Where there is another line before the section, the file is read again. -/
theorem Writes.load_iff_begun :
    ∃ h' c, (oneJobStore.install (({} : Host).withText "tab" begun)).2 = .ok h' ∧
      h'.FileHolds "tab" c ∧
      (oneJobStore.install (({} : Host).withText "tab" begun)).1.load h' =
        .ok (String.ofList c) := by
  have ht : IsAccepted begun := ⟨by decide, by decide⟩
  obtain ⟨hbefore, h', hinstall⟩ := exists_install_oneJobStore ht (by
    rw [Store.installed, Cron.update_eq, Cron.fresh_eq]
    decide +kernel)
  obtain ⟨t, c, hload, -, hfile, -⟩ := (Writes.install hinstall).load_iff
  obtain ⟨hholds, -, hread, -⟩ := hfile "tab" rfl
  obtain rfl : begun = t :=
    String.ofList_injective (Except.ok.inj (hbefore.symm.trans hload))
  refine ⟨h', c, hinstall, hholds, hread.mpr fun hcompleted => ?_⟩
  exact absurd hcompleted.comments (by decide)

/-- The two comments and the marker are a header: the crontab was taken, and the file that was
written is refused. -/
theorem Writes.load_iff_completed :
    oneJobStore.load (({} : Host).withText "tab" twoComments) =
        .ok (String.ofList twoComments) ∧
      ∃ h', (oneJobStore.install (({} : Host).withText "tab" twoComments)).2 = .ok h' ∧
        (oneJobStore.install (({} : Host).withText "tab" twoComments)).1.load h' =
          .error (.generated "tab") := by
  have ht : IsAccepted twoComments := ⟨by decide, by decide⟩
  obtain ⟨hbefore, h', hinstall⟩ := exists_install_oneJobStore ht (by
    rw [Store.installed, Cron.update_eq, Cron.fresh_eq]
    decide +kernel)
  obtain ⟨target, t, htarget, htarget', hload, hsave⟩ := (Writes.install hinstall).exists_update
  obtain rfl : .file "tab" = target := Except.ok.inj ((target_of_file rfl).symm.trans htarget)
  obtain ⟨-, rfl⟩ :=
    (Target.load_file_eq_ok_iff (fileHolds_empty.withText twoComments)).mp hload
  obtain ⟨hheader, -, -, hreload⟩ := Target.reload_file hload hsave
  have hcompleted : hasHeader (update (oneJobStore.install
      (({} : Host).withText "tab" twoComments)).1.entries true twoComments).1 = true :=
    (hasHeader_update_iff hheader _ _).mpr
      ⟨by decide, by decide, Nat.le_add_right_of_le (by decide)⟩
  refine ⟨hbefore, h', hinstall, ?_⟩
  rw [load_eq htarget', hreload, if_pos hcompleted]
  rfl

end Store

end Timetable
