import Timetable.Proofs.Text.Mark
import Timetable.Proofs.Text.Spacing
import Timetable.Scheduler

/-!
Schedulers and their settings.

The setting of a scheduler glues its parts together with colons and escapes
nothing, and a setting is cut at its first colons. So the parts are found again
only if they are as a reader leaves them: nothing has blanks at its ends, a user
has no colon and is no drive, and a file without a user either has no colon or has
a drive in front of it. These are the schedulers that settings can stand for, and
each of them is read back from its own setting.
-/

set_option autoImplicit false

namespace Timetable

open Text

namespace Scheduler

variable {setting : String} {k : Scheduler} {resource user file : List Char}

/-! ## What can be read -/

/-- A scheduler whose parts are as a reader of settings leaves them. -/
def IsPlain : Scheduler → Prop
  | crond (some program) => program ≠ "" ∧ IsTrimmed program.toList
  | crontab file none =>
    (file ≠ "" ∧ IsTrimmed file.toList) ∧
      ∀ column rest, cutAt? [':'] file.toList = some (column, rest) → isDrive (trim column) = true
  | crontab file (some user) =>
    (user ≠ "" ∧ IsTrimmed user.toList ∧ ':' ∉ user.toList ∧ isDrive user.toList = false) ∧
      IsTrimmed file.toList
  | _ => True

/-- A text is cut at its first colon. -/
theorem cut_colon (h : cutAt? [':'] resource = some (user, file)) :
    resource = user ++ ':' :: file ∧ ':' ∉ user := by
  obtain ⟨hresource, hfree⟩ := eq_append_of_cutAt? (by simp) h
  refine ⟨by simpa using hresource, fun hmem => hfree ?_⟩
  exact (List.singleton_infix_iff ':' user).mpr hmem

/-- What a trimmed resource stands for is plain: a user is cut off at the first colon and trimmed,
and a file that keeps its colon has a drive in front of it. -/
theorem ofResource_isPlain (hne : resource ≠ []) (ht : IsTrimmed resource) :
    (ofResource resource).IsPlain := by
  have hfile : String.ofList resource ≠ "" ∧ IsTrimmed (String.ofList resource).toList := by
    rw [String.toList_ofList]
    exact ⟨fun h => hne (String.ofList_eq_empty_iff.mp h), ht⟩
  rw [ofResource]
  split
  · next user file hcut =>
    simp only
    split
    · -- the file begins with a drive
      next hdrive =>
      refine ⟨hfile, fun column rest hcolumn => ?_⟩
      rw [String.toList_ofList, hcut] at hcolumn
      obtain ⟨rfl, -⟩ := Prod.mk.inj (Option.some.inj hcolumn)
      exact hdrive
    · next hdrive =>
      refine ⟨?_, by rw [String.toList_ofList]; exact isTrimmed_trim file⟩
      split
      -- the user is not named
      · exact ⟨by decide, isTrimmed_singleton (by decide), by decide, by decide⟩
      · next huser =>
        rw [String.toList_ofList]
        have hcolon : ':' ∉ trim user := fun hmem =>
          (cut_colon hcut).2 (trim_subset user hmem)
        refine ⟨fun h => huser ?_, isTrimmed_trim user, hcolon, by simpa using hdrive⟩
        rw [String.ofList_eq_empty_iff.mp h]
        rfl
  · next hcut =>
    refine ⟨hfile, fun column rest hcolumn => ?_⟩
    rw [String.toList_ofList, hcut] at hcolumn
    cases hcolumn

/-- **What a setting stands for is plain.** -/
theorem parse_isPlain (h : parse setting = .ok k) : k.IsPlain := by
  unfold parse at h
  generalize (cutAt? [':'] setting.toList).getD (setting.toList, []) = parts at h
  have ht : IsTrimmed (trim parts.2) := isTrimmed_trim parts.2
  simp only at h
  split at h
  -- a cron daemon, whose program may be left out
  · obtain rfl := Except.ok.inj h
    split
    · trivial
    · next hne =>
      refine ⟨fun hempty => hne ?_, by rwa [String.toList_ofList]⟩
      rw [String.ofList_eq_empty_iff.mp hempty]
      rfl
  · split at h
    · cases h
    · next hne =>
      obtain rfl := Except.ok.inj h
      exact ofResource_isPlain (by simpa using hne) ht
  · exact Except.ok.inj h ▸ trivial
  · exact Except.ok.inj h ▸ trivial
  · exact Except.ok.inj h ▸ trivial
  · exact Except.ok.inj h ▸ trivial

/-! ## Reading a setting back -/

/-- A setting is cut behind a name without a colon. -/
theorem cut_setting {name : String} (hname : ':' ∉ name.toList)
    (h : setting.toList = name.toList ++ ':' :: resource) :
    cutAt? [':'] setting.toList = some (name.toList, resource) := by
  rw [h]
  exact cutAt?_singleton hname resource

/-- What a setting for a program stands for. -/
theorem parse_crond (resource : List Char)
    (h : setting.toList = "crond".toList ++ ':' :: resource) :
    parse setting = .ok (crond
      (if (trim resource).isEmpty then none else some (String.ofList (trim resource)))) := by
  have hname : String.ofList (trim "crond".toList) = "crond" := by decide
  unfold parse
  rw [cut_setting (by decide) h, Option.getD_some]
  simp only [hname]

/-- What a setting for a file stands for. -/
theorem parse_crontab (resource : List Char)
    (h : setting.toList = "crontab".toList ++ ':' :: resource) (hne : resource ≠ [])
    (ht : IsTrimmed resource) :
    parse setting = .ok (ofResource resource) := by
  have hname : String.ofList (trim "crontab".toList) = "crontab" := by decide
  have hresource : resource.isEmpty = false := by simpa using hne
  unfold parse
  rw [cut_setting (by decide) h, Option.getD_some]
  simp only [hname, hresource, ht.trim_eq, Bool.false_eq_true, if_false]

/-- A file with a plain user in front of it is told from the user. -/
theorem ofResource_user (hne : user ≠ []) (huser : IsTrimmed user) (hcolon : ':' ∉ user)
    (hdrive : isDrive user = false) (hfile : IsTrimmed file) :
    ofResource (user ++ ':' :: file) =
      crontab (String.ofList file) (some (String.ofList user)) := by
  have hempty : user.isEmpty = false := by simpa using hne
  rw [ofResource, cutAt?_singleton hcolon file]
  simp only [huser.trim_eq, hfile.trim_eq, hdrive, hempty, Bool.false_eq_true, if_false]

/-- A file that has no colon, or a drive in front of its first one, is no user with a file. -/
theorem ofResource_file
    (h : ∀ column rest, cutAt? [':'] resource = some (column, rest) →
      isDrive (trim column) = true) :
    ofResource resource = crontab (String.ofList resource) none := by
  rw [ofResource]
  split
  · next user file hcut => simp only [h user file hcut, if_true]
  · rfl

/-- **A plain scheduler is read back from its setting.** -/
theorem IsPlain.parse_setting (h : k.IsPlain) : parse k.text = .ok k := by
  cases k with
  | systemDefault => decide
  | crond program =>
    cases program with
    | none => decide
    | some program =>
      have hempty : program.toList.isEmpty = false := by simpa using h.1
      rw [parse_crond program.toList (by simp [text])]
      simp only [h.2.trim_eq, hempty, Bool.false_eq_true, if_false, String.ofList_toList]
  | crontab file user =>
    cases user with
    | none =>
      obtain ⟨⟨hne, ht⟩, hdrive⟩ := h
      rw [parse_crontab file.toList (by simp [text]) (by simpa using hne) ht,
        ofResource_file hdrive, String.ofList_toList]
    | some user =>
      obtain ⟨⟨hne, huser, hcolon, hdrive⟩, hfile⟩ := h
      have ht : IsTrimmed (user.toList ++ ':' :: file.toList) :=
        huser.append_cons (by decide) hfile
      -- the user has no colon, so the resource is cut behind it
      rw [parse_crontab (user.toList ++ ':' :: file.toList) (by simp [text])
          (by simp) ht,
        ofResource_user (by simpa using hne) huser hcolon hdrive hfile, String.ofList_toList,
        String.ofList_toList]
  | launchd => decide
  | systemd => decide
  | windows => decide

/-- **A scheduler survives being written.** Whatever setting it was read from, with colons and
blanks within its parts, with a drive or without a name for the user, the setting that is written
for it stands for the same scheduler. -/
theorem parse_text_eq_ok (h : parse setting = .ok k) : parse k.text = .ok k :=
  (parse_isPlain h).parse_setting

/-- A user with a blank in it and a file with a drive and more colons; and a user that is not
named. -/
theorem parse_text_eq_ok_colons :
    let shift := crontab "C: : x" (some "night shift")
    let unnamed := crontab ":tab" (some "-")
    (parse " crontab : night shift :C: : x " = .ok shift ∧
        shift.text = "crontab:night shift:C: : x" ∧ parse shift.text = .ok shift) ∧
      parse "crontab: : :tab" = .ok unnamed ∧
        unnamed.text = "crontab:-::tab" ∧ parse unnamed.text = .ok unnamed := by
  intro shift unnamed
  have hshift : parse " crontab : night shift :C: : x " = .ok shift := by decide +kernel
  have hunnamed : parse "crontab: : :tab" = .ok unnamed := by decide +kernel
  exact ⟨⟨hshift, by decide, parse_text_eq_ok hshift⟩, hunnamed, by decide,
    parse_text_eq_ok hunnamed⟩

end Scheduler

end Timetable
