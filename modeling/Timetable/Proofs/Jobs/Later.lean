import Timetable.Proofs.Jobs.Crontab

/-!
Installing jobs twice, and removing them.

A second installation finds the lines of the first one in the crontab. They have
a say in whether there is a user column, and so in the users of the entries. A
removal does not ask for a user column and leaves the entries without users. So
neither always finds the lines that were written. Both are right exactly when
the lines are those that the entries own with the users that they have then.
-/

set_option autoImplicit false

namespace Timetable

namespace Settings

open Text OwnSection

variable {s : Settings} {h h' : Host} {store : Store}

/-! ## Settings with and without users -/

/-- A host without files. -/
def bareHost : Host := { environment := [("USER", "alice")] }

/-- A crontab that has nothing but a heading, and this names a column for the user. -/
def headed : List Char := "# * * * * * user cmd\n".toList

/-- A job without a user, whose crontab is a file. -/
def userless : Settings :=
  { scheduler := "crontab:tab"
    jobs := [{ configFile := "c", profile := "p", command := "k", program := "wrap",
               schedules := ["*:5"] }] }

def userlessStore : Store :=
  { file := some "tab"
    entries := [{ configFile := "c", profile := "p", command := "k",
                  event := { Event.anytime with minute := .ofList [5], second := .ofList [0] },
                  commandLine := "wrap --config c run-schedule k@p" }] }

/-- The same job, and another one that has a user and more lines. -/
def mixed : Settings :=
  { userless with
    jobs := { configFile := "c", profile := "p", command := "b", program := "wrap", user := "root",
              schedules := ["*:1", "*:2", "*:3", "*:4"] } :: userless.jobs }

def mixedStore : Store :=
  { userlessStore with
    entries := [1, 2, 3, 4].map (fun minute =>
      { configFile := "c", profile := "p", command := "b",
        event := { Event.anytime with minute := .ofList [minute], second := .ofList [0] },
        commandLine := "wrap --config c run-schedule b@p", user := "root" }) ++
      userlessStore.entries }

/-- There can be a crontab on the bare host. -/
theorem place_bareHost : bareHost.place "tab" = .free :=
  Host.place_eq_free (by decide +kernel)

/-- The jobs without users work on a file that is not there yet, -/
theorem userless_worksOn : userless.WorksOn bareHost userlessStore "tab" [] :=
  ⟨by decide, rfl, by decide, .free place_bareHost, .inl (by decide)⟩

/-- and so do those with and without. -/
theorem mixed_worksOn : mixed.WorksOn bareHost mixedStore "tab" [] :=
  ⟨by decide, rfl, by decide, .free place_bareHost, .inl (by decide)⟩

/-- The jobs without users work on a crontab with columns as well. -/
theorem userless_worksOn_headed :
    userless.WorksOn (bareHost.withText "tab" headed) userlessStore "tab" headed :=
  userless_worksOn.withText (.inl (by decide))

/-- The job gets a user where the heading asks for one. -/
theorem installed_userless_headed :
    userlessStore.installed (bareHost.withText "tab" headed) "tab" headed =
      headed ++ '\n' :: startMarker ++
        "05 * * * *\talice\twrap --config c run-schedule k@p\n".toList ++ endMarker := by
  rw [Store.installed, Cron.update_eq, Cron.fresh_eq]
  set_option maxRecDepth 1000 in decide

/-- The empty crontab is taken, -/
theorem isAccepted_nil : Store.IsAccepted [] :=
  ⟨by decide, by decide⟩

/-- so is the one with columns, -/
theorem isAccepted_headed : Store.IsAccepted headed :=
  ⟨by decide, by decide⟩

/-- and so is what is made of it. -/
theorem isAccepted_installed_userless_headed : Store.IsAccepted
    (userlessStore.installed (bareHost.withText "tab" headed) "tab" headed) := by
  rw [installed_userless_headed]
  refine ⟨(Store.utf8ByteSize_ofList_le _).trans_lt ?_, by decide⟩
  set_option maxRecDepth 1000 in decide

namespace WorksOn

variable {path : String} {t : List Char}

/-! ## Installing twice -/

/-- Two installations leave the same exactly when the same is written for the users in the crontab
that the first one finds and in the one that it makes. -/
theorem install_install_iff (hs : s.WorksOn h store path t) :
    (∃ h₁ h₂, s.install h = .ok (h₁, store.entries.length) ∧
        s.install h₁ = .ok (h₂, store.entries.length) ∧ h₂.read path = h₁.read path) ↔
      Store.IsAccepted t ∧ Store.IsAccepted (store.installed h path t) ∧
        ∀ e ∈ store.entries,
          Entry.userText (store.fittedUser h (store.installed h path t) e) =
            Entry.userText (store.fittedUser h t e) := by
  have hs' := hs.withText hs.isTidy_installed
  -- the second installation has the users of the crontab that the first one has made
  have hsame (h₁ : Host) (henv : h₁.environment = h.environment) :
      store.installed h₁ path (store.installed h path t) = store.installed h path t ↔
        ∀ e ∈ store.entries,
          Entry.userText (store.fittedUser h (store.installed h path t) e) =
            Entry.userText (store.fittedUser h t e) := by
    have hregular := hs.isRegular
    have hun := hs.isUnmarked
    simp only [Store.entries_fitted] at hregular hun
    rw [Store.installed_congr henv, Store.installed_eq, Store.installed_eq]
    exact Cron.update_withUsers_eq_iff (hregular t) (hun t) (hregular _) (hun _) hs.tidy
  constructor
  -- both files are known, so what is read is the same exactly when what was made is
  · rintro ⟨h₁, h₂, hfirst, hsecond, hread⟩
    obtain ⟨⟨haccepted, -, rfl⟩, -⟩ := hs.install_eq_ok_iff.mp hfirst
    obtain ⟨⟨haccepted', -, rfl⟩, -⟩ := hs'.install_eq_ok_iff.mp hsecond
    have htext := (Host.FileHolds.read_withText_eq_iff hs.holds hs'.holds).mp hread
    exact ⟨haccepted, haccepted', (hsame _ rfl).mp htext⟩
  · rintro ⟨haccepted, haccepted', husers⟩
    have heq := (hsame (h.withText path (store.installed h path t)) rfl).mpr husers
    refine ⟨_, _, hs.install_eq_ok_iff.mpr ⟨⟨haccepted, haccepted'.size, rfl⟩, rfl⟩,
      hs'.install_eq_ok_iff.mpr ⟨⟨haccepted', ?_, rfl⟩, rfl⟩,
      (Host.FileHolds.read_withText_eq_iff hs.holds hs'.holds).mpr heq⟩
    rw [heq]
    exact haccepted'.size

/-- **Installing twice.** The second installation finds the file as it leaves it exactly when the
crontab is taken both times and the lines that the first one has written do not change whether
there is a user column, or no user depends on that. -/
theorem install_twice_iff (hs : s.WorksOn h store path t) :
    (∃ h₁ h₂, s.install h = .ok (h₁, store.entries.length) ∧
        s.install h₁ = .ok (h₂, store.entries.length) ∧ h₂.read path = h₁.read path) ↔
      Store.IsAccepted t ∧ Store.IsAccepted (store.installed h path t) ∧
        (Cron.hasUserColumn (store.installed h path t) = Cron.hasUserColumn t ∨
          (∀ e ∈ store.entries, e.hasUser = true) ∨
          store.userName h = "" ∨ store.userName h = Entry.currentUser) := by
  rw [hs.install_install_iff, Store.userText_fittedUser_eq_iff]

/-- The heading tells both times that there is a user column. -/
theorem install_twice_userless :
    ∃ h₁ h₂, userless.install (bareHost.withText "tab" headed) = .ok (h₁, 1) ∧
      userless.install h₁ = .ok (h₂, 1) ∧ h₂.read "tab" = h₁.read "tab" := by
  refine userless_worksOn_headed.install_twice_iff.mpr
    ⟨isAccepted_headed, isAccepted_installed_userless_headed, .inl ?_⟩
  rw [installed_userless_headed]
  decide

/-- Four lines with a user are enough for a user column, so the line without one is not recognised
and not replaced when the job gets a user. -/
theorem install_twice_mixed :
    mixed.WorksOn bareHost mixedStore "tab" [] ∧ Store.IsAccepted [] ∧
      ¬ ∃ h₁ h₂, mixed.install bareHost = .ok (h₁, 5) ∧ mixed.install h₁ = .ok (h₂, 5) ∧
        h₂.read "tab" = h₁.read "tab" := by
  refine ⟨mixed_worksOn, isAccepted_nil, fun htwice => ?_⟩
  obtain ⟨-, -, husers⟩ := mixed_worksOn.install_install_iff.mp htwice
  -- the new line of the job without a user has a name in it and the old one has not
  rw [Store.installed, Cron.update_eq, Cron.fresh_eq] at husers
  revert husers
  decide

/-! ## Removing what was installed -/

/-- A removal behind an installation, in terms of the update that it makes. It cannot fail because
of the size: the file only gets smaller. -/
theorem uninstall_install_iff (hs : s.WorksOn h store path t) {h₁ : Host} {n : Nat}
    (hinstall : s.install h = .ok (h₁, n)) :
    (∃ h₂ c, s.uninstall h₁ = .ok (h₂, store.entries.length) ∧ h₂.FileHolds path c ∧
        Cron.IsFreeOf ((store.fitted h (.file path) t).entries ++ store.entries) c) ↔
      Cron.hasHeader (store.installed h path t) = false ∧
        (Cron.update store.entries false (store.installed h path t)).2 = store.entries.length ∧
        Cron.IsFreeOf ((store.fitted h (.file path) t).entries ++ store.entries)
          (Cron.update store.entries false (store.installed h path t)).1 := by
  have hs' := hs.withText hs.isTidy_installed
  obtain ⟨⟨-, hsize, rfl⟩, -⟩ := hs.install_eq_ok_iff.mp hinstall
  constructor
  · rintro ⟨h₂, c, huninstall, hholds, hfree⟩
    obtain ⟨haccepted, -, rfl, hcount⟩ := hs'.uninstall_eq_ok_iff.mp huninstall
    obtain rfl := (hs'.holds.withText _).unique hholds
    exact ⟨haccepted.noHeader, hcount.symm, hfree⟩
  · rintro ⟨hheader, hcount, hfree⟩
    -- a removal makes the crontab no larger, so it can be written again
    have hsmaller :
        (Cron.update store.entries false (store.installed h path t)).1.Sublist
          (store.installed h path t) := by
      obtain ⟨o, ho, heq⟩ := hs.exists_installed_eq
      rw [heq]
      exact Cron.update_sublist store.entries ho
    have hsize' := (Store.utf8ByteSize_le_of_sublist hsmaller).trans_lt hsize
    exact ⟨_, _, hs'.uninstall_eq_ok_iff.mpr ⟨⟨hsize, hheader⟩, hsize', rfl, hcount.symm⟩,
      hs'.holds.withText _, hfree⟩

/-- **Removing what was installed.** The removal takes out as many lines as there are entries and
leaves no line of the jobs, with the users that they have or with those that they were written with,
exactly when the file has not got a generated header, the entries own without the users all lines
that were written with them, and they owned no line before that they would not own with them. -/
theorem uninstall_after_install_iff (hs : s.WorksOn h store path t) {h₁ : Host} {n : Nat}
    (hinstall : s.install h = .ok (h₁, n)) :
    (∃ h₂ c, s.uninstall h₁ = .ok (h₂, store.entries.length) ∧ h₂.FileHolds path c ∧
        Cron.IsFreeOf ((store.fitted h (.file path) t).entries ++ store.entries) c) ↔
      Cron.hasHeader (store.installed h path t) = false ∧
        (∀ e ∈ (store.fitted h (.file path) t).entries,
          store.entries.any (·.owns e.line.toList) = true) ∧
        ∀ l ∈ lines (ofText t).body, store.entries.any (·.owns l) = true →
          (store.fitted h (.file path) t).entries.any (·.owns l) = true := by
  have hremoves := Cron.update_removes_iff (hs.isRegular t) (hs.isUnmarked t) hs.isSingleLine
    hs.isUnmarked_entries hs.tidy
  rw [Store.length_fitted] at hremoves
  rw [hs.uninstall_install_iff hinstall]
  exact and_congr_right fun _ => hremoves

/-- Without a user column the line has no user, and the removal finds it. -/
theorem uninstall_userless :
    ∃ h₁, userless.install bareHost = .ok (h₁, 1) ∧
      ∃ h₂ c, userless.uninstall h₁ = .ok (h₂, 1) ∧ h₂.FileHolds "tab" c ∧
        Cron.IsFreeOf ((userlessStore.fitted bareHost (.file "tab") []).entries ++
          userlessStore.entries) c := by
  have hsize : (String.ofList (userlessStore.installed bareHost "tab" [])).utf8ByteSize <
      StoreError.sizeLimit := by
    refine (Store.utf8ByteSize_ofList_le _).trans_lt ?_
    rw [Store.installed, Cron.update_eq, Cron.fresh_eq]
    set_option maxRecDepth 1000 in decide
  have hinstall := userless_worksOn.install_eq_ok_iff.mpr ⟨⟨isAccepted_nil, hsize, rfl⟩, rfl⟩
  exact ⟨_, hinstall, (userless_worksOn.uninstall_after_install_iff hinstall).mpr
    ⟨by decide, by decide, by decide⟩⟩

/-- Where the heading asks for a user, the line is written with one, and the removal does not find
it. -/
theorem uninstall_userless_headed :
    userless.WorksOn (bareHost.withText "tab" headed) userlessStore "tab" headed ∧
      Store.IsAccepted headed ∧
      ∃ h₁, userless.install (bareHost.withText "tab" headed) = .ok (h₁, 1) ∧
        ¬ ∃ h₂ c, userless.uninstall h₁ = .ok (h₂, 1) ∧ h₂.FileHolds "tab" c ∧
          Cron.IsFreeOf ((userlessStore.fitted (bareHost.withText "tab" headed) (.file "tab")
            headed).entries ++ userlessStore.entries) c := by
  have hinstall := userless_worksOn_headed.install_eq_ok_iff.mpr
    ⟨⟨isAccepted_headed, isAccepted_installed_userless_headed.size, rfl⟩, rfl⟩
  refine ⟨userless_worksOn_headed, isAccepted_headed, _, hinstall, fun huninstall => ?_⟩
  obtain ⟨-, hcount, -⟩ := (userless_worksOn_headed.uninstall_install_iff hinstall).mp huninstall
  rw [installed_userless_headed] at hcount
  revert hcount
  decide

end WorksOn

end Settings

end Timetable
