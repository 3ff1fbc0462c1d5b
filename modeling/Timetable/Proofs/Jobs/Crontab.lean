import Timetable.Proofs.Cron.Store
import Timetable.Proofs.Jobs.User

/-!
Jobs whose crontab is a file.

The entries of jobs have events that were read and command lines that are not
empty, so their lines are found again whatever users they get. The store of the
jobs depends on the environment of the host only. So a later process works with
the same entries, and on the crontab that an earlier one has made.
-/

set_option autoImplicit false

namespace Timetable

open Action Text OwnSection

namespace Settings

variable {s : Settings} {h h' : Host} {store : Store}

/-! ## The store of jobs -/

/-- A store has the entries that it is made of, each with some user. -/
theorem exists_withUser_of_mem_store {es : List Entry} (hstore : s.store h es = .ok store)
    {e : Entry} (he : e ∈ store.entries) : ∃ e' ∈ es, ∃ user, e = e'.withUser user := by
  obtain ⟨scheduler, hparse, hcron⟩ := exists_isCron_of_store hstore
  obtain ⟨store', hstore', hentries⟩ := store_eq_ok (h := h) hparse hcron es
  obtain rfl := Except.ok.inj (hstore.symm.trans hstore')
  rw [hentries] at he
  obtain ⟨e', he', rfl⟩ := List.mem_map.mp he
  exact ⟨e', he', _, rfl⟩

/-- The entries of jobs are found again, with the users that they have and with those that they may
get, if their strings have no line ends. -/
theorem isRegular_of_mem_jobStore (hstore : s.jobStore h = .ok store) {e : Entry}
    (he : e ∈ store.entries ++ (store.fillUsers h).entries) (hsingle : e.IsSingleLine) :
    e.IsRegular := by
  obtain ⟨es, hes, hstore⟩ := bind_eq_ok.mp hstore
  have hown : ∀ e ∈ store.entries, e.event.Reached ∧ e.commandLine ≠ "" := by
    intro e he
    obtain ⟨e', he', user, rfl⟩ := exists_withUser_of_mem_store hstore he
    obtain ⟨j, -, hj⟩ := exists_isOf_of_mem_entries hes he'
    exact ⟨hj.event, hj.commandLine_ne⟩
  obtain he | he := List.mem_append.mp he
  · exact ⟨(hown e he).1, (hown e he).2, hsingle⟩
  · rw [Store.entries_fillUsers] at he
    obtain ⟨e', he', rfl⟩ := List.mem_map.mp he
    exact ⟨(hown e' he').1, (hown e' he').2, hsingle⟩

/-- The store of the jobs depends on nothing but the environment. -/
theorem jobStore_congr (henv : h.environment = h'.environment) : s.jobStore h = s.jobStore h' := by
  simp only [jobStore, Settings.store, Store.ofEntries, Store.currentUser_congr henv]

/-! ## Operations on jobs -/

/-- **An installation of jobs** is one of their store, and its failures are reported as those of the
store. -/
theorem install_eq (s : Settings) (h : Host) :
    s.install h = s.jobStore h >>= fun store =>
      ((store.install h).2.map fun h' => (h', store.entries.length)).mapError .store := by
  simp only [install, installing, result_bind, result_look]
  cases s.jobStore h with
  | error e => rfl
  | ok store =>
    simp only [Except.map, ok_bind, result_mapError, Store.result_installing]
    cases (store.install h).2 with
    | error e => rfl
    | ok h' => simp only [Except.mapError, ok_bind, result_pure, store.length_install]

/-- **A removal of jobs** is one of their store. -/
theorem uninstall_eq (s : Settings) (h : Host) :
    s.uninstall h = s.jobStore h >>= fun store => (store.remove h).mapError .store := by
  simp only [uninstall, removing, result_bind, result_look]
  cases s.jobStore h with
  | error e => rfl
  | ok store => exact result_mapError ..

/-- An installation of jobs succeeds exactly if that of their store does, and counts the entries. -/
theorem install_eq_ok_iff (hstore : s.jobStore h = .ok store) {n : Nat} :
    s.install h = .ok (h', n) ↔ (store.install h).2 = .ok h' ∧ n = store.entries.length := by
  rw [install_eq, hstore, ok_bind, mapError_eq_ok, map_eq_ok]
  constructor
  · rintro ⟨h₁, hok, heq⟩
    obtain ⟨rfl, rfl⟩ := Prod.mk.inj heq
    exact ⟨hok, rfl⟩
  · rintro ⟨hok, rfl⟩
    exact ⟨h', hok, rfl⟩

/-- A removal of jobs succeeds exactly if that of their store does. -/
theorem uninstall_eq_ok_iff (hstore : s.jobStore h = .ok store) {n : Nat} :
    s.uninstall h = .ok (h', n) ↔ store.remove h = .ok (h', n) := by
  rw [uninstall_eq, hstore, ok_bind, mapError_eq_ok]

/-! ## Jobs and a crontab file -/

/-- The jobs of some settings go into a crontab file: their store, the path of the file and the
text that it holds. The strings of the entries are plain, whatever users they get, and the own
section of the text has lines of its own. -/
structure WorksOn (s : Settings) (h : Host) (store : Store) (path : String) (t : List Char) :
    Prop where
  jobStore : s.jobStore h = .ok store
  file : store.file = some path
  plain : ∀ e ∈ store.entries ++ (store.fillUsers h).entries, e.IsPlain
  holds : h.FileHolds path t
  tidy : IsTidy t

namespace WorksOn

variable {path : String} {t : List Char}

/-- What goes into a crontab is found again. -/
theorem isRegular (hs : s.WorksOn h store path t) (c : List Char) :
    ∀ e ∈ (store.fitted h (.file path) c).entries, e.IsRegular := by
  intro e he
  have hmem := Store.mem_of_mem_fitted he
  exact isRegular_of_mem_jobStore hs.jobStore hmem (hs.plain e hmem).singleLine

/-- What goes into a crontab does not end the section. -/
theorem isUnmarked (hs : s.WorksOn h store path t) (c : List Char) :
    Cron.IsUnmarked (store.fitted h (.file path) c).entries :=
  Entry.isUnmarked_of_isPlain fun e he => hs.plain e (Store.mem_of_mem_fitted he)

/-- The entries of jobs with plain strings are single lines. -/
theorem isSingleLine (hs : s.WorksOn h store path t) : ∀ e ∈ store.entries, e.IsSingleLine :=
  fun e he => (hs.plain e (List.mem_append_left _ he)).singleLine

/-- And their lines do not end the section. -/
theorem isUnmarked_entries (hs : s.WorksOn h store path t) : Cron.IsUnmarked store.entries :=
  Entry.isUnmarked_of_isPlain fun e he => hs.plain e (List.mem_append_left _ he)

/-- **A later process works on what an earlier one has made.** -/
theorem withText (hs : s.WorksOn h store path t) {c : List Char} (hc : IsTidy c) :
    s.WorksOn (h.withText path c) store path c where
  jobStore := by rw [← hs.jobStore]; exact jobStore_congr rfl
  file := hs.file
  plain := hs.plain
  holds := hs.holds.withText c
  tidy := hc

/-- An installation leaves a tidy crontab, so the next process finds what `WorksOn` asks. -/
theorem isTidy_installed (hs : s.WorksOn h store path t) : IsTidy (store.installed h path t) :=
  Cron.isTidy_update (fun e he => (hs.isRegular t e he).singleLine) (hs.isUnmarked t) true hs.tidy

/-- It leaves a crontab with a proper section. -/
theorem exists_installed_eq (hs : s.WorksOn h store path t) :
    ∃ o : OwnSection, o.IsProper ∧ store.installed h path t = o.assemble := by
  obtain ⟨heq, hproper⟩ :=
    find?_eq_some_iff.mp (Cron.find?_update (hs.isUnmarked t) true hs.tidy.isProper)
  exact ⟨_, hproper, heq⟩

/-- What an installation of jobs makes of the text of the file. -/
theorem install_eq_ok_iff (hs : s.WorksOn h store path t) {n : Nat} :
    s.install h = .ok (h', n) ↔
      (Store.IsAccepted t ∧
        (String.ofList (store.installed h path t)).utf8ByteSize < StoreError.sizeLimit ∧
        h' = h.withText path (store.installed h path t)) ∧
      n = store.entries.length := by
  rw [Settings.install_eq_ok_iff hs.jobStore, Store.install_file_eq_ok_iff hs.file hs.holds]

/-- What a removal of jobs makes of the text of the file. -/
theorem uninstall_eq_ok_iff (hs : s.WorksOn h store path t) {n : Nat} :
    s.uninstall h = .ok (h', n) ↔
      Store.IsAccepted t ∧
        (String.ofList (Cron.update store.entries false t).1).utf8ByteSize <
          StoreError.sizeLimit ∧
        h' = h.withText path (Cron.update store.entries false t).1 ∧
        n = (Cron.update store.entries false t).2 := by
  rw [Settings.uninstall_eq_ok_iff hs.jobStore, Store.remove_file_eq_ok_iff hs.file hs.holds]

end WorksOn

end Settings

end Timetable
