import Timetable.Proofs.Cron.Operation
import Timetable.Proofs.Cron.User
import Timetable.Proofs.Host
import Timetable.Proofs.Success

/-!
Stores whose crontab is a file.

A crontab that is read from a file is taken if it is not too large and has no
generated header. Then everything else is decided by its text: an operation
makes one update and writes what comes out, unless that has become too large. So
an operation succeeds exactly when the text that is there is taken and the one
that is made is not too large, and what another operation finds is that one.
-/

set_option autoImplicit false

namespace Timetable.Store

open Text OwnSection

/-- A crontab that is taken when it is read from a file. -/
structure IsAccepted (crontab : List Char) : Prop where
  size : (String.ofList crontab).utf8ByteSize < StoreError.sizeLimit
  noHeader : Cron.hasHeader crontab = false

/-- A character has four bytes at most. -/
theorem utf8ByteSize_ofList_le (t : List Char) :
    (String.ofList t).utf8ByteSize ≤ 4 * t.length := by
  induction t with
  | nil => exact Nat.le_refl _
  | cons c t ih =>
    have hc := c.utf8Size_le_four
    rw [String.ofList_cons, String.utf8ByteSize_append, String.utf8ByteSize_singleton,
      List.length_cons]
    omega

/-- A text gets no larger in bytes when characters are left out. -/
theorem utf8ByteSize_le_of_sublist {s t : List Char} (h : s.Sublist t) :
    (String.ofList s).utf8ByteSize ≤ (String.ofList t).utf8ByteSize := by
  induction h with
  | slnil => exact Nat.le_refl _
  | cons c _ ih =>
    rw [String.ofList_cons, String.utf8ByteSize_append]
    omega
  | cons_cons c _ ih =>
    rw [String.ofList_cons, String.utf8ByteSize_append, String.ofList_cons,
      String.utf8ByteSize_append]
    omega

variable {s : Store} {h h' : Host} {path : String} {t : List Char}

namespace Target

/-- Reading a file that holds a text gives the text, if the file is not too large. -/
theorem readFile_eq (ht : h.FileHolds path t) :
    readFile h path =
      if StoreError.sizeLimit ≤ (String.ofList t).utf8ByteSize then .error (.tooLarge path)
      else .ok (String.ofList t) := by
  cases ht with
  | file text hp =>
    -- the bytes of a text are valid, so they are read back as that text
    have hvalid := text.isValidUTF8
    simp [readFile, Host.read, hp, String.fromUTF8?, String.fromUTF8, hvalid]
  | free hp => simp [readFile, Host.read, hp, StoreError.sizeLimit]

/-- **What is read from a file**: its text, if it is taken. -/
theorem load_file_eq_ok_iff (ht : h.FileHolds path t) {c : List Char} :
    load h (.file path) = .ok c ↔ IsAccepted t ∧ c = t := by
  simp only [load, read, readFile_eq ht, bind_eq_ok]
  constructor
  -- the size is checked first, then the header
  · rintro ⟨text, htext, hload⟩
    split at htext
    · cases htext
    next hsize =>
    obtain rfl := Except.ok.inj htext
    split at hload
    · cases hload
    next hheader =>
    rw [String.toList_ofList] at hload hheader
    exact ⟨⟨by omega, by simpa using hheader⟩, (Except.ok.inj hload).symm⟩
  · rintro ⟨⟨hsize, hheader⟩, rfl⟩
    exact ⟨String.ofList c, by rw [if_neg (by omega)], by simp [hheader]⟩

/-- **What is written to a file** takes the place of what is there, unless it is too large. -/
theorem save_file_eq_ok_iff (ht : h.FileHolds path t) {c : List Char} :
    save h (String.ofList c) (.file path) = .ok h' ↔
      (String.ofList c).utf8ByteSize < StoreError.sizeLimit ∧ h' = h.withText path c := by
  simp only [save_file, ht.write_eq, Host.withText]
  split
  · next hsize => simp [Nat.not_lt.mpr hsize]
  · next hsize => simp [Nat.not_le.mp hsize, Except.mapError, eq_comm]

end Target

/-! ## Operations on files -/

/-- A file is the place of the crontab whether or not there is a program. -/
theorem target_of_file (hfile : s.file = some path) : s.target = .ok (.file path) := by
  rw [target, hfile]

/-- The crontab that an installation makes of one in a file. -/
def installed (s : Store) (h : Host) (path : String) (crontab : List Char) : List Char :=
  (Cron.update (s.fitted h (.file path) crontab).entries true crontab).1

/-- An installation in a file succeeds if the crontab that is there is taken and the one that is
made is not too large, and the file has this one then. -/
theorem install_file_eq_ok_iff (hfile : s.file = some path) (ht : h.FileHolds path t) :
    (s.install h).2 = .ok h' ↔
      IsAccepted t ∧
        (String.ofList (s.installed h path t)).utf8ByteSize < StoreError.sizeLimit ∧
        h' = h.withText path (s.installed h path t) := by
  rw [install_eq, target_of_file hfile]
  cases hload : Target.load h (.file path) with
  | error e =>
    -- what is accepted would have been read
    have hnot : ¬ IsAccepted t := fun hacc => by
      have hok := (Target.load_file_eq_ok_iff ht).mpr ⟨hacc, rfl⟩
      rw [hload] at hok
      cases hok
    simp [hload, hnot]
  | ok c =>
    obtain ⟨hacc, rfl⟩ := (Target.load_file_eq_ok_iff ht).mp hload
    simp only [hload, Target.save_file_eq_ok_iff ht, hacc, true_and, installed]

/-- An installation in a file succeeds if the crontab that is there is taken and the one that is
made is short. -/
theorem exists_install_file (hfile : s.file = some path) (ht : h.FileHolds path t)
    (hacc : IsAccepted t) (hlength : 4 * (s.installed h path t).length < StoreError.sizeLimit) :
    ∃ h', (s.install h).2 = .ok h' :=
  ⟨_, (install_file_eq_ok_iff hfile ht).mpr
    ⟨hacc, (utf8ByteSize_ofList_le _).trans_lt hlength, rfl⟩⟩

/-- After an installation in a file, the store has the entries that were written, and the file has
the crontab that was made. -/
theorem install_file_eq (hfile : s.file = some path) (ht : h.FileHolds path t)
    (hok : (s.install h).2 = .ok h') :
    (s.install h).1 = s.fitted h (.file path) t ∧
      h'.FileHolds path (Cron.update (s.install h).1.entries true t).1 := by
  obtain ⟨hacc, -, rfl⟩ := (install_file_eq_ok_iff hfile ht).mp hok
  have hload := (Target.load_file_eq_ok_iff ht).mpr ⟨hacc, rfl⟩
  have hfst : (s.install h).1 = s.fitted h (.file path) t := by
    rw [install_eq, target_of_file hfile]
    simp only [hload]
  refine ⟨hfst, ?_⟩
  rw [hfst]
  exact ht.withText _

/-- A removal from a file succeeds under the same conditions, and it has the number of lines that
went. -/
theorem remove_file_eq_ok_iff (hfile : s.file = some path) (ht : h.FileHolds path t) {n : Nat} :
    s.remove h = .ok (h', n) ↔
      IsAccepted t ∧
        (String.ofList (Cron.update s.entries false t).1).utf8ByteSize < StoreError.sizeLimit ∧
        h' = h.withText path (Cron.update s.entries false t).1 ∧
        n = (Cron.update s.entries false t).2 := by
  simp only [remove_eq, target_of_file hfile, bind_eq_ok, pure_eq_ok, Except.ok.injEq,
    exists_eq_left', Target.load_file_eq_ok_iff ht]
  constructor
  · rintro ⟨c, ⟨hacc, rfl⟩, h₁, hsave, heq⟩
    obtain ⟨hsize, rfl⟩ := (Target.save_file_eq_ok_iff ht).mp hsave
    obtain ⟨rfl, rfl⟩ := Prod.mk.inj heq
    exact ⟨hacc, hsize, rfl, rfl⟩
  · rintro ⟨hacc, hsize, rfl, rfl⟩
    exact ⟨t, ⟨hacc, rfl⟩, _, (Target.save_file_eq_ok_iff ht).mpr ⟨hsize, rfl⟩, rfl⟩

/-! ## Users -/

/-- Who runs the scheduler depends on nothing but the environment. -/
theorem currentUser_congr (henv : h.environment = h'.environment) :
    currentUser h = currentUser h' := by
  have hvalue : h.valueOf? = h'.valueOf? := by
    funext name
    rw [Host.valueOf?, Host.valueOf?, henv]
  rw [currentUser, currentUser, hvalue]

/-- The users that are filled in depend on nothing but the environment, -/
theorem fillUsers_congr (henv : h.environment = h'.environment) :
    s.fillUsers h = s.fillUsers h' := by
  simp only [fillUsers, userName, currentUser_congr henv]

/-- and neither does what is installed. -/
theorem installed_congr (henv : h.environment = h'.environment) :
    s.installed h path t = s.installed h' path t := by
  simp only [installed, fitted, fillUsers_congr henv]

/-- The user that an entry gets for a crontab: its own one, or a name if the crontab has a user
column and the entry has no user. -/
def fittedUser (s : Store) (h : Host) (crontab : List Char) (e : Entry) : String :=
  if Cron.hasUserColumn crontab && !e.hasUser then s.userName h else e.user

/-- The entries with users: one name for all that have none. -/
theorem entries_fillUsers (s : Store) (h : Host) :
    (s.fillUsers h).entries =
      s.entries.map fun e => e.withUser (if e.hasUser then e.user else s.userName h) := by
  refine List.map_congr_left fun e _ => ?_
  split <;> rfl

/-- The entries that are written to a file, with the users that the crontab asks for. -/
theorem entries_fitted (s : Store) (h : Host) (path : String) (crontab : List Char) :
    (s.fitted h (.file path) crontab).entries =
      Cron.withUsers (s.fittedUser h crontab) s.entries := by
  simp only [fitted, Cron.withUsers]
  by_cases hcolumn : Cron.hasUserColumn crontab = true
  · rw [if_pos hcolumn, entries_fillUsers]
    refine List.map_congr_left fun e _ => ?_
    by_cases huser : e.hasUser = true <;> simp [fittedUser, hcolumn, huser]
  · rw [if_neg hcolumn]
    refine (List.map_id'' (fun e => ?_) s.entries).symm
    simp [fittedUser, hcolumn, Entry.withUser]

/-- What is installed, with the users told entry by entry. -/
theorem installed_eq (s : Store) (h : Host) (path : String) (crontab : List Char) :
    s.installed h path crontab =
      (Cron.update (Cron.withUsers (s.fittedUser h crontab) s.entries) true crontab).1 := by
  rw [installed, entries_fitted]

/-- There are as many entries with users as without. -/
theorem length_fitted (s : Store) (h : Host) (target : Target) (crontab : List Char) :
    (s.fitted h target crontab).entries.length = s.entries.length := by
  cases target with
  | program name => rfl
  | file path => rw [entries_fitted, Cron.withUsers, List.length_map]

/-- An installation changes users only, so there are as many entries as before. -/
theorem length_install (s : Store) (h : Host) :
    (s.install h).1.entries.length = s.entries.length := by
  rw [install_eq]
  split
  · rfl
  · split
    · rfl
    · exact length_fitted ..

/-- The entries for a crontab are those of the store, or those with a user for each. -/
theorem mem_of_mem_fitted {target : Target} {crontab : List Char} {e : Entry}
    (he : e ∈ (s.fitted h target crontab).entries) : e ∈ s.entries ++ (s.fillUsers h).entries := by
  cases target with
  | program name => exact List.mem_append_left _ he
  | file path =>
    simp only [fitted] at he
    split at he
    · exact List.mem_append_right _ he
    · exact List.mem_append_left _ he

/-- For two crontabs the same is written for all users if both have a user column or neither has,
or if there is no name to write: because all entries have users, or because the name is one that is
not written. -/
theorem userText_fittedUser_eq_iff {c : List Char} :
    (∀ e ∈ s.entries,
        Entry.userText (s.fittedUser h c e) = Entry.userText (s.fittedUser h t e)) ↔
      Cron.hasUserColumn c = Cron.hasUserColumn t ∨ (∀ e ∈ s.entries, e.hasUser = true) ∨
        s.userName h = "" ∨ s.userName h = Entry.currentUser := by
  have hnone {e : Entry} (he : ¬ e.hasUser = true) : e.user = "" := by
    simpa [Entry.hasUser] using he
  have hempty : Entry.userText "" = "" := Entry.userText_eq_empty_iff.mpr (.inl rfl)
  rw [← Entry.userText_eq_empty_iff]
  constructor
  · intro hsame
    by_cases hcolumn : Cron.hasUserColumn c = Cron.hasUserColumn t
    · exact .inl hcolumn
    by_cases hall : ∀ e ∈ s.entries, e.hasUser = true
    · exact .inr (.inl hall)
    -- an entry without a user has the name in one of the two crontabs only
    obtain ⟨e, he, huser⟩ : ∃ e ∈ s.entries, ¬ e.hasUser = true := by simpa using hall
    have heq := hsame e he
    cases hc : Cron.hasUserColumn c <;> cases ht : Cron.hasUserColumn t <;>
      simp [fittedUser, hc, ht, huser, hnone huser, hempty] at heq hcolumn
    all_goals exact .inr (.inr heq)
  · rintro (hcolumn | hall | hname) e he
    · rw [fittedUser, fittedUser, hcolumn]
    · simp [fittedUser, hall e he]
    · by_cases huser : e.hasUser = true
      · simp [fittedUser, huser]
      · have htext (crontab : List Char) : Entry.userText (s.fittedUser h crontab e) = "" := by
          rw [fittedUser, hnone huser]
          split
          · exact hname
          · exact hempty
        rw [htext, htext]

end Timetable.Store
