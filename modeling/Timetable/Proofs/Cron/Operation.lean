import Timetable.Proofs.Action
import Timetable.Proofs.Success
import Timetable.Cron.Operation

/-!
What the operations on a crontab leave behind.

An operation reads, computes, and writes at its end. Before it writes a file it
has found out that the content is not too large, and what a program did with a new
table is all that it can still fail of. So a failed operation has changed nothing,
or the table of a program that has not taken the new one.

What an operation comes to is told here without actions: where it is known what
is read and what is written, it is known what an installation and a removal give.
-/

set_option autoImplicit false

namespace Timetable.Store

open Timetable.Action

variable {s s' : Store} {h h' : Host}

namespace Target

/-! ## Reading and writing -/

/-- Reading a crontab only looks at the host. -/
theorem isReadOnly_loading (t : Target) : t.loading.IsReadOnly :=
  isReadOnly_look _

/-- Writing a crontab to a file: the size is checked before anything is done. -/
theorem perform_saving_file (text path : String) (h : Host) :
    ((file path).saving text).perform h =
      if StoreError.sizeLimit ≤ text.utf8ByteSize then (.error (.tooLarge path), h)
      else ((Action.write path text.toUTF8).mapError .host).perform h := by
  simp only [saving]
  split
  · rw [perform_bind, perform_throw]
  · rfl

/-- What the answer of a program to a new table comes to: a failure to give it all of the table, or
one that the program reports. -/
def answered (name : String) : Except HostFault Outcome → Except StoreError Unit
  | .ok o => if o.succeeded then .ok () else .error (failure name o)
  | .error fault => .error (.host fault)

/-- A crontab is written by a program exactly if the program has taken it. -/
theorem answered_eq_ok_iff {name : String} {answer : Except HostFault Outcome} {u : Unit} :
    answered name answer = .ok u ↔ TableProgram.hasTaken answer = true := by
  cases answer with
  | error fault => simp [answered, TableProgram.hasTaken]
  | ok o => cases ho : o.succeeded <;> simp [answered, TableProgram.hasTaken, ho]

/-- Giving a crontab to a program: it has its new table in any case, and its answer says what is
reported. -/
theorem perform_saving_program (text name : String) (h : Host) :
    ((program name).saving text).perform h =
      match h.program name with
      | .error fault => (.error (.host fault), h)
      | .ok p =>
        (answered name (p.save text.toUTF8).1, h.withProgram name (p.save text.toUTF8).2) := by
  simp only [saving, perform_bind, perform_mapError, perform_save]
  cases h.program name with
  | error fault => rfl
  | ok p =>
    simp only
    -- the program closes its input early, or it ends and reports success or a failure
    cases (p.save text.toUTF8).1 with
    | error fault => rfl
    | ok o =>
      simp only [Except.mapError, answered]
      split
      · rfl
      · rfl

/-- **A crontab that cannot be written is as it was**, unless a program has changed it that has not
taken the new one. -/
theorem failsSafely_saving (text : String) (t : Target) : (t.saving text).FailsSafely := by
  intro h e h' hperform
  -- a file is checked and then written, and a program may have changed its table before it fails
  cases t with
  | file path =>
    rw [perform_saving_file] at hperform
    split at hperform
    · obtain ⟨-, rfl⟩ := Prod.mk.inj hperform
      exact .same (.refl h)
    · exact (failsSafely_write path _).mapError _ h e h' hperform
  | program name =>
    rw [perform_saving_program] at hperform
    cases hp : h.program name with
    | error fault =>
      rw [hp] at hperform
      obtain ⟨-, rfl⟩ := Prod.mk.inj hperform
      exact .same (.refl h)
    | ok p =>
      rw [hp] at hperform
      obtain ⟨hanswered, rfl⟩ := Prod.mk.inj hperform
      refine .notTaken hp (Bool.eq_false_iff.mpr fun htaken => ?_)
      cases (answered_eq_ok_iff (u := ()).mpr htaken).symm.trans hanswered

/-- What comes of writing to a file. -/
theorem save_file (h : Host) (text path : String) :
    (file path).save h text =
      if StoreError.sizeLimit ≤ text.utf8ByteSize then .error (.tooLarge path)
      else (h.write path text.toUTF8).mapError .host := by
  rw [save, result_eq, perform_saving_file]
  split
  · rfl
  · rw [perform_mapError, perform_write]
    cases h.write path text.toUTF8 <;> rfl

/-- What comes of writing to a program. Where the answer is a failure, what the program has then is
not told here; `failsSafely_saving` says what it can be. -/
theorem save_program (h : Host) (text name : String) :
    (program name).save h text =
      match h.program name with
      | .error fault => .error (.host fault)
      | .ok p => (answered name (p.save text.toUTF8).1).map fun _ =>
        h.withProgram name (p.save text.toUTF8).2 := by
  rw [save, result_eq, perform_saving_program]
  cases h.program name with
  | error fault => rfl
  | ok p =>
    simp only
    cases answered name (p.save text.toUTF8).1 <;> rfl

/-- **What counts as no crontab.** If the listing fails, the program has no crontab exactly when
its report starts with the words that say so. -/
theorem read_program_eq_ok_iff {name text : String} {p : TableProgram} (hp : h.program name = .ok p)
    (hfailed : p.list.succeeded = false) :
    (program name).read h = .ok text ↔
      p.list.report.startsWith "no crontab for " = true ∧ text = "" := by
  simp only [read, list, hp, hfailed, Bool.false_eq_true, if_false]
  split
  · next hstart => simp [hstart, eq_comm]
  · next hstart => simp [hstart]

end Target

/-! ## Operations -/

/-- Reading the crontab of a store leaves everything as it is. -/
theorem isReadOnly_loading (s : Store) : s.loading.IsReadOnly :=
  (isReadOnly_look _).bind fun t => t.isReadOnly_loading.bind fun _ => isReadOnly_pure _

/-- So does reading the entries in it. -/
theorem isReadOnly_listing (s : Store) : s.listing.IsReadOnly := by
  refine (isReadOnly_look _).bind fun t => t.isReadOnly_loading.bind fun text => ?_
  split
  · exact isReadOnly_pure _
  · exact isReadOnly_pure _

/-- And all that an installation does before it writes. -/
theorem isReadOnly_preparing (s : Store) : s.preparing.IsReadOnly := by
  refine (isReadOnly_look _).bind fun t => t.isReadOnly_loading.bind fun text => ?_
  exact (isReadOnly_look _).bind fun s' => isReadOnly_pure _

/-- **An installation writes last**, so it fails as safely as the writing does. -/
theorem failsSafely_installing (s : Store) : s.installing.FailsSafely := by
  refine s.isReadOnly_preparing.bind_failsSafely fun (t, text, s') => ?_
  exact (t.failsSafely_saving _).bind_pure fun _ => s'

/-- **A removal writes last** as well. -/
theorem failsSafely_removing (s : Store) : s.removing.FailsSafely := by
  refine (isReadOnly_look _).bind_failsSafely fun t => ?_
  refine t.isReadOnly_loading.bind_failsSafely fun text => ?_
  exact (t.failsSafely_saving _).bind_pure fun _ => _

/-! ## What comes of an operation -/

/-- The crontab of a store is what is taken from its place. -/
theorem load_eq {target : Target} (htarget : s.target = .ok target) :
    s.load h = (target.load h).map String.ofList := by
  simp only [load, loading, Target.loading, result_bind, result_look, htarget, Except.map, ok_bind]
  cases target.load h with
  | error e => rfl
  | ok text => rfl

/-- What an installation needs is what is read, and nothing is written yet. -/
theorem result_preparing (s : Store) (h : Host) :
    s.preparing.result h = do
      let t ← s.target
      let text ← t.load h
      return (h, t, text, s.fitted h t text) := by
  simp only [preparing, Target.loading, result_bind, result_look]
  cases s.target with
  | error e => rfl
  | ok t =>
    simp only [Except.map, ok_bind]
    cases t.load h with
    | error e => rfl
    | ok text => rfl

/-- **What an installation comes to.** The entries get their users as soon as the crontab is read,
and they keep them even if the crontab cannot be written. -/
theorem install_eq (s : Store) (h : Host) :
    s.install h =
      match s.target with
      | .error e => (s, .error e)
      | .ok t =>
        match t.load h with
        | .error e => (s, .error e)
        | .ok text => (s.fitted h t text, t.save h
            (String.ofList (Cron.update (s.fitted h t text).entries true text).1)) := by
  simp only [install, prepared, installing, result_bind, result_preparing]
  cases s.target with
  | error e => rfl
  | ok t =>
    simp only [ok_bind]
    cases t.load h with
    | error e => rfl
    | ok text =>
      simp only [ok_bind, pure, Except.pure, Target.save]
      -- the store is there already, and only the host waits for what is written
      cases (t.saving _).result h with
      | error e => rfl
      | ok r => rfl

/-- An installation that is done gives the store with the users that were written. -/
theorem result_installing (s : Store) (h : Host) :
    s.installing.result h = (s.install h).2.map fun h' => (h', (s.install h).1) := by
  simp only [install, prepared, installing, result_bind, result_preparing]
  -- an installation fails at the place, at what is read there, or at the writing
  cases s.target with
  | error e => rfl
  | ok t =>
    simp only [ok_bind]
    cases t.load h with
    | error e => rfl
    | ok text =>
      simp only [ok_bind, pure, Except.pure]
      cases (t.saving _).result h with
      | error e => rfl
      | ok r => rfl

/-- **What a removal comes to.** -/
theorem remove_eq (s : Store) (h : Host) :
    s.remove h = do
      let t ← s.target
      let text ← t.load h
      let h' ← t.save h (String.ofList (Cron.update s.entries false text).1)
      return (h', (Cron.update s.entries false text).2) := by
  simp only [remove, removing, Target.loading, Target.save, result_bind, result_look]
  -- a removal fails at the same places
  cases s.target with
  | error e => rfl
  | ok t =>
    simp only [Except.map, ok_bind]
    cases t.load h with
    | error e => rfl
    | ok text =>
      simp only [ok_bind]
      cases (t.saving (String.ofList (Cron.update s.entries false text).1)).result h with
      | error e => rfl
      | ok r => rfl

end Timetable.Store
