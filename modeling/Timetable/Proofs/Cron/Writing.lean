import Timetable.Proofs.Action
import Timetable.Proofs.Cron.Header
import Timetable.Proofs.Cron.Store
import Timetable.Proofs.Cron.Update
import Timetable.Proofs.Text.Utf8

/-!
What a store has written.

An installation and a removal read the crontab of their place, make one update of
it and write what comes out to the same place. So what is there afterwards is
known when it is known what the update makes of what was read: in a file it is
the text that was written, and a program that keeps its table has its bytes.
-/

set_option autoImplicit false

namespace Timetable

/-- A program that gets another state has it. -/
theorem Host.program_withProgram {h : Host} {name : String} {p : TableProgram}
    (hp : h.program name = .ok p) (p' : TableProgram) :
    (h.withProgram name p').program name = .ok p' := by
  have hlookup : (h.withProgram name p').programs.lookup name = some p' := by
    rw [withProgram, lookup_map_replace, lookup_of_program hp]
    simp
  rw [program, hlookup]

/-- A program that lists the table that it has, and has a new one as soon as it reports that it has
taken it. Nothing is said of what it reports where there is no table, nor of the contents that it
takes. -/
structure TableProgram.KeepsTable (p : TableProgram) : Prop where
  succeeded : ∀ bytes, (p.listing (some bytes)).succeeded = true
  stdout : ∀ bytes, (p.listing (some bytes)).stdout = bytes
  saving : ∀ table bytes, hasTaken (p.saving table bytes).1 = true →
    (p.saving table bytes).2 = some bytes

/-- A program of which nothing else is said keeps its table. -/
theorem TableProgram.keepsTable (table : Option ByteArray) : KeepsTable { table } where
  succeeded _ := rfl
  stdout _ := rfl
  saving _ _ _ := rfl

namespace Store

open Text OwnSection

variable {s s' : Store} {h h' : Host} {add : Bool} {name path text : String} {t : List Char}
  {p : TableProgram}

namespace Target

/-- What is taken from a place: what is read there, without the header. -/
theorem load_eq_ok {target : Target} (hload : target.load h = .ok t) :
    ∃ text, target.read h = .ok text ∧ t = Cron.dropHeader text.toList := by
  simp only [load, bind_eq_ok] at hload
  obtain ⟨text, hread, hload⟩ := hload
  refine ⟨text, hread, ?_⟩
  split at hload
  · cases target with
    | file path => cases hload
    | program name => exact (Except.ok.inj hload).symm
  · next hheader =>
    rw [Cron.dropHeader_of_not_hasHeader (by simpa using hheader)]
    exact (Except.ok.inj hload).symm

/-- What is listed is taken without the header. -/
theorem load_program (hread : (program name).read h = .ok text) :
    (program name).load h = .ok (Cron.dropHeader text.toList) := by
  simp only [load, bind_eq_ok]
  refine ⟨text, hread, ?_⟩
  split
  · rfl
  · next hheader => rw [Cron.dropHeader_of_not_hasHeader (by simpa using hheader)]

/-- What is read from a file is taken, or it is refused because of its header. -/
theorem load_file_eq (hread : (file path).read h = .ok text) :
    (file path).load h =
      if Cron.hasHeader text.toList then .error (.generated path) else .ok text.toList := by
  rw [load, hread]
  rfl

/-! ## Files -/

/-- Where a file has been read and could be written, there was a text, or no file yet. -/
theorem fileHolds_of_save {t' : String} (hread : (file path).read h = .ok text)
    (hsave : (file path).save h t' = .ok h') : h.FileHolds path text.toList := by
  simp only [read, readFile, Host.read] at hread
  cases hplace : h.place path with
  | file bytes =>
    rw [hplace] at hread
    simp only at hread
    split at hread
    · cases hread
    split at hread
    · next text' htext =>
      obtain rfl := Except.ok.inj hread
      obtain rfl := fromUTF8?_eq_some_iff.mp htext
      exact .file text' hplace
    · cases hread
  | free =>
    rw [hplace] at hread
    obtain rfl := Except.ok.inj hread
    exact .free hplace
  | nowhere =>
    -- it reads as an empty crontab, but nothing can be written there
    simp only [save_file, Host.write, hplace] at hsave
    split at hsave
    · cases hsave
    · cases hsave
  | directory =>
    rw [hplace] at hread
    cases hread
  | impossible =>
    rw [hplace] at hread
    cases hread

/-! ## Programs -/

/-- A program that keeps its table lists the text of its bytes. -/
theorem read_program_of_table (hp : h.program name = .ok p) (hk : p.KeepsTable) {bytes : ByteArray}
    (htable : p.table = some bytes) : (program name).read h = .ok (lossyText bytes) := by
  simp [read, list, hp, TableProgram.list, htable, hk.succeeded, hk.stdout]

/-- A program that keeps its table has the bytes of what is written. -/
theorem save_program_eq_ok (hp : h.program name = .ok p) (hk : p.KeepsTable)
    (hsave : (program name).save h text = .ok h') :
    h'.program name = .ok { p with table := some text.toUTF8 } := by
  rw [save_program, hp] at hsave
  obtain ⟨u, hanswered, rfl⟩ := map_eq_ok.mp hsave
  have htable := hk.saving p.table text.toUTF8 (answered_eq_ok_iff.mp hanswered)
  rw [TableProgram.save, htable]
  exact Host.program_withProgram hp _

end Target

/-! ## Operations -/

/-- A store has written the crontab of a host: its entries have been put in or taken out. Then it is
`s'`, with the users that the entries were given. -/
inductive Writes (s : Store) (h : Host) : Bool → Store → Host → Prop where
  | install {h' : Host} : (s.install h).2 = .ok h' → Writes s h true (s.install h).1 h'
  | remove {h' : Host} {n : Nat} : s.remove h = .ok (h', n) → Writes s h false s h'

/-- The users of the entries have no say in where the crontab is. -/
theorem target_fitted (s : Store) (h : Host) (target : Target) (crontab : List Char) :
    (s.fitted h target crontab).target = s.target := by
  cases target with
  | program name => rfl
  | file path =>
    simp only [fitted]
    split
    · rfl
    · rfl

/-- **What has been written is an update** of what was read from the same place. -/
theorem Writes.exists_update (hw : s.Writes h add s' h') :
    ∃ target t, s.target = .ok target ∧ s'.target = .ok target ∧ target.load h = .ok t ∧
      target.save h (String.ofList (Cron.update s'.entries add t).1) = .ok h' := by
  cases hw with
  | install hinstall =>
    cases htarget : s.target with
    | error e => simp [install_eq, htarget] at hinstall
    | ok target =>
      cases hload : target.load h with
      | error e => simp [install_eq, htarget, hload] at hinstall
      | ok t =>
        have heq : s.install h = (s.fitted h target t, target.save h
            (String.ofList (Cron.update (s.fitted h target t).entries true t).1)) := by
          simp [install_eq, htarget, hload]
        rw [heq] at hinstall
        refine ⟨target, t, rfl, ?_, hload, ?_⟩
        · rw [heq, target_fitted, htarget]
        · rwa [heq]
  | remove hremove =>
    simp only [remove_eq, bind_eq_ok, pure_eq_ok] at hremove
    obtain ⟨target, htarget, t, hload, h₁, hsave, heq⟩ := hremove
    obtain ⟨rfl, -⟩ := Prod.mk.inj heq
    exact ⟨target, t, htarget, htarget, hload, hsave⟩

end Store

end Timetable
