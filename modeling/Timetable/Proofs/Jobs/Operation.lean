import Timetable.CommandLine
import Timetable.Proofs.Cron.Operation
import Timetable.Proofs.Jobs.Crontab

/-!
Failed operations.

Settings are read and jobs are made into entries before the crontab is touched.
From there on an operation on jobs is one on a store. So an operation that fails,
wherever it does, has changed nothing but the table of a program that has not
taken the new one, and so has a command that ends with a failure. What only reads
leaves all files and tables in any case.

A program that keeps its table when it does not take a new one is a hypothesis here.
It has two halves. A program that reports a failure keeps its table; that is what
is asked of any `crontab`. And a program that closes its input before all of it is
written keeps its table as well. The second half is needed because the write fails
then, whatever the program reports and whatever it has made of what it read.
-/

set_option autoImplicit false

namespace Timetable

open Timetable.Action

namespace Settings

theorem failsSafely_installing (s : Settings) : s.installing.FailsSafely := by
  refine (isReadOnly_look _).bind_failsSafely fun store => ?_
  exact (store.failsSafely_installing.mapError _).bind_pure fun store => store.entries.length

theorem failsSafely_removing (s : Settings) : s.removing.FailsSafely :=
  (isReadOnly_look _).bind_failsSafely fun store => store.failsSafely_removing.mapError _

theorem isReadOnly_listing (s : Settings) : s.listing.IsReadOnly :=
  (isReadOnly_look _).bind fun store => store.isReadOnly_listing.mapError _

end Settings

namespace Command

/-- A response to an action that fails safely: a failure of the command is one of the action. -/
theorem afterFailure_respond {α : Type} {m : Action JobsError α} (hm : m.FailsSafely)
    {answer : α → Response} (hanswer : ∀ a, (answer a).exitCode = 0) {h : Host}
    (hfailed : (respond m answer h).2.exitCode ≠ 0) : h.AfterFailure (respond m answer h).1 := by
  rw [respond] at hfailed ⊢
  split at hfailed
  · exact absurd (hanswer _) hfailed
  · next e h' hperform => exact hm h e h' hperform

/-- **What a command that fails can change**: nothing but the table of a program that has not taken
the new one. The commands that show something about expressions work on no crontab at all. -/
theorem afterFailure_run {h : Host} {now : Instant} {asked : Option String} {c : Command}
    (hfailed : (c.run h now asked).2.exitCode ≠ 0) : h.AfterFailure (c.run h now asked).1 := by
  cases c with
  | preview xs =>
    simp only [run]
    split
    · exact .same (.refl h)
    · exact .same (.refl h)
  | cron xs =>
    simp only [run]
    split
    · exact .same (.refl h)
    · exact .same (.refl h)
  | launchd xs =>
    simp only [run]
    split
    · exact .same (.refl h)
    · exact .same (.refl h)
  -- the response fails only if the action does
  | install =>
    rw [run] at hfailed ⊢
    exact afterFailure_respond (settings h asked).failsSafely_installing (fun _ => rfl) hfailed
  | remove =>
    rw [run] at hfailed ⊢
    exact afterFailure_respond (settings h asked).failsSafely_removing (fun _ => rfl) hfailed
  | list =>
    rw [run] at hfailed ⊢
    exact afterFailure_respond (settings h asked).isReadOnly_listing.failsSafely (fun _ => rfl)
      hfailed

end Command

/-- **A failed operation leaves the crontab as it was**, on any host whose programs keep their
tables when they do not take new ones. This holds of the operations on a store, of those on jobs,
and of commands, whatever the cause of the failure is. Reading leaves the crontab in any case. And a
listing that fails is taken for an empty crontab only where the report of the program starts with
the words that say so. -/
theorem operations_keep_crontab {h : Host} (hprograms : h.KeepsOnFailure) (store : Store)
    (s : Settings) :
    (store.installing.KeepsOnError h ∧ store.removing.KeepsOnError h ∧
        s.installing.KeepsOnError h ∧ s.removing.KeepsOnError h) ∧
      (store.loading.IsReadOnly ∧ store.listing.IsReadOnly ∧ s.listing.IsReadOnly) ∧
      (∀ (now : Instant) (asked : Option String) (c : Command),
        (c.run h now asked).2.exitCode ≠ 0 → h.Agrees (c.run h now asked).1) ∧
      ∀ (name : String) (p : TableProgram) (text : String), h.program name = .ok p →
        p.list.succeeded = false →
        ((Store.Target.program name).read h = .ok text ↔
          p.list.report.startsWith "no crontab for " = true ∧ text = "") := by
  refine ⟨⟨?_, ?_, ?_, ?_⟩, ⟨?_, ?_, ?_⟩, ?_, ?_⟩
  · exact store.failsSafely_installing.keepsOnError hprograms
  · exact store.failsSafely_removing.keepsOnError hprograms
  · exact s.failsSafely_installing.keepsOnError hprograms
  · exact s.failsSafely_removing.keepsOnError hprograms
  · exact store.isReadOnly_loading
  · exact store.isReadOnly_listing
  · exact s.isReadOnly_listing
  · exact fun now asked c hfailed => (Command.afterFailure_run hfailed).agrees hprograms
  · exact fun name p text hp hfailed => Store.Target.read_program_eq_ok_iff hp hfailed

/-- A host whose only program has no table, gives this answer to a new one, and takes none. -/
def refusingHost (answer : Except HostFault Outcome) : Host :=
  { programs := [("crontab", { saving := fun table _ => (answer, table) })] }

/-- It keeps its table whatever it answers. -/
theorem keepsOnFailure_refusingHost (answer : Except HostFault Outcome) :
    (refusingHost answer).KeepsOnFailure := by
  intro name p hp table bytes _
  have hlookup := Host.lookup_of_program hp
  simp only [refusingHost, List.lookup_cons, List.lookup_nil] at hlookup
  split at hlookup
  · rw [← Option.some.inj hlookup]
  · cases hlookup

/-- The program says that it has no table, which counts as an empty crontab, and then it refuses the
new one, or it closes its input: the installation fails, and there still is no table. -/
theorem operations_keep_crontab_refused :
    (Store.Target.program "crontab").read (refusingHost (.ok { exitCode := 1 })) = .ok "" ∧
      (∃ e h', (Settings.installing { scheduler := "crond" }).perform
          (refusingHost (.ok { exitCode := 1 })) = (.error e, h') ∧
        (refusingHost (.ok { exitCode := 1 })).Agrees h') ∧
      ∃ e h', (Settings.installing { scheduler := "crond" }).perform
          (refusingHost (.error .closedInput)) = (.error e, h') ∧
        (refusingHost (.error .closedInput)).Agrees h' := by
  -- the program reports a failure
  obtain ⟨⟨-, -, hrefused, -⟩, -, -, hlisting⟩ := operations_keep_crontab
    (keepsOnFailure_refusingHost (.ok { exitCode := 1 })) {} { scheduler := "crond" }
  -- the program closes its input, so that the write fails
  obtain ⟨⟨-, -, hclosed, -⟩, -⟩ := operations_keep_crontab
    (keepsOnFailure_refusingHost (.error .closedInput)) {} { scheduler := "crond" }
  -- that both installations fail is computed
  refine ⟨?_, hrefused.exists_perform_eq (by decide +kernel),
    hclosed.exists_perform_eq (by decide +kernel)⟩
  exact (hlisting "crontab" { saving := fun table _ => (.ok { exitCode := 1 }, table) } "" rfl
    rfl).mpr ⟨by decide +kernel, rfl⟩

/-- A host whose only program takes the first bytes of a new table and closes its input then. -/
def hastyHost : Host :=
  { programs := [("crontab", { saving := fun _ bytes =>
      (.error .closedInput, some (bytes.extract 0 3)) })] }

/-- Without the hypothesis an operation that fails can leave another table: the write has failed,
and the program has what it read of it. -/
example :
    ((Settings.installing { scheduler := "crond" }).perform hastyHost).1.isOk = false ∧
      ((Settings.installing { scheduler := "crond" }).perform hastyHost).2.programs.map
        (fun p => p.2.table.map fun bytes => bytes.data.toList) = [some [0x0A, 0x23, 0x23]] := by
  decide +kernel

end Timetable
