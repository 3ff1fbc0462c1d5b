import Timetable.Action
import Timetable.Proofs.Success

/-!
What actions leave of a host.

An action that only looks leaves the host as it is. An action that writes once,
at its end, leaves the host as it was if it fails, provided that the write does.
So whether a failed operation has changed anything can be seen from the order of
its steps: what reads may come before what writes, and what can fail may not come
behind it.

A file that cannot be written is as it was. A program is asked only for its answer,
and it may have changed its table before it reports a failure, or before it closes
its input. So what can be proved of every program is `FailsSafely`: after a failure
there is nothing new but the table of one program that has not taken what it was
given. That such a program keeps its table is the hypothesis `KeepsOnFailure`, and
with it nothing at all has changed.
-/

set_option autoImplicit false

namespace Timetable

/-! ## Hosts with the same contents -/

/-- A host that has the contents of another one: the same files are read, and the programs have
the same tables. -/
structure Host.Agrees (h h' : Host) : Prop where
  read : h'.read = h.read
  program : h'.program = h.program

namespace Host

variable {h : Host} {name : String} {p : TableProgram}

/-- Nothing has changed where nothing was done. -/
theorem Agrees.refl (h : Host) : h.Agrees h :=
  ⟨rfl, rfl⟩

/-- A program that is found stands in the list of programs; a path to one is no way to find it. -/
theorem lookup_of_program (hp : h.program name = .ok p) : h.programs.lookup name = some p := by
  rw [program] at hp
  split at hp
  · next q hq => rw [hq, Except.ok.inj hp]
  · split at hp
    · split at hp <;> cases hp
    · cases hp

/-- After one program has been replaced, it is found in its new state and all others as before. -/
theorem lookup_map_replace (ps : List (String × TableProgram)) (n : String) :
    (ps.map fun (m, q) => if m == name then (m, p) else (m, q)).lookup n =
      if n == name then (ps.lookup n).map fun _ => p else ps.lookup n := by
  induction ps with
  | nil => simp
  | cons a ps ih =>
    obtain ⟨m, q⟩ := a
    -- the first program is asked for or not, and it is the replaced one or not
    by_cases hn : n = m <;> by_cases hm : m = name
    · subst hn hm
      simp
    · subst hn
      simp [hm]
    · subst hm
      have hne : (n == m) = false := by simpa using hn
      simp only [List.map_cons, beq_self_eq_true, if_true, List.lookup_cons, hne]
      simpa [hne] using ih
    · have hne : (n == m) = false := by simpa using hn
      have hme : (m == name) = false := by simpa using hm
      simp only [List.map_cons, hme, Bool.false_eq_true, if_false, List.lookup_cons, hne]
      exact ih

/-- A program that gets the state that it has is the program that it was. -/
theorem agrees_withProgram (hp : h.program name = .ok p) : h.Agrees (h.withProgram name p) := by
  refine ⟨rfl, funext fun n => ?_⟩
  have hlookup : (h.withProgram name p).programs.lookup n = h.programs.lookup n := by
    rw [withProgram, lookup_map_replace]
    split
    · next hn => rw [beq_iff_eq.mp hn, lookup_of_program hp, Option.map_some]
    · rfl
  have hplace : (h.withProgram name p).place n = h.place n := rfl
  rw [program, program, hlookup, hplace]

end Host

/-! ## Programs that fail -/

/-- The program keeps its table whenever it does not take a new one: when it reports a failure, and
when it closes its input before all of it is written. -/
def TableProgram.KeepsOnFailure (p : TableProgram) : Prop :=
  ∀ table bytes, hasTaken (p.saving table bytes).1 = false → (p.saving table bytes).2 = table

/-- All programs of the host keep their tables when they do not take new ones. -/
def Host.KeepsOnFailure (h : Host) : Prop :=
  ∀ name p, h.program name = .ok p → p.KeepsOnFailure

/-- What can be there after a failure, whatever the programs do: the same contents, or a program
that has not taken a new table, and has now what it made of it. -/
inductive Host.AfterFailure (h : Host) : Host → Prop where
  | same {h' : Host} : h.Agrees h' → AfterFailure h h'
  | notTaken {name : String} {p : TableProgram} {bytes : ByteArray} : h.program name = .ok p →
      TableProgram.hasTaken (p.save bytes).1 = false →
      AfterFailure h (h.withProgram name (p.save bytes).2)

/-- A program that keeps its table on failure is the same one after it has failed. -/
theorem TableProgram.KeepsOnFailure.save_eq {p : TableProgram} (hk : p.KeepsOnFailure)
    {bytes : ByteArray} (hfailed : hasTaken (p.save bytes).1 = false) : (p.save bytes).2 = p := by
  have htable : (p.saving p.table bytes).2 = p.table := hk p.table bytes hfailed
  rw [save, htable]

/-- **Nothing has changed after a failure** where the programs keep their tables. -/
theorem Host.AfterFailure.agrees {h h' : Host} (hafter : h.AfterFailure h')
    (hk : h.KeepsOnFailure) : h.Agrees h' := by
  cases hafter with
  | same hagrees => exact hagrees
  | notTaken hp hfailed =>
    rw [(hk _ _ hp).save_eq hfailed]
    exact agrees_withProgram hp

namespace Action

variable {ε ε' α β : Type} {m : Action ε α} {f : α → Action ε β}

/-! ## Doing actions -/

@[simp] theorem perform_throw (e : ε) (h : Host) :
    (throw e : Action ε α).perform h = (.error e, h) := rfl

/-- The second action is done on what the first one has left, unless that has failed. -/
theorem perform_bind (m : Action ε α) (f : α → Action ε β) (h : Host) :
    (m >>= f).perform h =
      match m.perform h with
      | (.ok a, h') => (f a).perform h'
      | (.error e, h') => (.error e, h') := by
  cases hfirst : m.perform h with
  | mk result h' =>
    have hbind : (m >>= f).perform h = ExceptT.bindCont f (m.perform h).1 (m.perform h).2 := rfl
    rw [hbind, hfirst]
    cases result with
    | ok a => rfl
    | error e => rfl

/-- Two actions one after the other fail where the first one does, or where the second one does on
the host that the first one has left. -/
theorem perform_bind_eq_error {h h' : Host} {e : ε} :
    (m >>= f).perform h = (.error e, h') ↔
      m.perform h = (.error e, h') ∨
        ∃ a h₁, m.perform h = (.ok a, h₁) ∧ (f a).perform h₁ = (.error e, h') := by
  rw [perform_bind]
  rcases hfirst : m.perform h with ⟨a | a, h₁⟩
  · simp
  · simp

/-- Only the report of a failure is another one, and what was done stays done. -/
theorem perform_mapError (g : ε → ε') (m : Action ε α) (h : Host) :
    (m.mapError g).perform h = ((m.perform h).1.mapError g, (m.perform h).2) :=
  rfl

/-- Writing a file: the host changes only if it succeeds. -/
theorem perform_write (path : String) (bytes : ByteArray) (h : Host) :
    (write path bytes).perform h =
      match h.write path bytes with
      | .ok h' => (.ok (), h')
      | .error fault => (.error fault, h) := rfl

/-- Giving a program a new table: if the program is there, the host changes in any case. -/
theorem perform_save (name : String) (bytes : ByteArray) (h : Host) :
    (save name bytes).perform h =
      match h.program name with
      | .ok p => ((p.save bytes).1, h.withProgram name (p.save bytes).2)
      | .error fault => (.error fault, h) := rfl

/-! ## What comes of actions -/

/-- What comes of an action depends on what it does only. -/
theorem result_eq (m : Action ε α) (h : Host) :
    m.result h = (m.perform h).1.map fun a => ((m.perform h).2, a) := by
  rw [result]
  split
  · next hperform => rw [hperform]; rfl
  · next hperform => rw [hperform]; rfl

@[simp] theorem result_pure (a : α) (h : Host) :
    (pure a : Action ε α).result h = .ok (h, a) := rfl

@[simp] theorem result_look (g : Host → Except ε α) (h : Host) :
    (look g).result h = (g h).map (h, ·) :=
  result_eq _ h

/-- The results of actions are combined like any computations that can fail, and the host goes from
one to the next. -/
theorem result_bind (m : Action ε α) (f : α → Action ε β) (h : Host) :
    (m >>= f).result h = m.result h >>= fun r => (f r.2).result r.1 := by
  rw [result_eq, result_eq, perform_bind]
  cases hfirst : m.perform h with
  | mk first h' =>
    cases first with
    | error e => rfl
    | ok a => exact (result_eq (f a) h').symm

/-- Another report of failures changes nothing else. -/
theorem result_mapError (g : ε → ε') (m : Action ε α) (h : Host) :
    (m.mapError g).result h = (m.result h).mapError g := by
  rw [result_eq, result_eq, perform_mapError]
  cases (m.perform h).1 <;> rfl

/-! ## What is left -/

/-- The action leaves the host as it is, whatever comes of it. -/
def IsReadOnly (m : Action ε α) : Prop :=
  ∀ h, (m.perform h).2 = h

/-- If the action fails on a host, all files and tables are as they were. -/
def KeepsOnError (m : Action ε α) (h : Host) : Prop :=
  ∀ e h', m.perform h = (.error e, h') → h.Agrees h'

/-- If the action fails on any host, nothing is new but the table of a program that has not taken
what it was given. -/
def FailsSafely (m : Action ε α) : Prop :=
  ∀ h e h', m.perform h = (.error e, h') → h.AfterFailure h'

/-- An action that fails safely keeps everything where the programs do. -/
theorem FailsSafely.keepsOnError (hm : m.FailsSafely) {h : Host} (hk : h.KeepsOnFailure) :
    m.KeepsOnError h :=
  fun e h' hperform => (hm h e h' hperform).agrees hk

/-- If such an action fails, there is a failure and a host that agrees with the one before. -/
theorem KeepsOnError.exists_perform_eq {h : Host} (hm : m.KeepsOnError h)
    (hfailed : (m.perform h).1.isOk = false) :
    ∃ e h', m.perform h = (.error e, h') ∧ h.Agrees h' := by
  cases hperform : m.perform h with
  | mk result h' =>
    cases result with
    | error e => exact ⟨e, h', rfl, hm e h' hperform⟩
    | ok a => rw [hperform] at hfailed; cases hfailed

/-- A result does nothing. -/
theorem isReadOnly_pure (a : α) : (pure a : Action ε α).IsReadOnly :=
  fun _ => rfl

/-- Finding out does nothing to the host. -/
theorem isReadOnly_look (g : Host → Except ε α) : (look g).IsReadOnly :=
  fun _ => rfl

/-- Two actions that only look are one that only looks. -/
theorem IsReadOnly.bind (hm : m.IsReadOnly) (hf : ∀ a, (f a).IsReadOnly) :
    (m >>= f).IsReadOnly := by
  intro h
  rw [perform_bind]
  have hleft := hm h
  split
  · next a h' hperform =>
    obtain rfl : h' = h := by rwa [hperform] at hleft
    exact hf a h'
  · next e h' hperform => rwa [hperform] at hleft

/-- Reporting failures in another way does nothing more. -/
theorem IsReadOnly.mapError (hm : m.IsReadOnly) (g : ε → ε') : (m.mapError g).IsReadOnly := by
  intro h
  rw [perform_mapError]
  exact hm h

/-- An action that only looks has nothing to take back. -/
theorem IsReadOnly.failsSafely (hm : m.IsReadOnly) : m.FailsSafely := by
  intro h e h' hperform
  have hleft := hm h
  rw [hperform] at hleft
  exact .same (hleft ▸ .refl h)

/-- What is read first changes nothing, so a failure is one of what comes behind. -/
theorem IsReadOnly.bind_failsSafely (hm : m.IsReadOnly) (hf : ∀ a, (f a).FailsSafely) :
    (m >>= f).FailsSafely := by
  intro h e h' hperform
  obtain hfirst | ⟨a, h₁, hfirst, hsecond⟩ := perform_bind_eq_error.mp hperform
  · exact hm.failsSafely h e h' hfirst
  -- the second action fails on the host on which the first one has only looked
  · have hleft := hm h
    obtain rfl : h₁ = h := by rwa [hfirst] at hleft
    exact hf a h₁ e h' hsecond

/-- A result that is only computed cannot fail behind what was done. -/
theorem FailsSafely.bind_pure (hm : m.FailsSafely) (g : α → β) :
    (m >>= fun a => pure (g a)).FailsSafely := by
  intro h e h' hperform
  obtain hfirst | ⟨a, h₁, -, hsecond⟩ := perform_bind_eq_error.mp hperform
  · exact hm h e h' hfirst
  · cases (Prod.mk.inj hsecond).1

/-- It does not matter how a failure is reported. -/
theorem FailsSafely.mapError (hm : m.FailsSafely) (g : ε → ε') : (m.mapError g).FailsSafely := by
  intro h e h' hperform
  rw [perform_mapError] at hperform
  obtain ⟨hresult, hleft⟩ := Prod.mk.inj hperform
  cases hfirst : (m.perform h).1 with
  | ok a => cases (mapError_eq_ok.mpr hfirst).symm.trans hresult
  | error e₁ => exact hm h e₁ h' (Prod.ext hfirst hleft)

/-- A file that cannot be written is as it was. -/
theorem failsSafely_write (path : String) (bytes : ByteArray) : (write path bytes).FailsSafely := by
  intro h e h' hperform
  rw [perform_write] at hperform
  split at hperform
  · cases (Prod.mk.inj hperform).1
  · obtain ⟨-, rfl⟩ := Prod.mk.inj hperform
    exact .same (.refl h)

end Action

end Timetable
