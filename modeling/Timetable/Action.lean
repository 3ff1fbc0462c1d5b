import Timetable.Host

/-!
Actions on a host.

An action is done on a host and leaves one. It leaves one also when it fails, and
then everything that it did before is still done: nothing is taken back. So an
action that writes and fails afterwards has written.
-/

set_option autoImplicit false

namespace Timetable

/-- Something that is done on a host, and can fail. -/
abbrev Action (ε α : Type) := ExceptT ε (StateM Host) α

namespace Action

variable {ε ε' α : Type}

/-- Does an action: what comes of it, and the host that it leaves. -/
def perform (m : Action ε α) (h : Host) : Except ε α × Host :=
  StateT.run m.run h

/-- What comes of an action that succeeds: the host that it leaves, and its result. -/
def result (m : Action ε α) (h : Host) : Except ε (Host × α) :=
  match m.perform h with
  | (.ok a, h') => .ok (h', a)
  | (.error e, _) => .error e

/-- Finds out something about the host. -/
def look (f : Host → Except ε α) : Action ε α :=
  ExceptT.mk fun h => (f h, h)

/-- An action whose failures are reported as others. -/
def mapError (g : ε → ε') (m : Action ε α) : Action ε' α :=
  ExceptT.adapt g m

/-- Writes a file. -/
def write (path : String) (bytes : ByteArray) : Action HostFault Unit :=
  ExceptT.mk fun h =>
    match h.write path bytes with
    | .ok h' => (.ok (), h')
    -- a file that cannot be written is left alone
    | .error fault => (.error fault, h)

/-- Gives a program a new table. The program then has the table that it has made of it, whatever
it reports, and also if it has closed its input before all was written. -/
def save (name : String) (bytes : ByteArray) : Action HostFault Outcome :=
  ExceptT.mk fun h =>
    match h.program name with
    | .ok p =>
      let (answer, p') := p.save bytes
      (answer, h.withProgram name p')
    | .error fault => (.error fault, h)

end Action

end Timetable
