import Timetable.Action
import Timetable.Cron.Store

/-!
The operations on a crontab: `load`, `list`, `install` and `remove`.

They are actions, in the order in which they are done on a host, so that it can be
asked what a failed one leaves behind. Whatever can be checked before writing is
checked before. What an operation comes to where it succeeds is read off the
action, so there is one definition of each.

The order of the steps is that of the methods of `Crontab`. Reading is
`load_current`, and writing is `save_file` or `save_with_binary`.
-/

set_option autoImplicit false

namespace Timetable.Store

open Text

namespace Target

/-- Reads the characters of a crontab. -/
def loading (t : Target) : Action StoreError (List Char) :=
  .look fun h => t.load h

/-- Writes a crontab. -/
def saving (text : String) : Target → Action StoreError Unit
  | file path => do
    -- nothing is written of a file that is too large
    if StoreError.sizeLimit ≤ text.utf8ByteSize then throw (.tooLarge path)
    (Action.write path text.toUTF8).mapError .host
  | program name => do
    -- the program is given everything, and only then it is asked how it has ended
    let o ← (Action.save name text.toUTF8).mapError .host
    unless o.succeeded do throw (failure name o)

end Target

/-- Reads the crontab of a store. -/
def loading (s : Store) : Action StoreError String := do
  let t ← .look fun _ => s.target
  let text ← t.loading
  return String.ofList text

/-- Reads the entries in the own section of a store's crontab. -/
def listing (s : Store) : Action StoreError (List Entry) := do
  let t ← .look fun _ => s.target
  let text ← t.loading
  match OwnSection.find? text with
  | some o => return Cron.readSection o.body
  -- without an own section there are no entries of ours
  | none => return []

/-- Reads what an installation needs: the place of the crontab, its characters, and the store with
the users that will be written. -/
def preparing (s : Store) : Action StoreError (Target × List Char × Store) := do
  let t ← .look fun _ => s.target
  let text ← t.loading
  -- whether names are needed is seen in the crontab that is there
  let s' ← .look fun h => .ok (s.fitted h t text)
  return (t, text, s')

/-- Puts the entries in the place of those with the same identities. The result is the store with
the users that were written. -/
def installing (s : Store) : Action StoreError Store := do
  let (t, text, s') ← s.preparing
  t.saving (String.ofList (Cron.update s'.entries true text).1)
  return s'

/-- Takes the entries out of the crontab. The result is the number of lines that went. -/
def removing (s : Store) : Action StoreError Nat := do
  let t ← .look fun _ => s.target
  let text ← t.loading
  let (content, count) := Cron.update s.entries false text
  t.saving (String.ofList content)
  return count

/-! ## What comes of an operation -/

/-- The host after a crontab has been written. -/
def Target.save (h : Host) (text : String) (t : Target) : Except StoreError Host :=
  ((t.saving text).result h).map Prod.fst

/-- The crontab of a store. -/
def load (s : Store) (h : Host) : Except StoreError String :=
  (s.loading.result h).map Prod.snd

/-- The store as an installation leaves it. The entries keep the users they were given, even if the
crontab cannot be written. -/
def prepared (s : Store) (h : Host) : Store :=
  match s.preparing.result h with
  | .ok (_, _, _, s') => s'
  | .error _ => s

/-- The store and the host after an installation. -/
def install (s : Store) (h : Host) : Store × Except StoreError Host :=
  (s.prepared h, (s.installing.result h).map Prod.fst)

/-- The host after a removal, and the number of lines that went. -/
def remove (s : Store) (h : Host) : Except StoreError (Host × Nat) :=
  s.removing.result h

end Timetable.Store
