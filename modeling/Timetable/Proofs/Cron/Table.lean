import Timetable.Proofs.Cron.Reloading

/-!
Tables of programs, byte by byte.

A table that a program lists is made a text before it is updated, and the text is
made bytes again before it goes back. Both markers are ASCII texts, so the text is
cut where the bytes of the markers are. What stands around the own section goes
through both steps: it comes back as it was if its bytes are those of a text, and
otherwise with a replacement character for every faulty stretch.
-/

set_option autoImplicit false

namespace Timetable

open Text OwnSection

namespace OwnSection

/-- The bytes of a table cut at the first markers among them. A table without a start marker has an
empty section behind a line end that is put behind it. -/
inductive TableParts : (table before body after : List UInt8) → Prop where
  | unmarked {bytes : List UInt8} : ¬ bytesOf startMarker <:+: bytes →
      TableParts bytes (bytes ++ bytesOf ['\n']) [] []
  | marked {before body after : List UInt8} : ¬ bytesOf startMarker <:+: before →
      ¬ bytesOf endMarker <:+: body →
      TableParts (before ++ bytesOf startMarker ++ body ++ bytesOf endMarker ++ after)
        before body after

theorem isAscii_startMarker : ∀ c ∈ startMarker, c.toNat < 0x80 := by
  decide

theorem isAscii_endMarker : ∀ c ∈ endMarker, c.toNat < 0x80 := by
  decide

/-- **The text is cut where the bytes are.** -/
theorem TableParts.ofText_eq {bytes before body after : List UInt8}
    (h : TableParts bytes before body after) :
    ofText (charsOfBytes bytes) =
      ⟨charsOfBytes before, charsOfBytes body, charsOfBytes after⟩ := by
  have hempty : charsOfBytes [] = [] := rfl
  cases h with
  | unmarked hbytes =>
    have hstart : ¬ startMarker <:+: charsOfBytes bytes := by
      rwa [infix_charsOfBytes_iff isAscii_startMarker isLineMark_startMarker.ne_nil]
    have hline :
        charsOfBytes (bytes ++ bytesOf ['\n'] ++ []) = charsOfBytes bytes ++ ['\n'] ++ [] :=
      charsOfBytes_append_mark (by decide) (by decide) bytes []
    rw [List.append_nil, List.append_nil] at hline
    rw [ofText, find?_eq_none hstart, Option.getD_none, hline, hempty]
  | marked hbefore hbody =>
    -- the markers are of ASCII, so they stand in the characters where they stand in the bytes
    have hproper : IsProper ⟨charsOfBytes before, charsOfBytes body, charsOfBytes after⟩ :=
      ⟨fun hstart => hbefore ((infix_charsOfBytes_iff isAscii_startMarker
          isLineMark_startMarker.ne_nil).mp hstart),
        fun hend => hbody ((infix_charsOfBytes_iff isAscii_endMarker
          isLineMark_endMarker.ne_nil).mp hend)⟩
    have hend := charsOfBytes_append_mark isAscii_endMarker isLineMark_endMarker.ne_nil
      (before ++ bytesOf startMarker ++ body) after
    have hstart := charsOfBytes_append_mark isAscii_startMarker isLineMark_startMarker.ne_nil
      before body
    rw [hend, hstart]
    exact ofText_assemble hproper

end OwnSection

namespace Store

open Cron

variable {s s' : Store} {h h' : Host} {add : Bool} {name : String} {p : TableProgram}

/-- The table that a program has after it has been written: the bytes of the update. -/
theorem Writes.exists_table (hw : s.Writes h add s' h') (htarget : s.target = .ok (.program name))
    (hp : h.program name = .ok p) (hk : p.KeepsTable) {table : ByteArray}
    (htable : p.table = some table) :
    ∃ table', h'.program name = .ok { p with table := some table' } ∧
      table'.data.toList =
        bytesOf (update s'.entries add (dropHeader (charsOfBytes table.data.toList))).1 := by
  obtain ⟨target, t, htarget', -, hload, hsave⟩ := hw.exists_update
  obtain rfl : .program name = target := Except.ok.inj (htarget.symm.trans htarget')
  rw [Target.load_program (Target.read_program_of_table hp hk htable), lossyText_eq,
    String.toList_ofList] at hload
  rw [Except.ok.inj hload]
  exact ⟨_, Target.save_program_eq_ok hp hk hsave, toList_data_toUTF8 _⟩

/-- **What stands around the own section of a table** is decoded and encoded again, whatever is put
in and taken out. So its bytes are the same afterwards exactly if they are those of a text. -/
theorem Writes.foreign_bytes_iff (hw : s.Writes h add s' h')
    (htarget : s.target = .ok (.program name)) (hp : h.program name = .ok p) (hk : p.KeepsTable)
    {table : ByteArray} (htable : p.table = some table)
    (hheader : hasHeader (lossyText table).toList = false) {before body after : List UInt8}
    (hparts : TableParts table.data.toList before body after) :
    ∃ table' before' after', h'.program name = .ok { p with table := some table' } ∧
      table'.data.toList = before' ++ bytesOf startMarker ++
        bytesOf ((Entry.removeAll s'.entries (charsOfBytes body)).1 ++ fresh s'.entries add) ++
        bytesOf endMarker ++ after' ∧
      before' = bytesOf (charsOfBytes before) ∧ after' = bytesOf (charsOfBytes after) ∧
      (before' = before ↔ IsUtf8 before) ∧ (after' = after ↔ IsUtf8 after) := by
  obtain ⟨table', hp', htable'⟩ := hw.exists_table htarget hp hk htable
  refine ⟨table', _, _, hp', ?_, rfl, rfl, bytesOf_charsOfBytes_iff, bytesOf_charsOfBytes_iff⟩
  -- the whole table is the text that is updated, because there is no header to drop
  rw [lossyText_eq, String.toList_ofList] at hheader
  rw [htable', dropHeader_of_not_hasHeader hheader, update_eq, hparts.ofText_eq]
  simp only [assemble, bytesOf_append]

/-- A host with a program that keeps a table of these bytes. -/
def tableHost (bytes : List UInt8) : Host :=
  { programs := [("crontab", { table := some ⟨bytes.toArray⟩ })] }

/-- A store of no entries, whose crontab is kept by the program. -/
def programStore : Store :=
  { program := some "crontab" }

/-- A comment with an accent, in UTF-8, is left as it is. -/
theorem Writes.foreign_bytes_iff_utf8 :
    ∃ h' table', (programStore.install (tableHost [0x23, 0xC3, 0xA9, 0x0A])).2 = .ok h' ∧
      h'.program "crontab" = .ok { table := some table' } ∧
      table'.data.toList = [0x23, 0xC3, 0xA9, 0x0A, 0x0A] ++ bytesOf startMarker ++
        bytesOf endMarker := by
  obtain ⟨h', hinstall⟩ := exists_eq_ok
    (x := (programStore.install (tableHost [0x23, 0xC3, 0xA9, 0x0A])).2) (by decide)
  have hparts : TableParts [0x23, 0xC3, 0xA9, 0x0A] _ _ _ := .unmarked (by decide)
  obtain ⟨table', before', after', hp', htable', -, hafter, hsame, -⟩ :=
    (Writes.install hinstall).foreign_bytes_iff rfl rfl (TableProgram.keepsTable _) rfl (by decide)
      hparts
  have hutf8 : IsUtf8 ([0x23, 0xC3, 0xA9, 0x0A] ++ bytesOf ['\n']) :=
    ⟨"#é\n\n".toList, by decide⟩
  rw [hsame.mpr hutf8, hafter] at htable'
  exact ⟨h', table', hinstall, hp', htable'.trans (by decide +kernel)⟩

/-- A byte that begins no character is not left as it is: three others take its place. -/
theorem Writes.foreign_bytes_iff_latin :
    ∃ h' table', (programStore.install (tableHost [0x23, 0xFF, 0x0A])).2 = .ok h' ∧
      h'.program "crontab" = .ok { table := some table' } ∧
      table'.data.toList = [0x23, 0xEF, 0xBF, 0xBD, 0x0A, 0x0A] ++ bytesOf startMarker ++
        bytesOf endMarker := by
  obtain ⟨h', hinstall⟩ := exists_eq_ok
    (x := (programStore.install (tableHost [0x23, 0xFF, 0x0A])).2) (by decide)
  obtain ⟨table', hp', htable'⟩ :=
    (Writes.install hinstall).exists_table rfl rfl (TableProgram.keepsTable _) rfl
  exact ⟨h', table', hinstall, hp', htable'.trans (by decide +kernel)⟩

end Store

end Timetable
