import Timetable.Host

/-!
Files that are read and written.

A file can be written where one can be read, and where there is none in a
directory that is there. Once it is written, it is read back, and it can be
written again. What a path holds is said once, in terms of the text: that of the
file, or nothing where there is no file yet.
-/

set_option autoImplicit false

namespace Timetable.Host

variable {h : Host} {path : String}

theorem isSamePath_self (path : String) : isSamePath path path = true := by
  simp [isSamePath]

theorem isAbove_self (path : String) : isAbove path path = false := by
  simp [isAbove]

/-- A path at which there is a file, or can be one: it names something that is not below a file,
and that need not be a directory. -/
structure IsFilePath (h : Host) (path : String) : Prop where
  nonempty : path.isEmpty = false
  noNull : path.toList.contains '\x00' = false
  reachable : (h.files.any fun (q, _) => isAbove q path) = false
  noSlash : path.endsWith "/" = false

theorem isFilePath_of_place {p : Place} (hp : h.place path = p) (hnowhere : p ≠ .nowhere)
    (hdirectory : p ≠ .directory) (himpossible : p ≠ .impossible) : h.IsFilePath path := by
  -- the tests of a path are made in this order, and each of them has one outcome that is excluded
  simp only [place] at hp
  split at hp
  · exact absurd hp.symm hnowhere
  next hempty =>
  split at hp
  · exact absurd hp.symm himpossible
  next hnull =>
  split at hp
  · exact absurd hp.symm himpossible
  next habove =>
  have hpath (hslash : ¬ path.endsWith "/" = true) : h.IsFilePath path :=
    ⟨by simpa using hempty, by simpa using hnull, by simpa using habove, by simpa using hslash⟩
  split at hp
  · split at hp
    · exact absurd hp.symm himpossible
    next hslash => exact hpath hslash
  · split at hp
    · exact absurd hp.symm hdirectory
    · split at hp
      · split at hp
        · exact absurd hp.symm hnowhere
        next hslash => exact hpath hslash
      · exact absurd hp.symm hnowhere

/-- Whether there is room for a file is computed. -/
theorem place_eq_free
    (hfree : (match h.place path with | .free => true | _ => false) = true) :
    h.place path = .free := by
  split at hfree
  · assumption
  · cases hfree

/-- **A file that is written is there**, in the place of what was there. -/
theorem IsFilePath.place_withFile (hp : h.IsFilePath path) (bytes : ByteArray) :
    (h.withFile path bytes).place path = .file bytes := by
  -- a file does not stand above itself
  have habove : ((h.withFile path bytes).files.any fun (q, _) => isAbove q path) = false := by
    have hold := hp.reachable
    rw [List.any_eq_false] at hold ⊢
    intro q hq
    obtain hq | hq := List.mem_append.mp hq
    · exact hold q (List.mem_filter.mp hq).1
    · obtain rfl := List.mem_singleton.mp hq
      simp [isAbove_self]
  -- every other file of that path has gone, so the new one is found
  have hfind : (h.withFile path bytes).files.find? (fun (q, _) => isSamePath q path) =
      some (path, bytes) := by
    rw [withFile, List.find?_append, List.find?_eq_none.mpr]
    · simp [isSamePath_self]
    · intro q hq
      simpa using (List.mem_filter.mp hq).2
  rw [place, if_neg (by simp [hp.nonempty]), if_neg (by simp only [hp.noNull]; decide),
    if_neg (by simp only [habove]; decide), hfind]
  simp [hp.noSlash]

/-- The host with another text in a file. -/
def withText (h : Host) (path : String) (text : List Char) : Host :=
  h.withFile path (String.ofList text).toUTF8

/-- A text is what a file has. Where there is no file, but there can be one, it is empty. -/
inductive FileHolds (h : Host) (path : String) : List Char → Prop where
  | file (text : String) : h.place path = .file text.toUTF8 → FileHolds h path text.toList
  | free : h.place path = .free → FileHolds h path []

namespace FileHolds

variable {t : List Char}

/-- There is one text that is held. -/
theorem unique {t' : List Char} (ht : h.FileHolds path t) (ht' : h.FileHolds path t') : t = t' := by
  cases ht with
  | file text hp =>
    cases ht' with
    | file text' hp' =>
      rw [hp, Place.file.injEq] at hp'
      rw [String.toByteArray_inj.mp hp']
    | free hp' => simp [hp] at hp'
  | free hp =>
    cases ht' with
    | file text' hp' => simp [hp] at hp'
    | free hp' => rfl

theorem isFilePath (ht : h.FileHolds path t) : h.IsFilePath path := by
  cases ht with
  | file text hp => exact isFilePath_of_place hp (by simp) (by simp) (by simp)
  | free hp => exact isFilePath_of_place hp (by simp) (by simp) (by simp)

/-- A file can be written where a text is held. -/
theorem write_eq (ht : h.FileHolds path t) (bytes : ByteArray) :
    h.write path bytes = .ok (h.withFile path bytes) := by
  cases ht with
  | file text hp => simp [write, hp]
  | free hp => simp [write, hp]

/-- A text that is written is held. -/
theorem withText (ht : h.FileHolds path t) (t' : List Char) :
    (h.withText path t').FileHolds path t' := by
  have hholds := FileHolds.file (String.ofList t')
    (ht.isFilePath.place_withFile (String.ofList t').toUTF8)
  rwa [String.toList_ofList] at hholds

/-- What is read after writing tells what was written. -/
theorem read_withText_eq_iff {h' : Host} {t₁ t₂ t₃ : List Char} (ht : h.FileHolds path t₁)
    (ht' : h'.FileHolds path t₂) :
    (h'.withText path t).read path = (h.withText path t₃).read path ↔ t = t₃ := by
  simp only [read, Host.withText, ht.isFilePath.place_withFile, ht'.isFilePath.place_withFile,
    Except.ok.injEq]
  exact String.toByteArray_inj.trans String.ofList_inj

end FileHolds

end Timetable.Host
