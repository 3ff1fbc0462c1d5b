import Timetable.Proofs.Scheduler

/-!
Schedulers that can be used.

A scheduler that a setting stands for has parts that are fit for use: nothing is
empty that is given, nothing has blanks at its ends, and a user has no colon and is
no drive. The file of a crontab is the exception. A setting can leave it out in two
ways, with nothing but blanks behind the name or with nothing but blanks behind a
user, and only the first of them is refused. The second one is taken, and the
crontab that it stands for has no file.
-/

set_option autoImplicit false

namespace Timetable

open Text

namespace Scheduler

variable {setting : String} {k : Scheduler} {resource user blanks : List Char}

/-! ## Parts that can be used -/

/-- A name or a path that is given: it is not empty and has no blank at either end. -/
def IsGiven (s : String) : Prop :=
  s ≠ "" ∧ IsTrimmed s.toList

/-- The name of a user: it has no colon and is not a lone letter, which would be a drive. -/
def IsUser (s : String) : Prop :=
  IsGiven s ∧ ':' ∉ s.toList ∧ ∀ c : Char, c.isAlpha = true → s.toList ≠ [c]

/-- A scheduler whose program and user, if there are any, can be used, and whose file has no blank
at either end. The file may be empty. -/
def IsNeat : Scheduler → Prop
  | crond program => ∀ p ∈ program, IsGiven p
  | crontab file user => IsTrimmed file.toList ∧ ∀ u ∈ user, IsUser u
  | _ => True

/-- A scheduler that works on a file has one. -/
def HasFile : Scheduler → Prop
  | crontab file _ => file ≠ ""
  | _ => True

/-- A drive is a single letter. -/
theorem isDrive_eq_true_iff {l : List Char} :
    isDrive l = true ↔ ∃ c : Char, c.isAlpha = true ∧ l = [c] := by
  rcases l with _ | ⟨c, _ | ⟨d, l⟩⟩
  · simp [isDrive]
  · simp [isDrive]
  · simp [isDrive]

/-- What a reader leaves can be used. -/
theorem IsPlain.isNeat (h : k.IsPlain) : k.IsNeat := by
  cases k with
  | crond program =>
    cases program with
    | none => simp [IsNeat]
    | some program =>
      intro p hp
      obtain rfl : program = p := Option.some.inj hp
      exact h
  | crontab file user =>
    cases user with
    | none => exact ⟨h.1.2, by simp⟩
    | some user =>
      obtain ⟨⟨hne, htrimmed, hcolon, hdrive⟩, hfile⟩ := h
      have hletter : ∀ c : Char, c.isAlpha = true → user.toList ≠ [c] := by
        intro c hc huser
        rw [isDrive_eq_true_iff.mpr ⟨c, hc, huser⟩] at hdrive
        exact Bool.noConfusion hdrive
      refine ⟨hfile, fun u hu => ?_⟩
      obtain rfl : user = u := Option.some.inj hu
      exact ⟨⟨hne, htrimmed⟩, hcolon, hletter⟩
  | _ => trivial

/-! ## Settings for crontabs -/

/-- A setting that names a crontab. The name may have blanks around it, and the resource is what
stands behind the first colon; without a colon it is empty. -/
def IsCrontab (setting : String) (resource : List Char) : Prop :=
  ∃ a b, (∀ c ∈ a, isBlank c = true) ∧ (∀ c ∈ b, isBlank c = true) ∧
    (setting.toList = a ++ ("crontab".toList ++ b) ∧ resource = [] ∨
      setting.toList = a ++ ("crontab".toList ++ b) ++ ':' :: resource)

/-- A setting that names a crontab and no file. Nothing but blanks stands where the file should
stand, either right behind the name or behind a user, which is not a lone letter. -/
inductive LacksFile (setting : String) : Option (List Char) → Prop where
  | bare {blanks : List Char} : IsCrontab setting blanks → (∀ c ∈ blanks, isBlank c = true) →
      LacksFile setting none
  | behind {user blanks : List Char} : IsCrontab setting (user ++ ':' :: blanks) → ':' ∉ user →
      (∀ c : Char, c.isAlpha = true → trim user ≠ [c]) → (∀ c ∈ blanks, isBlank c = true) →
      LacksFile setting (some user)

/-- The user that is read from what stands where a user may stand. -/
def userOf (user : List Char) : String :=
  if (trim user).isEmpty then anonymousUser else String.ofList (trim user)

theorem colon_notMem_of_blank {l : List Char} (h : ∀ c ∈ l, isBlank c = true) : ':' ∉ l :=
  fun hmem => absurd (h ':' hmem) (by decide)

/-- The name in front of the first colon of a setting, and what stands behind it. -/
def parts (setting : String) : List Char × List Char :=
  (cutAt? [':'] setting.toList).getD (setting.toList, [])

/-- A setting is for a crontab if and only if that is its name. -/
theorem isCrontab_iff : IsCrontab setting resource ↔
    trim (parts setting).1 = "crontab".toList ∧ (parts setting).2 = resource := by
  have hname : IsTrimmed "crontab".toList := ⟨by decide, by decide⟩
  constructor
  -- without a colon all of the setting is the name, and else it is cut at the first one
  · rintro ⟨a, b, ha, hb, ⟨hsetting, rfl⟩ | hsetting⟩
    · have hcolon : ':' ∉ setting.toList := by
        rw [hsetting]
        simp [colon_notMem_of_blank ha, colon_notMem_of_blank hb]
      have hparts : parts setting = (setting.toList, []) := by
        have hcut : cutAt? [':'] setting.toList = none := by
          rw [cutAt?_eq_none_iff (by simp), List.singleton_infix_iff]
          exact hcolon
        rw [parts, hcut]
        rfl
      rw [hparts, hsetting]
      exact ⟨hname.trim_append ha hb, rfl⟩
    · have hcolon : ':' ∉ a ++ ("crontab".toList ++ b) := by
        simp [colon_notMem_of_blank ha, colon_notMem_of_blank hb]
      have hparts : parts setting = (a ++ ("crontab".toList ++ b), resource) := by
        rw [parts, hsetting, cutAt?_singleton hcolon, Option.getD_some]
      rw [hparts]
      exact ⟨hname.trim_append ha hb, rfl⟩
  · rintro ⟨hcrontab, rfl⟩
    -- the blanks that were trimmed off the name stand around it
    obtain ⟨a, b, ha, hb, hfirst⟩ := exists_eq_append_trim (parts setting).1
    rw [hcrontab] at hfirst
    refine ⟨a, b, ha, hb, ?_⟩
    unfold parts at hfirst ⊢
    rcases hcut : cutAt? [':'] setting.toList with _ | ⟨name, rest⟩
    · exact .inl ⟨by simpa [hcut] using hfirst, rfl⟩
    · rw [hcut, Option.getD_some] at hfirst
      rw [Option.getD_some, ← hfirst]
      exact .inr (cut_colon hcut).1

/-- What a setting for a crontab stands for, if it stands for anything. -/
theorem IsCrontab.parse_eq (h : IsCrontab setting resource) : parse setting =
    if (trim resource).isEmpty then .error .noFile else .ok (ofResource (trim resource)) := by
  obtain ⟨hname, hresource⟩ := isCrontab_iff.mp h
  have hofList : String.ofList (trim (parts setting).1) = "crontab" := by
    rw [hname, String.ofList_toList]
  unfold parse
  rw [← parts]
  simp only [hofList, hresource]

/-- A setting that is refused is one for a crontab, and so is one that stands for a crontab. -/
theorem exists_isCrontab (h : parse setting = .error .noFile ∨
    ∃ file user, parse setting = .ok (crontab file user)) :
    ∃ resource, IsCrontab setting resource := by
  refine ⟨_, isCrontab_iff.mpr ⟨?_, rfl⟩⟩
  by_contra hname
  have hother : ∀ s : String, s = String.ofList (trim (parts setting).1) → s ≠ "crontab" := by
    rintro s rfl hs
    exact hname (by rw [← hs, String.toList_ofList])
  unfold parse at h
  rw [← parts] at h
  simp only at h
  -- every other name leads to something else
  split at h
  · simp at h
  · next hcrontab => exact hother _ rfl hcrontab
  · simp at h
  · simp at h
  · simp at h
  · simp at h

/-! ## Settings without a file -/

/-- Without a file and without a user a setting is refused, and no other setting is. -/
theorem parse_eq_noFile_iff : parse setting = .error .noFile ↔ LacksFile setting none := by
  constructor
  · intro h
    obtain ⟨resource, hcrontab⟩ := exists_isCrontab (.inl h)
    rw [hcrontab.parse_eq] at h
    by_cases hempty : (trim resource).isEmpty = true
    · exact .bare hcrontab (trim_eq_nil_iff.mp (List.isEmpty_iff.mp hempty))
    · rw [if_neg hempty] at h
      cases h
  · rintro ⟨hcrontab, hblanks⟩
    rw [hcrontab.parse_eq, trim_eq_nil_iff.mpr hblanks]
    rfl

/-- Blanks in front of what stands for a user, and behind its colon, are trimmed. -/
theorem trim_user_append (hblanks : ∀ c ∈ blanks, isBlank c = true) :
    trim (user ++ ':' :: blanks) = trimStart user ++ [':'] := by
  have hsplit : user ++ ':' :: blanks =
      user.takeWhile isBlank ++ ((trimStart user ++ [':']) ++ blanks) := by
    rw [trimStart, List.append_assoc, ← List.append_assoc (user.takeWhile isBlank),
      List.takeWhile_append_dropWhile]
    rfl
  -- what remains of the user begins with no blank, and the colon ends it
  have htrimmed : IsTrimmed (trimStart user ++ [':']) := by
    constructor
    · intro c hc
      cases hstart : trimStart user with
      | nil =>
        rw [hstart] at hc
        obtain rfl : ':' = c := by simpa using hc
        decide
      | cons d r =>
        have hstop := List.head?_dropWhile_not isBlank user
        rw [← trimStart, hstart] at hstop
        rw [hstart] at hc
        obtain rfl : d = c := by simpa using hc
        simpa using hstop
    · intro c hc
      obtain rfl : ':' = c := by simpa using hc
      decide
  rw [hsplit]
  exact htrimmed.trim_append (List.all_eq_true.mp List.all_takeWhile) hblanks

/-- With a user and no file a setting is taken, and what it stands for has no file. -/
theorem LacksFile.parse_eq (h : LacksFile setting (some user)) :
    parse setting = .ok (crontab "" (some (userOf user))) := by
  obtain _ | ⟨hcrontab, hcolon, hletter, hblanks⟩ := h
  -- the user ends at the first colon, because it has none itself
  have hcolon' : ':' ∉ trimStart user := fun hmem =>
    hcolon ((List.dropWhile_suffix isBlank).subset hmem)
  have htrim : trim (trimStart user) = trim user := by
    rw [← trim_append_of_blank (List.all_eq_true.mp (List.all_takeWhile (l := user))), trimStart,
      List.takeWhile_append_dropWhile]
  have hdrive : isDrive (trim user) = false := by
    rw [← Bool.not_eq_true, isDrive_eq_true_iff]
    rintro ⟨c, hc, huser⟩
    exact hletter c hc huser
  have hempty : (trimStart user ++ [':']).isEmpty = false := by simp
  rw [hcrontab.parse_eq, trim_user_append hblanks, hempty, if_neg Bool.false_ne_true, ofResource,
    cutAt?_singleton hcolon']
  simp only [htrim, hdrive, Bool.false_eq_true, if_false]
  rfl

/-- A crontab without a file stems from a setting with a user. -/
theorem exists_lacksFile {user' : Option String}
    (h : parse setting = .ok (crontab "" user')) : ∃ user, LacksFile setting (some user) := by
  obtain ⟨resource, hcrontab⟩ := exists_isCrontab (.inr ⟨_, _, h⟩)
  rw [hcrontab.parse_eq] at h
  by_cases hempty : (trim resource).isEmpty = true
  · rw [if_pos hempty] at h
    cases h
  rw [if_neg hempty, Except.ok.injEq, ofResource] at h
  -- a resource that is a file as a whole is not empty
  have hne : String.ofList (trim resource) ≠ "" := fun hnil =>
    hempty (by rw [String.ofList_eq_empty_iff.mp hnil]; rfl)
  split at h
  · next user file hcut =>
    simp only at h
    split at h
    · exact absurd (crontab.inj h).1 hne
    · next hdrive =>
      have hfile : ∀ c ∈ file, isBlank c = true := by
        rw [← trim_eq_nil_iff]
        exact String.ofList_eq_empty_iff.mp (crontab.inj h).1
      -- the blanks around the resource count as part of the user and of what stands for the file
      obtain ⟨a, b, ha, hb, hresource⟩ := exists_eq_append_trim resource
      obtain ⟨hparts, hcolon⟩ := cut_colon hcut
      have hsplit : resource = (a ++ user) ++ ':' :: (file ++ b) := by
        rw [hresource, hparts]
        simp
      refine ⟨a ++ user, .behind (hsplit ▸ hcrontab) ?_ (fun c hc huser => hdrive ?_) ?_⟩
      · simp [colon_notMem_of_blank ha, hcolon]
      · rw [trim_append_of_blank ha] at huser
        exact isDrive_eq_true_iff.mpr ⟨c, hc, huser⟩
      · intro c hc
        rcases List.mem_append.mp hc with hc | hc
        · exact hfile c hc
        · exact hb c hc
  · exact absurd (crontab.inj h).1 hne

theorem not_hasFile_iff : ¬ k.HasFile ↔ ∃ user, k = crontab "" user := by
  cases k <;> simp [HasFile]

/-- **What a setting stands for can be used, but for a file that is left out behind a user.** A
setting is refused if and only if it names a crontab and nothing else. Every other setting stands
for a scheduler with a program or a user that can be used, if there is one, and without blanks
around any of its parts. It has the file it needs unless the setting has a user and no file; then it
is a crontab of that user with an empty file. -/
theorem parse_usable_iff :
    (parse setting = .error .noFile ↔ LacksFile setting none) ∧
      (∀ k, parse setting = .ok k →
        k.IsNeat ∧ (k.HasFile ↔ ∀ user, ¬ LacksFile setting (some user))) ∧
      ∀ user, LacksFile setting (some user) →
        parse setting = .ok (crontab "" (some (userOf user))) := by
  refine ⟨parse_eq_noFile_iff, fun k h => ⟨(parse_isPlain h).isNeat, ?_⟩,
    fun user hlacks => hlacks.parse_eq⟩
  constructor
  · intro hfile user hlacks
    -- what lacks its file stands for a crontab without one
    rw [hlacks.parse_eq, Except.ok.injEq] at h
    exact not_hasFile_iff.mpr ⟨_, h.symm⟩ hfile
  · intro hnone
    by_contra hfile
    obtain ⟨user', rfl⟩ := not_hasFile_iff.mp hfile
    obtain ⟨user, hlacks⟩ := exists_lacksFile h
    exact hnone user hlacks

/-- A user and a file with a drive are told apart, and a user with blanks for a file is taken for a
crontab without one. -/
theorem parse_usable_iff_root :
    let full := crontab "C:\\tab" (some "root")
    (parse "crontab: root :C:\\tab " = .ok full ∧ full.IsNeat) ∧
      LacksFile "crontab : root :\t" (some " root ".toList) ∧
        parse "crontab : root :\t" = .ok (crontab "" (some "root")) := by
  intro full
  have hfull : parse "crontab: root :C:\\tab " = .ok full := by decide +kernel
  have hcrontab : IsCrontab "crontab : root :\t" (" root ".toList ++ ':' :: ['\t']) :=
    ⟨[], [' '], by decide, by decide, .inr (by decide)⟩
  have hlacks : LacksFile "crontab : root :\t" (some " root ".toList) := by
    have htrim : trim " root ".toList = "root".toList := by decide
    refine .behind hcrontab (by decide) (fun c _ huser => ?_) (by decide)
    rw [htrim] at huser
    exact absurd (congrArg List.length huser) (by simp)
  have huser : userOf " root ".toList = "root" := by decide
  refine ⟨⟨hfull, (parse_usable_iff.2.1 full hfull).1⟩, hlacks, ?_⟩
  rw [parse_usable_iff.2.2 _ hlacks, huser]

/-- A user without a file is taken, and the crontab has an empty file. -/
theorem parse_usable_missing :
    parse "crontab:root:" = .ok (crontab "" (some "root")) ∧
      ¬ HasFile (crontab "" (some "root")) ∧ parse "crontab:root:" ≠ .error .noFile := by
  have hparse : parse "crontab:root:" = .ok (crontab "" (some "root")) := by decide +kernel
  exact ⟨hparse, fun h => h rfl, by simp [hparse]⟩

end Scheduler

end Timetable
