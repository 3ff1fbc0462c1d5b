import Timetable.Proofs.Cron.FileName
import Timetable.Proofs.Cron.TimeFields

/-!
Reading the line of an entry.

A line can be cut in several ways, and the reader takes the first cut in its
order of preference that can be completed. For a line that was written this is
the cut that was meant. Behind the time fields there is only one tab that can end
them. A user is a word in front of a tab, and no tab comes so early without one.
A working directory ends at the last place of its mark. The long form is never
read: it would end with a command in lower case, and the last word has an at
sign. So the short form is read, and it is the last two words.
-/

set_option autoImplicit false

namespace Timetable

namespace Cron

open Text

/-! ## Time fields -/

section TimeCuts

variable {fields units : Nat} {f s : List Char}

/-- The characters of a field that has been begun are passed one by one. -/
theorem timeCutsFrom_inField (hfields : fields ≤ 5) (passed : List Char)
    (found : List (List Char × List Char)) (hf : ∀ c ∈ f, isTimeChar c = true) (s : List Char) :
    timeCutsFrom ⟨fields, units, true⟩ passed found (f ++ s) =
      timeCutsFrom ⟨fields, units + f.length, true⟩ (f.reverse ++ passed) found s := by
  induction f generalizing units passed with
  | nil => rfl
  | cons c f ih =>
    have hc := hf c (by simp)
    have hf' : ∀ d ∈ f, isTimeChar d = true := fun d hd => hf d (by simp [hd])
    simp only [List.cons_append, timeCutsFrom, hc, if_true, hfields]
    rw [ih (c :: passed) hf', List.length_cons, List.reverse_cons, List.append_assoc,
      List.singleton_append, Nat.add_assoc, Nat.add_comm 1]

/-- One more field is passed as a whole. -/
theorem timeCutsFrom_field (hfields : fields < 5) (passed : List Char)
    (found : List (List Char × List Char)) (hf : IsTimeField f) (s : List Char) :
    timeCutsFrom ⟨fields, units, false⟩ passed found (f ++ s) =
      timeCutsFrom ⟨fields + 1, units + f.length, true⟩ (f.reverse ++ passed) found s := by
  obtain ⟨c, f, rfl⟩ := List.exists_cons_of_ne_nil hf.ne_nil
  have hc := hf.all c (by simp)
  have hf' : ∀ d ∈ f, isTimeChar d = true := fun d hd => hf.all d (by simp [hd])
  have hnext : fields + 1 ≤ 5 := hfields
  simp only [List.cons_append, timeCutsFrom, hc, if_true, hnext, Bool.false_eq_true, if_false]
  rw [timeCutsFrom_inField hnext (c :: passed) found hf', List.length_cons, List.reverse_cons,
    List.append_assoc, List.singleton_append, Nat.add_assoc, Nat.add_comm 1]

/-- A space behind a field begins the next one. -/
theorem timeCutsFrom_space (passed : List Char) (found : List (List Char × List Char))
    (s : List Char) :
    timeCutsFrom ⟨fields, units, true⟩ passed found (' ' :: s) =
      timeCutsFrom ⟨fields, units, false⟩ (' ' :: passed) found s := by
  have hblank : isTimeChar ' ' = false := by decide
  simp [timeCutsFrom, hblank]

/-- Behind the fifth field a tab ends the time fields, and nothing else can. -/
theorem timeCutsFrom_tab (hunits : 5 ≤ units) (passed : List Char)
    (hs : ∀ c ∈ s.head?, isBlank c = false) :
    timeCutsFrom ⟨5, units, true⟩ passed [] ('\t' :: s) = [(passed.reverse, '\t' :: s)] := by
  have htab : isTimeChar '\t' = false := by decide
  -- the fields end here, because no other blank follows and there are five of them
  cases s with
  | nil => simp [timeCutsFrom, htab, hunits]
  | cons c t =>
    have hc : isBlank c = false := hs c rfl
    have hspace : c ≠ ' ' := by
      rintro rfl
      exact absurd hc (by decide)
    have htab' : c ≠ '\t' := by
      rintro rfl
      exact absurd hc (by decide)
    simp [timeCutsFrom, htab, hunits, hspace, htab']

/-- **The time fields of a line end at one place only**, if no blank follows. -/
theorem timeCuts_append {f₁ f₂ f₃ f₄ f₅ : List Char} (h₁ : IsTimeField f₁) (h₂ : IsTimeField f₂)
    (h₃ : IsTimeField f₃) (h₄ : IsTimeField f₄) (h₅ : IsTimeField f₅)
    (hs : ∀ c ∈ s.head?, isBlank c = false) :
    timeCuts (f₁ ++ ' ' :: (f₂ ++ ' ' :: (f₃ ++ ' ' :: (f₄ ++ ' ' :: (f₅ ++ '\t' :: s))))) =
      [(f₁ ++ ' ' :: (f₂ ++ ' ' :: (f₃ ++ ' ' :: (f₄ ++ ' ' :: f₅))), '\t' :: s)] := by
  have hunits : 5 ≤ 0 + f₁.length + f₂.length + f₃.length + f₄.length + f₅.length := by
    have := List.length_pos_of_ne_nil h₁.ne_nil
    have := List.length_pos_of_ne_nil h₂.ne_nil
    have := List.length_pos_of_ne_nil h₃.ne_nil
    have := List.length_pos_of_ne_nil h₄.ne_nil
    have := List.length_pos_of_ne_nil h₅.ne_nil
    omega
  -- field by field; in each of them there is one way to go on
  rw [timeCuts, timeCutsFrom_field (by decide) _ _ h₁, timeCutsFrom_space,
    timeCutsFrom_field (by decide) _ _ h₂, timeCutsFrom_space,
    timeCutsFrom_field (by decide) _ _ h₃, timeCutsFrom_space,
    timeCutsFrom_field (by decide) _ _ h₄, timeCutsFrom_space,
    timeCutsFrom_field (by decide) _ _ h₅, timeCutsFrom_tab hunits _ hs]
  simp

end TimeCuts

/-! ## The user and the working directory -/

/-- There are no more tabs in front of a text that does not begin with a blank. -/
theorem dropWhile_tab_eq_self {s : List Char} (hs : ∀ c ∈ s.head?, isBlank c = false) :
    s.dropWhile (· == '\t') = s := by
  cases s with
  | nil => rfl
  | cons c t =>
    have htab : c ≠ '\t' := by
      rintro rfl
      exact absurd (hs '\t' rfl) (by decide)
    rw [List.dropWhile_cons_of_neg (by simpa using htab)]

/-- A word in front of a tab is read as a user first. -/
theorem exists_userCuts_eq_cons {user s : List Char} (hne : user ≠ [])
    (huser : ∀ c ∈ user, isBlank c = false) (hs : ∀ c ∈ s.head?, isBlank c = false) :
    ∃ more, userCuts (user ++ '\t' :: s) = (user, s) :: more := by
  have hblank : isBlank '\t' = true := by decide
  have htake : (user ++ '\t' :: s).takeWhile (!isBlank ·) = user := by
    rw [List.takeWhile_append_of_pos (by simpa using huser)]
    simp [hblank]
  have hdrop : (user ++ '\t' :: s).dropWhile (!isBlank ·) = '\t' :: s := by
    rw [List.dropWhile_append_of_pos (by simpa using huser)]
    simp [hblank]
  have hrest : s.dropWhile (· == '\t') = s := dropWhile_tab_eq_self hs
  obtain ⟨c, u, rfl⟩ := List.exists_cons_of_ne_nil hne
  refine ⟨[([], c :: u ++ '\t' :: s)], ?_⟩
  simp only [userCuts, htake, hdrop, hrest]

/-- There is no user if the first blank is not a tab. -/
theorem userCuts_eq_singleton {a b : List Char} (ha : '\t' ∉ a) :
    userCuts (a ++ ' ' :: b) = [([], a ++ ' ' :: b)] := by
  -- the first word ends at a space, so no tab follows it
  have hrest : ∀ rest, (a ++ ' ' :: b).dropWhile (!isBlank ·) ≠ '\t' :: rest := by
    intro rest h
    rw [List.dropWhile_append] at h
    split at h
    · have hspace : isBlank ' ' = true := by decide
      simp [hspace] at h
    · next hne =>
      obtain ⟨c, t, hct⟩ := List.exists_cons_of_ne_nil fun h => hne (List.isEmpty_iff.mpr h)
      rw [hct, List.cons_append] at h
      have hc : c ∈ a := (List.dropWhile_sublist _).subset (hct ▸ List.mem_cons_self)
      exact ha ((List.cons.inj h).1 ▸ hc)
  simp only [userCuts]
  split
  · next h => exact absurd h (hrest _)
  · rfl

/-- A working directory is read up to the last place of its mark. -/
theorem exists_workDirCuts_eq_cons {dir command : List Char} (hne : dir ≠ [])
    (hlast : ¬ " && ".toList <:+: (" && ".toList ++ command).tail) :
    ∃ more, workDirCuts ("cd ".toList ++ (dir ++ (" && ".toList ++ command))) =
      (dir, command) :: more := by
  obtain ⟨earlier, hcuts⟩ := exists_cuts_eq_cons (by decide) dir hlast
  have hprefix : "cd ".toList.isPrefixOf? ("cd ".toList ++ (dir ++ (" && ".toList ++ command))) =
      some (dir ++ (" && ".toList ++ command)) :=
    List.isPrefixOf?_eq_some_iff_append_eq.mpr rfl
  have hkeep : (!dir.isEmpty) = true := by simpa using hne
  refine ⟨earlier.filter (!·.1.isEmpty) ++
    [([], "cd ".toList ++ (dir ++ (" && ".toList ++ command)))], ?_⟩
  rw [workDirCuts, hprefix]
  simp only [hcuts, List.filter_cons, hkeep, if_true, List.cons_append]

/-- There is no working directory without its mark. -/
theorem workDirCuts_eq_singleton {command : List Char} (h : ¬ " && ".toList <:+: command) :
    workDirCuts command = [([], command)] := by
  unfold workDirCuts
  split
  · next t ht =>
    obtain rfl := List.isPrefixOf?_eq_some_iff_append_eq.mp ht
    rw [cuts_eq_nil (by decide) fun hin => h (List.infix_append_of_infix_right hin)]
    rfl
  · rfl

/-! ## The long form is not read -/

/-- What is behind a cut is an end of the text. -/
theorem suffix_of_mem_cuts {mark s b r : List Char} (hm : mark ≠ []) (h : (b, r) ∈ cuts mark s) :
    r <:+ s := by
  rw [(mem_cuts hm).mp h, ← List.append_assoc]
  exact List.suffix_append _ r

/-- Reading a variable leaves an end of the text. -/
theorem suffix_of_dropAssign? {s r : List Char} (h : dropAssign? s = some r) : r <:+ s := by
  unfold dropAssign? at h
  split at h
  · split at h
    · obtain rfl := Option.some.inj h
      exact List.suffix_cons _ _
    · cases h
  · cases h

/-- So does reading a user, -/
theorem suffix_of_mem_userCuts {s u r : List Char} (h : (u, r) ∈ userCuts s) : r <:+ s := by
  simp only [userCuts] at h
  split at h
  · next rest _ hrest =>
    obtain heq | h := List.mem_cons.mp h
    · obtain ⟨rfl, rfl⟩ := Prod.mk.inj heq
      have htab : '\t' :: rest <:+ s := hrest ▸ List.dropWhile_suffix _
      exact ((List.dropWhile_suffix _).trans (List.suffix_cons _ _)).trans htab
    · obtain ⟨-, rfl⟩ := Prod.mk.inj (List.mem_singleton.mp h)
      exact List.suffix_refl _
  · obtain ⟨-, rfl⟩ := Prod.mk.inj (List.mem_singleton.mp h)
    exact List.suffix_refl _

/-- reading a change of directory, -/
theorem suffix_of_mem_workDirCuts {s d r : List Char} (h : (d, r) ∈ workDirCuts s) : r <:+ s := by
  unfold workDirCuts at h
  split at h
  · next t ht =>
    obtain rfl := List.isPrefixOf?_eq_some_iff_append_eq.mp ht
    obtain h | h := List.mem_append.mp h
    · have hsuffix := suffix_of_mem_cuts (by decide) (List.mem_of_mem_filter h)
      exact hsuffix.trans (List.suffix_append _ _)
    · obtain ⟨-, rfl⟩ := Prod.mk.inj (List.mem_singleton.mp h)
      exact List.suffix_refl _
  · obtain ⟨-, rfl⟩ := Prod.mk.inj (List.mem_singleton.mp h)
    exact List.suffix_refl _

/-- and looking for the configuration file. So what ends in a word keeps its end through all of
them. -/
theorem suffix_of_mem_configPlaces {s r : List Char} (h : r ∈ configPlaces s) : r <:+ s := by
  unfold configPlaces at h
  split at h
  · split at h
    · cases h
    · obtain ⟨⟨b, y⟩, hmem, hdrop⟩ := List.mem_filterMap.mp h
      have hsuffix := suffix_of_mem_cuts (by decide) (List.mem_of_mem_filter hmem)
      exact ((suffix_of_dropAssign? hdrop).trans hsuffix).trans (List.suffix_cons _ _)
  · cases h

/-- A text of time fields as they are read: at least five characters, each of them in a field or
between fields. -/
structure IsTimeText (s : List Char) : Prop where
  length : 5 ≤ s.length
  all : ∀ c ∈ s, isTimeChar c = true ∨ c = ' ' ∨ c = '\t'

/-- The time fields and what stands behind them are the line. -/
theorem append_of_mem_timeCuts {line time r : List Char} (h : (time, r) ∈ timeCuts line) :
    time ++ r = line ∧ IsTimeText time := by
  -- what has been passed is a beginning of the line, and the characters of fields in it are counted
  have key : ∀ (s : List Char) (p : TimeProgress) (passed : List Char)
      (found : List (List Char × List Char)), passed.reverse ++ s = line →
      p.units ≤ passed.length → (∀ c ∈ passed, isTimeChar c = true ∨ c = ' ' ∨ c = '\t') →
      (∀ x ∈ found, x.1 ++ x.2 = line ∧ IsTimeText x.1) →
      ∀ x ∈ timeCutsFrom p passed found s, x.1 ++ x.2 = line ∧ IsTimeText x.1 := by
    intro s
    induction s with
    | nil => exact fun _ _ _ _ _ _ hfound => hfound
    | cons c t ih =>
      intro p passed found hline hunits hall hfound
      have hnext : (c :: passed).reverse ++ t = line := by simpa using hline
      have hhere : ∀ x ∈ if c == '\t' && 5 ≤ p.units then (passed.reverse, c :: t) :: found
          else found, x.1 ++ x.2 = line ∧ IsTimeText x.1 := by
        split
        · next hcut =>
          simp only [Bool.and_eq_true, decide_eq_true_eq] at hcut
          intro x hx
          obtain rfl | hx := List.mem_cons.mp hx
          · refine ⟨hline, ?_, fun d hd => hall d (List.mem_reverse.mp hd)⟩
            rw [List.length_reverse]
            exact hcut.2.trans hunits
          · exact hfound x hx
        · exact hfound
      simp only [timeCutsFrom]
      split
      · next hc =>
        generalize (if p.inField = true then p.fields else p.fields + 1) = fields
        split
        · refine ih _ _ _ hnext (Nat.succ_le_succ hunits) ?_ hfound
          exact List.forall_mem_cons.mpr ⟨.inl hc, hall⟩
        · exact hfound
      · split
        · next hblank =>
          split
          · refine ih _ _ _ hnext (Nat.le_succ_of_le hunits) ?_ hhere
            exact List.forall_mem_cons.mpr ⟨.inr (by simpa using hblank), hall⟩
          · exact hhere
        · exact hfound
  exact key line {} [] [] rfl (Nat.le_refl 0) (by simp) (by simp) _ h

/-- The identity of a line is read from an end of the line. -/
theorem exists_identity?_of_read? {tail? : List Char → Option (List Char × List Char)}
    {line : List Char} {p : LineParts} (h : LineParts.read? tail? line = some p) :
    ∃ s, s <:+ line ∧ identity? tail? s = some p.identity := by
  obtain ⟨⟨time, s⟩, htime, h⟩ := List.exists_of_findSome?_eq_some h
  obtain ⟨⟨user, s'⟩, huser, h⟩ := List.exists_of_findSome?_eq_some h
  obtain ⟨⟨dir, commandLine⟩, hdir, h⟩ := List.exists_of_findSome?_eq_some h
  obtain ⟨identity, hidentity, rfl⟩ := Option.map_eq_some_iff.mp h
  refine ⟨commandLine, ?_, hidentity⟩
  calc commandLine <:+ s' := suffix_of_mem_workDirCuts hdir
    _ <:+ s.dropWhile (· == '\t') := suffix_of_mem_userCuts huser
    _ <:+ s := List.dropWhile_suffix _
    _ <:+ line := ⟨time, (append_of_mem_timeCuts htime).1⟩

/-- A line that is read begins with time fields. -/
theorem exists_isTimeText_of_read? {tail? : List Char → Option (List Char × List Char)}
    {line : List Char} {p : LineParts} (h : LineParts.read? tail? line = some p) :
    ∃ time r, IsTimeText time ∧ line = time ++ r := by
  obtain ⟨⟨time, r⟩, htime, -⟩ := List.exists_of_findSome?_eq_some h
  obtain ⟨hline, htext⟩ := append_of_mem_timeCuts htime
  exact ⟨time, r, htext, hline.symm⟩

/-- What is read for an identity is read in an end of the text. -/
theorem exists_suffix_of_identity? {tail? : List Char → Option (List Char × List Char)}
    {s : List Char} {i : Identity} (h : identity? tail? s = some i) :
    ∃ r t, r <:+ s ∧ tail? r = some t := by
  obtain ⟨place, hplace, h⟩ := List.exists_of_findSome?_eq_some h
  obtain ⟨⟨n, rest⟩, hname, h⟩ := List.exists_of_findSome?_eq_some h
  obtain ⟨t, ht, -⟩ := Option.map_eq_some_iff.mp h
  exact ⟨rest, t, (suffix_of_mem_configCuts hname).trans (suffix_of_mem_configPlaces hplace), ht⟩

/-- A text that is an end of one with a given last word. -/
def EndsInWord (w s : List Char) : Prop :=
  ∃ x, s <:+ x ++ ' ' :: w

namespace EndsInWord

variable {w s r : List Char}

/-- An end of a text that ends in a word ends in it too, or is part of it. -/
theorem of_suffix (h : EndsInWord w s) (hr : r <:+ s) : EndsInWord w r := by
  obtain ⟨x, hx⟩ := h
  exact ⟨x, hr.trans hx⟩

/-- Behind the last blank there is the word. -/
theorem eq_append_of_mem (h : EndsInWord w s) (hw : ' ' ∉ w) (hs : ' ' ∈ s) :
    ∃ y, s = y ++ ' ' :: w := by
  obtain ⟨x, k, hk⟩ := h
  obtain ⟨z, -, hz⟩ | ⟨z, -, hz⟩ := List.append_eq_append_iff.mp hk
  · exact ⟨z, hz⟩
  · cases z with
    | nil => exact ⟨[], hz.symm⟩
    | cons c z =>
      rw [List.cons_append] at hz
      exact absurd ((List.cons.inj hz).2 ▸ List.mem_append_right z hs) hw

/-- A long form ends in a word in lower case, and so not in one with an at sign. -/
theorem longCommand?_eq_none (h : EndsInWord w s) (hw : ' ' ∉ w) (hat : '@' ∈ w) :
    longCommand? s = none := by
  by_cases hs : ' ' ∈ s
  · obtain ⟨y, rfl⟩ := h.eq_append_of_mem hw hs
    obtain ⟨earlier, hcuts⟩ := exists_cuts_char_eq_cons hw y
    have hlower : w.all Char.isLower = false := by
      rw [List.all_eq_false]
      exact ⟨'@', hat, by decide⟩
    simp [longCommand?, hcuts, hlower]
  · simp [longCommand?, cuts_char_eq_nil hs]

/-- A line that ends in a word with an at sign is not of the long form, because the command there is
its last word. -/
theorem longTail?_eq_none (h : EndsInWord w s) (hw : ' ' ∉ w) (hat : '@' ∈ w) :
    longTail? s = none := by
  refine List.findSome?_eq_none_iff.mpr fun ⟨b, r⟩ hmem => ?_
  have hr := h.of_suffix (suffix_of_mem_cuts (by decide) hmem)
  cases hdrop : dropAssign? r with
  | none => simp [namedTail?, hdrop]
  | some rest =>
    have hrest := hr.of_suffix (suffix_of_dropAssign? hdrop)
    have hcommand := (hrest.of_suffix (List.dropWhile_suffix (!isBlank ·))).longCommand?_eq_none
      hw hat
    simp [namedTail?, hdrop, hcommand]

/-- **No long form is read** in a line whose last word has an at sign. -/
theorem read?_longTail?_eq_none (h : EndsInWord w s) (hw : ' ' ∉ w) (hat : '@' ∈ w) :
    LineParts.read? longTail? s = none := by
  by_contra hsome
  obtain ⟨p, hp⟩ := Option.ne_none_iff_exists'.mp hsome
  obtain ⟨r, hr, hidentity⟩ := exists_identity?_of_read? hp
  obtain ⟨r', t, hr', hread⟩ := exists_suffix_of_identity? hidentity
  rw [(h.of_suffix (hr'.trans hr)).longTail?_eq_none hw hat] at hread
  cases hread

end EndsInWord

/-! ## The short form -/

/-- The tail of a short form is read up to the last at sign. -/
theorem shortTail?_eq_some {command profile : List Char} (hcommand : command ≠ [])
    (hprofile : profile ≠ []) (hblank : ∀ c ∈ command ++ '@' :: profile, isBlank c = false)
    (hat : '@' ∉ profile) :
    shortTail? ("run-schedule ".toList ++ (command ++ '@' :: profile)) =
      some (profile, command) := by
  have hprefix : "run-schedule ".toList.isPrefixOf?
      ("run-schedule ".toList ++ (command ++ '@' :: profile)) = some (command ++ '@' :: profile) :=
    List.isPrefixOf?_eq_some_iff_append_eq.mpr rfl
  have hany : (command ++ '@' :: profile).any isBlank = false :=
    List.any_eq_false.mpr fun c hc => by simp [hblank c hc]
  obtain ⟨earlier, hcuts⟩ := exists_cuts_char_eq_cons hat command
  have hfirst : (!command.isEmpty && !profile.isEmpty) = true := by simp [hcommand, hprofile]
  rw [shortTail?, hprefix]
  simp only [Option.bind_eq_bind, Option.bind_some, hany, Bool.false_eq_true, if_false, hcuts,
    List.find?_cons, hfirst]
  rfl

/-- A short form is its word, and a name of a profile stands behind the last at sign. -/
theorem eq_of_shortTail? {s : List Char} {t : List Char × List Char} (h : shortTail? s = some t) :
    s = "run-schedule ".toList ++ (t.2 ++ '@' :: t.1) ∧
      ∀ c ∈ t.2 ++ '@' :: t.1, isBlank c = false := by
  obtain ⟨rest, hprefix, hread⟩ := Option.bind_eq_some_iff.mp h
  obtain rfl := List.isPrefixOf?_eq_some_iff_append_eq.mp hprefix
  split at hread
  · cases hread
  · next hblank =>
    obtain ⟨⟨c, p⟩, hfind, ht⟩ := Option.bind_eq_some_iff.mp hread
    obtain rfl := Option.some.inj ht
    obtain rfl := (mem_cuts (by simp)).mp (List.mem_of_find?_eq_some hfind)
    have hnone := List.any_eq_false.mp (Bool.eq_false_iff.mpr hblank)
    exact ⟨rfl, fun x hx => by simpa using hnone x hx⟩

namespace EndsInWord

variable {w s r : List Char} {t : List Char × List Char}

/-- A short form that is read at the end of a text ends in the last word of the text. -/
theorem eq_of_shortTail? (h : EndsInWord w s) (hw : ' ' ∉ w) (hread : shortTail? s = some t) :
    t.2 ++ '@' :: t.1 = w := by
  obtain ⟨hshape, hblank⟩ := Cron.eq_of_shortTail? hread
  obtain ⟨y, hy⟩ := h.eq_append_of_mem hw (by rw [hshape]; simp)
  have hspace : ' ' ∉ t.2 ++ '@' :: t.1 := fun h => absurd (hblank ' ' h) (by decide)
  have hlast : "run-schedule".toList ++ ' ' :: (t.2 ++ '@' :: t.1) = y ++ ' ' :: w := by
    rw [← hy, hshape]
    simp
  exact (append_cons_inj_right hspace hw hlast).2

/-- Whatever is read as a short form at the end of a text is read in its last two words. -/
theorem shortTail?_of_suffix (h : EndsInWord w s) (hw : ' ' ∉ w) (hr : r <:+ s)
    (hread : shortTail? r = some t) :
    "run-schedule ".toList ++ w <:+ r ∧ shortTail? ("run-schedule ".toList ++ w) = some t := by
  have hshape := (Cron.eq_of_shortTail? hread).1
  rw [(h.of_suffix hr).eq_of_shortTail? hw hread] at hshape
  exact ⟨by rw [hshape], hshape ▸ hread⟩

end EndsInWord

end Cron

end Timetable
