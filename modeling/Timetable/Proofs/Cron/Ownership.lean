import Timetable.Proofs.Cron.Removal

/-!
Which lines a single entry owns.

A line that has its line end is owned in one of two ways: it carries the identity
of the entry in a `resticprofile` command, or it has the command column of the
entry behind some time fields. Both are told here for the text in front of the
line end, in which no line end has to be looked at any more.
-/

set_option autoImplicit false

namespace Timetable

namespace Entry

open Text Cron

/-- The rest of a command behind the configuration file, in the long or in the short form. -/
inductive IsForm (i : Identity) : List Char → Prop where
  | long (flags : List Char) :
    IsForm i ("--name ".toList ++ (i.profile.toList ++ (flags ++ ' ' :: i.command.toList)))
  | short : IsForm i ("run-schedule ".toList ++ (i.command.toList ++ '@' :: i.profile.toList))

/-- An uncommented `resticprofile` command that carries an identity. The program has at least two
characters in front of it and one behind it. -/
inductive IsCommand (i : Identity) : List Char → Prop where
  | mk {c : Char} {front mid q q' form : List Char} (hc : c ≠ '#') (hfront : front ≠ [])
    (hmid : mid ≠ []) (hq : q ∈ quoteLanguage) (hq' : q' ∈ quoteLanguage) (hform : IsForm i form) :
    IsCommand i (c :: (front ++ ("resticprofile".toList ++ (mid ++ ("--config ".toList ++
      (q ++ (i.configFile.toList ++ (q' ++ ' ' :: form))))))))

/-- A text that carries an identity in a `resticprofile` command, wherever the program stands. -/
inductive Carries (i : Identity) : List Char → Prop where
  | mk {front mid q q' form : List Char} (hmid : mid ≠ []) (hq : q ∈ quoteLanguage)
    (hq' : q' ∈ quoteLanguage) (hform : IsForm i form) :
    Carries i (front ++ ("resticprofile".toList ++ (mid ++ ("--config ".toList ++
      (q ++ (i.configFile.toList ++ (q' ++ ' ' :: form)))))))

theorem IsCommand.carries {i : Identity} {w : List Char} (h : IsCommand i w) : Carries i w := by
  cases h with
  | @mk c front mid q q' form hc hfront hmid hq hq' hform =>
    exact @Carries.mk i (c :: front) mid q q' form hmid hq hq' hform

/-- The program stands behind the first two characters, and the first is no number sign. -/
theorem isCommand_cons_cons_iff {i : Identity} {c d : Char} {x : List Char} :
    IsCommand i (c :: d :: x) ↔ c ≠ '#' ∧ Carries i x := by
  constructor
  · generalize hw : c :: d :: x = w
    intro h
    cases h with
    | @mk c' front mid q q' form hc hfront hmid hq hq' hform =>
      obtain ⟨d', front, rfl⟩ := List.exists_cons_of_ne_nil hfront
      obtain ⟨rfl, hrest⟩ := List.cons.inj hw
      obtain ⟨rfl, rfl⟩ := List.cons.inj hrest
      exact ⟨hc, .mk hmid hq hq' hform⟩
  · rintro ⟨hc, hx⟩
    cases hx with
    | mk hmid hq hq' hform => exact .mk hc (List.cons_ne_nil d _) hmid hq hq' hform

theorem mem_stretch {w : List Char} : w ∈ stretch ↔ w ≠ [] ∧ '\n' ∉ w := by
  have hline : (∀ c ∈ w, isInLine c = true) ↔ '\n' ∉ w := by
    simp only [isInLine, bne_iff_ne]
    exact ⟨fun h hw => h _ hw rfl, fun h c hc heq => h (heq ▸ hc)⟩
  exact and_congr_right' hline

theorem mem_formLanguage {i : Identity} {w : List Char} (hw : '\n' ∉ w) :
    w ∈ formLanguage i ↔ IsForm i w := by
  constructor
  · rintro (⟨_, rfl, _, ⟨_, rfl, _, ⟨flags, -, _, ⟨_, rfl, _, rfl, rfl⟩, rfl⟩, rfl⟩, rfl⟩ |
      ⟨_, rfl, _, ⟨_, rfl, _, ⟨_, rfl, _, rfl, rfl⟩, rfl⟩, rfl⟩)
    · exact .long flags
    · exact .short
  · intro h
    cases h with
    | long flags =>
      have hflags : flags ∈ stretch + 1 := by
        simp only [List.mem_cons, List.mem_append, not_or] at hw
        obtain rfl | hne := eq_or_ne flags []
        · exact .inr rfl
        · exact .inl (mem_stretch.mpr ⟨hne, hw.2.2.1⟩)
      exact .inl ⟨_, rfl, _, ⟨_, rfl, _, ⟨flags, hflags, _, ⟨_, rfl, _, rfl, rfl⟩, rfl⟩, rfl⟩, rfl⟩
    | short => exact .inr ⟨_, rfl, _, ⟨_, rfl, _, ⟨_, rfl, _, rfl, rfl⟩, rfl⟩, rfl⟩

/-- A text without line ends is in the language of the commands exactly if it has their shape. -/
theorem mem_commandLanguage {i : Identity} {s : List Char} (hs : '\n' ∉ s) :
    s ∈ commandLanguage i ↔ IsCommand i s := by
  constructor
  · rintro ⟨_, ⟨c, hc, rfl⟩, _, ⟨front, hfront, _, ⟨_, rfl, _, ⟨mid, hmid, _, ⟨_, rfl, _,
      ⟨q, hq, _, ⟨_, rfl, _, ⟨q', hq', _, ⟨_, rfl, form, hform, rfl⟩, rfl⟩, rfl⟩, rfl⟩, rfl⟩, rfl⟩,
      rfl⟩, rfl⟩, rfl⟩
    simp only [Bool.and_eq_true, bne_iff_ne] at hc
    simp only [List.mem_append, not_or] at hs
    exact IsCommand.mk hc.2 hfront.1 hmid.1 hq hq' ((mem_formLanguage (by tauto)).mp hform)
  · intro h
    cases h with
    | @mk c front mid q q' form hc hfront hmid hq hq' hform =>
      simp only [List.mem_cons, List.mem_append, not_or] at hs
      obtain ⟨hcline, hfrontLine, -, hmidLine, -, -, -, -, -, hformLine⟩ := hs
      have hfirst : (isInLine c && c != '#') = true := by
        simpa [isInLine, hc] using Ne.symm hcline
      have htail := (mem_formLanguage hformLine).mpr hform
      exact ⟨_, ⟨c, hfirst, rfl⟩, _, ⟨front, mem_stretch.mpr ⟨hfront, hfrontLine⟩, _, ⟨_, rfl, _,
        ⟨mid, mem_stretch.mpr ⟨hmid, hmidLine⟩, _, ⟨_, rfl, _, ⟨q, hq, _, ⟨_, rfl, _, ⟨q', hq', _,
        ⟨_, rfl, form, htail, rfl⟩, rfl⟩, rfl⟩, rfl⟩, rfl⟩, rfl⟩, rfl⟩, rfl⟩, rfl⟩

/-- A text of five time fields has no tab in it, so what stands behind the first tab of a line is
its command column. -/
theorem append_mem_columnLanguage_iff {e : Entry} {event : Event} (h : event.Reached)
    {column : List Char} :
    (timeFields event).toList ++ '\t' :: column ∈ e.columnLanguage ↔ column = e.column.toList := by
  constructor
  · rintro ⟨f₁, ⟨-, h₁⟩, _, ⟨_, ⟨_, rfl, f₂, ⟨-, h₂⟩, rfl⟩, _, ⟨_, ⟨_, rfl, f₃, ⟨-, h₃⟩, rfl⟩, _,
      ⟨_, ⟨_, rfl, f₄, ⟨-, h₄⟩, rfl⟩, _, ⟨_, ⟨_, rfl, f₅, ⟨-, h₅⟩, rfl⟩, _, ⟨_, rfl, _, rfl, rfl⟩,
      rfl⟩, rfl⟩, rfl⟩, rfl⟩, heq⟩
    have field {f : List Char} (hf : ∀ c ∈ f, isTimeChar c = true) : '\t' ∉ f :=
      fun hm => absurd (hf _ hm) (by decide)
    have hfields : '\t' ∉ f₁ ++ ' ' :: (f₂ ++ ' ' :: (f₃ ++ ' ' :: (f₄ ++ ' ' :: f₅))) := by
      simp [field h₁, field h₂, field h₃, field h₄, field h₅]
    have heq' : (f₁ ++ ' ' :: (f₂ ++ ' ' :: (f₃ ++ ' ' :: (f₄ ++ ' ' :: f₅)))) ++
        '\t' :: e.column.toList = (timeFields event).toList ++ '\t' :: column := by
      simpa using heq
    exact (append_cons_inj_left hfields (tab_notMem_timeFields event) heq').2.symm
  · rintro rfl
    exact e.append_column_mem_columnLanguage h

/-- A line without its line end is not owned. -/
theorem newline_suffix_of_owns {e : Entry} {l : List Char} (hl : IsLine l)
    (h : e.owns l = true) : ['\n'] <:+ l := by
  by_contra hend
  rw [owns, Bool.not_eq_true', List.isEmpty_eq_false_iff_exists_mem] at h
  obtain ⟨r, hr⟩ := h
  obtain ⟨w, rfl⟩ := exists_eq_append_of_mem_linePattern hr
  exact hl.notMem hend (by simp)

/-- **What an entry owns.** A line with its line end is owned if it carries the identity of the
entry in a command, or if it has the command column of the entry. -/
theorem owns_append_newline {e : Entry} {body : List Char} (hbody : '\n' ∉ body) :
    e.owns (body ++ ['\n']) = true ↔
      IsCommand e.toIdentity body ∨ (e.commandLine ≠ "" ∧ body ∈ e.columnLanguage) := by
  have hrest : e.owns (body ++ ['\n']) = true ↔ ∃ r, r ∈ e.linePattern (body ++ ['\n']) := by
    rw [owns, Bool.not_eq_true', List.isEmpty_eq_false_iff_exists_mem]
  rw [hrest, ← mem_commandLanguage hbody]
  simp only [mem_linePattern]
  constructor
  · rintro ⟨r, w, hw, heq⟩
    -- there is only one line end, so the match goes up to it
    obtain rfl : r = [] := by
      by_contra hne
      have hfront := congrArg List.dropLast heq
      rw [List.dropLast_concat, List.dropLast_append_of_ne_nil (List.cons_ne_nil _ r),
        List.dropLast_cons_of_ne_nil hne] at hfront
      exact hbody (by simp [hfront])
    obtain rfl := List.append_cancel_right heq
    exact hw
  · exact fun h => ⟨[], body, h, rfl⟩

end Entry

end Timetable
