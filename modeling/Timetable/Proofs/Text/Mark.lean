import Timetable.Proofs.Text.Line

/-!
Where a mark stands in a text.

That a mark stands somewhere in a text is the infix relation. The marks of this
library are whole lines: they end with a line end and have no other one. Such a
mark cannot lie across a line end, and no two places of it overlap. So it stands
in two texts put together only where it stood before, as long as they are put
together at a line end, or with something between them that the mark does not
have; and a text is cut at the first place of it exactly when it does not stand
in what comes before.
-/

set_option autoImplicit false

namespace Timetable.Text

/-- A mark that is a line with its line end. -/
def IsLineMark (mark : List Char) : Prop :=
  ∃ w, mark = w ++ ['\n'] ∧ '\n' ∉ w

/-! ## Marks over the seam of two texts -/

/-- A mark cannot lie over a character that it does not have. -/
theorem infix_append_cons_iff {mark a b : List Char} {c : Char} (h : c ∉ mark) :
    mark <:+: a ++ c :: b ↔ mark <:+: a ∨ mark <:+: b := by
  have eq_nil : ∀ v, v ⊆ mark → v <+: c :: b → v = [] := by
    intro v hv hp
    obtain rfl | ⟨v', rfl, -⟩ := List.prefix_cons_iff.mp hp
    · rfl
    · exact absurd (hv (by simp)) h
  constructor
  · intro hm
    -- the mark stands on one side of the character, or it reaches across it
    obtain ha | hcb | ⟨u, v, rfl, hu, hv⟩ := List.infix_append_iff.mp hm
    · exact .inl ha
    · obtain hp | hb := List.infix_cons_iff.mp hcb
      · rw [eq_nil mark (List.Subset.refl _) hp]
        exact .inl List.nil_infix
      · exact .inr hb
    · rw [eq_nil v (List.subset_append_right u v) hv, List.append_nil]
      exact .inl hu.isInfix
  · rintro (ha | hb)
    · exact List.infix_append_of_infix_left ha
    · exact List.infix_append_of_infix_right (List.infix_cons hb)

namespace IsLineMark

variable {mark : List Char}

/-- A mark has at least its line end. -/
theorem ne_nil (hm : IsLineMark mark) : mark ≠ [] := by
  obtain ⟨w, rfl, -⟩ := hm
  simp

/-- The line end of a mark is in its last part and in no other. -/
theorem newline_of_append_eq (hm : IsLineMark mark) {u v : List Char} (h : mark = u ++ v)
    (hv : v ≠ []) : '\n' ∈ v ∧ '\n' ∉ u := by
  obtain ⟨w, rfl, hw⟩ := hm
  obtain rfl | ⟨v', x, rfl⟩ := List.eq_nil_or_concat v
  · exact absurd rfl hv
  · rw [List.concat_eq_append, ← List.append_assoc] at h
    obtain ⟨rfl, hx⟩ := List.append_inj' h rfl
    obtain rfl : '\n' = x := by simpa using hx
    exact ⟨by simp, fun hu => hw (List.mem_append_left v' hu)⟩

/-- A mark does not reach into a text without line ends that is put behind. -/
theorem infix_append_iff_left (hm : IsLineMark mark) {a b : List Char} (hb : '\n' ∉ b) :
    mark <:+: a ++ b ↔ mark <:+: a := by
  have not_in_b : ∀ u v, mark = u ++ v → v <:+: b → v = [] := by
    intro u v huv hv
    by_contra hne
    exact hb (hv.subset (hm.newline_of_append_eq huv hne).1)
  constructor
  · intro h
    -- what reaches into the second text has the line end of the mark there
    obtain ha | hib | ⟨u, v, huv, hu, hv⟩ := List.infix_append_iff.mp h
    · exact ha
    · exact absurd (not_in_b [] mark rfl hib) hm.ne_nil
    · rw [huv, not_in_b u v huv hv.isInfix, List.append_nil]
      exact hu.isInfix
  · exact List.infix_append_of_infix_left

/-- A mark has a line end. -/
theorem newline_mem (hm : IsLineMark mark) : '\n' ∈ mark := by
  obtain ⟨w, rfl, -⟩ := hm
  simp

/-- A mark does not stand in a text without line ends. -/
theorem not_infix_of_notMem (hm : IsLineMark mark) {s : List Char} (h : '\n' ∉ s) :
    ¬ mark <:+: s :=
  fun hs => h (hs.subset hm.newline_mem)

/-- If a mark stands in a text whose only line end is at its end, the line of the mark ends there
as well. -/
theorem dropLast_suffix (hm : IsLineMark mark) {s : List Char} (hs : '\n' ∉ s)
    (h : mark <:+: s ++ ['\n']) : mark.dropLast <:+ s := by
  obtain ⟨w, rfl, -⟩ := hm
  obtain ⟨a, b, hab⟩ := h
  obtain rfl | ⟨b', x, rfl⟩ := List.eq_nil_or_concat b
  · rw [List.append_nil, ← List.append_assoc] at hab
    rw [List.dropLast_concat, ← (List.append_inj' hab rfl).1]
    exact List.suffix_append a w
  · rw [List.concat_eq_append, ← List.append_assoc] at hab
    exact absurd (by simp [← (List.append_inj' hab rfl).1]) hs

/-- **A mark does not lie across a line end.** It stands in a text if and only if it stands in
what goes up to a line end or in what comes behind it. -/
theorem infix_append_newline_iff (hm : IsLineMark mark) {a b : List Char} :
    mark <:+: a ++ '\n' :: b ↔ mark <:+: a ++ ['\n'] ∨ mark <:+: b := by
  rw [List.append_cons]
  constructor
  · intro h
    obtain ha | hib | ⟨u, v, huv, hu, hv⟩ := List.infix_append_iff.mp h
    · exact .inl ha
    · exact .inr hib
    · obtain rfl | hv' := eq_or_ne v []
      · exact .inl (by simpa [huv] using hu.isInfix)
      -- the first part of the mark ends where the line ends, so there is no first part
      · obtain rfl | ⟨u', x, rfl⟩ := List.eq_nil_or_concat u
        · exact .inr (by simpa [huv] using hv.isInfix)
        · obtain ⟨k, hk⟩ := hu
          rw [List.concat_eq_append, ← List.append_assoc] at hk
          obtain ⟨-, hx⟩ := List.append_inj' hk rfl
          obtain rfl : x = '\n' := by simpa using hx
          exact absurd (by simp) (hm.newline_of_append_eq huv hv').2
  · rintro (ha | hb)
    · exact List.infix_append_of_infix_left ha
    · exact List.infix_append_of_infix_right hb

/-- A mark stands in a text if and only if it stands in a line of it. -/
theorem infix_iff_exists_mem_lines (hm : IsLineMark mark) {s : List Char} :
    mark <:+: s ↔ ∃ l ∈ lines s, mark <:+: l := by
  induction s using line_induction with
  | last a ha =>
    obtain rfl | hne := eq_or_ne a []
    · simp [hm.ne_nil]
    · simp [lines_of_notMem ha hne]
  | line a b ha ih =>
    rw [hm.infix_append_newline_iff, lines_append_newline ha, ih]
    simp only [List.mem_cons, exists_eq_or_imp]

/-- A mark that does not stand in a text does not come to stand in it when lines are left out. -/
theorem not_infix_of_sublist (hm : IsLineMark mark) {s : List Char} (h : ¬ mark <:+: s)
    {ls : List (List Char)} (hls : ls.Sublist (lines s)) : ¬ mark <:+: ls.flatten := by
  rw [hm.infix_iff_exists_mem_lines] at h ⊢
  rw [lines_flatten ((isLines_lines s).sublist hls)]
  exact fun ⟨l, hl, hml⟩ => h ⟨l, hls.subset hl, hml⟩

end IsLineMark

/-! ## The first place of a mark -/

/-- The text passed already is put in front of what is cut off. -/
theorem cutFrom_eq (mark passed s : List Char) :
    cutFrom mark passed s = (cutAt? mark s).map fun (b, r) => (passed.reverse ++ b, r) := by
  -- what was passed before is only put in front of what the cut gives
  induction s generalizing passed with
  | nil => cases h : mark.isPrefixOf? [] <;> simp [cutAt?, cutFrom, h]
  | cons c t ih =>
    cases h : mark.isPrefixOf? (c :: t) with
    | some r => simp [cutAt?, cutFrom, h]
    | none =>
      have hcut : cutAt? mark (c :: t) = cutFrom mark [c] t := by simp [cutAt?, cutFrom, h]
      rw [hcut, ih [c], cutFrom, h]
      simp only [ih (c :: passed), Option.map_map]
      congr 1
      funext ⟨b, r⟩
      simp

/-- Where a text begins with the mark, nothing is in front of it. -/
theorem cutAt?_eq_of_prefix {mark r : List Char} : cutAt? mark (mark ++ r) = some ([], r) := by
  have h : mark.isPrefixOf? (mark ++ r) = some r :=
    List.isPrefixOf?_eq_some_iff_append_eq.mpr rfl
  rw [cutAt?, cutFrom.eq_def]
  simp only [h, List.reverse_nil]

/-- Where it does not, the first character stands in front of the mark. -/
theorem cutAt?_cons {mark t : List Char} {c : Char} (h : ¬ mark <+: c :: t) :
    cutAt? mark (c :: t) = (cutAt? mark t).map fun (b, r) => (c :: b, r) := by
  have hnone : mark.isPrefixOf? (c :: t) = none := by
    rw [Option.eq_none_iff_forall_ne_some]
    intro r hr
    exact h ⟨r, List.isPrefixOf?_eq_some_iff_append_eq.mp hr⟩
  have hcut : cutAt? mark (c :: t) = cutFrom mark [c] t := by simp [cutAt?, cutFrom, hnone]
  rw [hcut, cutFrom_eq]
  rfl

/-- No mark is found in the empty text. -/
theorem cutAt?_nil {mark : List Char} (h : mark ≠ []) : cutAt? mark [] = none := by
  cases mark with
  | nil => exact absurd rfl h
  | cons c w => rfl

/-- A text is cut at the first place of a mark if the first character of the mark does not stand
before. -/
theorem cutAt?_append_cons {c : Char} {w b : List Char} (h : c ∉ b) (r : List Char) :
    cutAt? (c :: w) (b ++ c :: (w ++ r)) = some (b, r) := by
  induction b with
  | nil =>
    rw [List.nil_append, ← List.cons_append]
    exact cutAt?_eq_of_prefix
  | cons d b ih =>
    simp only [List.mem_cons, not_or] at h
    have hp : ¬ c :: w <+: d :: (b ++ c :: (w ++ r)) := by
      rw [List.cons_prefix_cons]
      exact fun hcd => h.1 hcd.1
    rw [List.cons_append, cutAt?_cons hp, ih h.2]
    rfl

/-- A text is cut at the first place of a character. -/
theorem cutAt?_singleton {c : Char} {b : List Char} (h : c ∉ b) (r : List Char) :
    cutAt? [c] (b ++ c :: r) = some (b, r) :=
  cutAt?_append_cons h r

/-- A cut text is the two parts with the mark between them, and the mark does not stand in the
first part. -/
theorem eq_append_of_cutAt? {mark s b r : List Char} (hm : mark ≠ [])
    (h : cutAt? mark s = some (b, r)) : s = b ++ mark ++ r ∧ ¬ mark <:+: b := by
  -- the cut goes on as long as the mark does not begin
  induction s generalizing b with
  | nil => simp [cutAt?_nil hm] at h
  | cons c t ih =>
    by_cases hp : mark <+: c :: t
    · obtain ⟨r', hr'⟩ := hp
      rw [← hr', cutAt?_eq_of_prefix] at h
      obtain ⟨rfl, rfl⟩ : [] = b ∧ r' = r := by simpa using h
      exact ⟨by simpa using hr'.symm, by simpa using hm⟩
    · rw [cutAt?_cons hp, Option.map_eq_some_iff] at h
      obtain ⟨⟨b', r'⟩, hcut, heq⟩ := h
      obtain ⟨rfl, rfl⟩ : c :: b' = b ∧ r' = r := by simpa using heq
      obtain ⟨rfl, hb'⟩ := ih hcut
      refine ⟨by simp, fun hb => ?_⟩
      obtain hpre | hin := List.infix_cons_iff.mp hb
      · exact hp (hpre.trans (by simp))
      · exact hb' hin

/-- The mark without its last character stands behind what is in front of it. -/
theorem dropLast_prefix_append (mark b r : List Char) :
    b ++ mark.dropLast <+: b ++ mark ++ r := by
  rw [List.append_assoc, List.prefix_append_right_inj]
  exact (List.dropLast_prefix mark).trans (List.prefix_append mark r)

/-- **A text is cut at the first place of a mark**: the mark does not stand in the first part, nor
does it begin there. -/
theorem cutAt?_eq_some_iff_first {mark s b r : List Char} (hm : mark ≠ []) :
    cutAt? mark s = some (b, r) ↔ s = b ++ mark ++ r ∧ ¬ mark <:+: b ++ mark.dropLast := by
  have hlength : mark.dropLast.length + 1 = mark.length := by
    rw [List.length_dropLast]
    exact Nat.sub_add_cancel (List.length_pos_iff.mpr hm)
  constructor
  -- no mark begins earlier, not even one that overlaps the one that was found
  · intro h
    refine ⟨(eq_append_of_cutAt? hm h).1, fun hin => ?_⟩
    induction s generalizing b with
    | nil => simp [cutAt?_nil hm] at h
    | cons c t ih =>
      by_cases hp : mark <+: c :: t
      · obtain ⟨r', hr'⟩ := hp
        rw [← hr', cutAt?_eq_of_prefix] at h
        obtain ⟨rfl, -⟩ : [] = b ∧ r' = r := by simpa using h
        have hle := hin.length_le
        rw [List.nil_append] at hle
        omega
      · have hpre := dropLast_prefix_append mark b r
        rw [← (eq_append_of_cutAt? hm h).1] at hpre
        rw [cutAt?_cons hp, Option.map_eq_some_iff] at h
        obtain ⟨⟨b', r'⟩, hcut, heq⟩ := h
        obtain ⟨rfl, rfl⟩ : c :: b' = b ∧ r' = r := by simpa using heq
        obtain hhead | htail := List.infix_cons_iff.mp hin
        · exact hp (hhead.trans hpre)
        · exact ih hcut htail
  · rintro ⟨rfl, h⟩
    induction b with
    | nil => exact cutAt?_eq_of_prefix
    | cons c b ih =>
      have hp : ¬ mark <+: c :: (b ++ mark ++ r) := by
        intro hhead
        refine h (List.prefix_of_prefix_length_le hhead
          (dropLast_prefix_append mark (c :: b) r) ?_).isInfix
        simp only [List.length_append, List.length_cons]
        omega
      rw [List.cons_append, List.cons_append, cutAt?_cons hp,
        ih fun hin => h (List.infix_cons hin)]
      rfl

/-- A text is cut unless the mark does not stand in it. -/
theorem cutAt?_eq_none_iff {mark s : List Char} (hm : mark ≠ []) :
    cutAt? mark s = none ↔ ¬ mark <:+: s := by
  induction s with
  | nil => simp [cutAt?_nil hm, hm]
  | cons c t ih =>
    by_cases hp : mark <+: c :: t
    · obtain ⟨r, hr⟩ := hp
      rw [← hr, cutAt?_eq_of_prefix]
      simp [List.infix_append_of_infix_left]
    · simp [cutAt?_cons hp, ih, List.infix_cons_iff, hp]

/-! ## Replacing a mark -/

/-- A mark begins no later than before a character that it does not have. -/
theorem prefix_append_cons_iff {mark a b : List Char} {c : Char} (h : c ∉ mark) :
    mark <+: a ++ c :: b ↔ mark <+: a := by
  constructor
  · rintro ⟨r, hr⟩
    obtain ⟨t, hmark, -⟩ | ⟨t, ha, -⟩ := List.append_eq_append_iff.mp hr
    · exact ⟨t, hmark.symm⟩
    · cases t with
      | nil => exact ⟨[], by simp [ha]⟩
      | cons d t =>
        obtain rfl : c = d := by simp_all
        exact absurd (by simp [ha]) h
  · exact fun hm => hm.trans (List.prefix_append a _)

/-- **A mark is replaced on both sides of a character that it does not have.** -/
theorem replace_append_cons {mark other : List Char} {c : Char} (hm : mark ≠ []) (h : c ∉ mark)
    (a b : List Char) :
    replace mark other (a ++ c :: b) = replace mark other a ++ c :: replace mark other b := by
  -- the places that are skipped lie inside a mark that was replaced, so they end before the
  -- character
  have key : ∀ (a : List Char) (skip : Nat), skip ≤ a.length →
      replaceFrom mark other skip (a ++ c :: b) =
        replaceFrom mark other skip a ++ c :: replaceFrom mark other 0 b := by
    intro a
    induction a with
    | nil =>
      intro skip hskip
      obtain rfl : skip = 0 := Nat.le_zero.mp hskip
      have hp : mark.isPrefixOf (c :: b) = false := by
        rw [Bool.eq_false_iff, ne_eq, List.isPrefixOf_iff_prefix]
        intro hp
        exact hm (List.prefix_nil.mp ((prefix_append_cons_iff (a := []) h).mp hp))
      simp [replaceFrom, hp]
    | cons x a ih =>
      intro skip hskip
      rw [List.cons_append]
      cases skip with
      | succ n =>
        rw [List.length_cons] at hskip
        simp only [replaceFrom]
        exact ih n (by omega)
      | zero =>
        have hp : mark.isPrefixOf (x :: (a ++ c :: b)) = mark.isPrefixOf (x :: a) := by
          rw [Bool.eq_iff_iff, List.isPrefixOf_iff_prefix, List.isPrefixOf_iff_prefix,
            ← List.cons_append, prefix_append_cons_iff h]
        simp only [replaceFrom, hp]
        split
        · -- the place that is replaced ends before the character
          next hprefix =>
          have hlength := (List.isPrefixOf_iff_prefix.mp hprefix).length_le
          rw [List.length_cons] at hlength
          rw [ih _ (by omega), List.append_assoc]
        · rw [ih 0 (Nat.zero_le _), List.cons_append]
  exact key a 0 (Nat.zero_le _)

section Replace

variable {mark other : List Char}

@[simp] theorem replace_nil : replace mark other [] = [] :=
  rfl

/-- What is not the beginning of a place stays. -/
theorem replace_cons {c : Char} {t : List Char} (h : ¬ mark <+: c :: t) :
    replace mark other (c :: t) = c :: replace mark other t := by
  have hp : mark.isPrefixOf (c :: t) = false := by
    rwa [Bool.eq_false_iff, ne_eq, List.isPrefixOf_iff_prefix]
  simp [replace, replaceFrom, hp]

/-- A text in which no place of the mark begins stays. -/
theorem replace_append {v t : List Char} (h : ∀ i < v.length, ¬ mark <+: v.drop i ++ t) :
    replace mark other (v ++ t) = v ++ replace mark other t := by
  induction v with
  | nil => rfl
  | cons c v ih =>
    have hrest : ∀ i < v.length, ¬ mark <+: v.drop i ++ t := fun i hi => by
      simpa using h (i + 1) (by simpa using hi)
    have hfirst : ¬ mark <+: c :: (v ++ t) := h 0 (by simp)
    rw [List.cons_append, replace_cons hfirst, ih hrest, List.cons_append]

/-- A place of the mark is replaced. -/
theorem replace_mark_append (hm : mark ≠ []) (t : List Char) :
    replace mark other (mark ++ t) = other ++ replace mark other t := by
  have skip : ∀ x t : List Char,
      replaceFrom mark other x.length (x ++ t) = replaceFrom mark other 0 t := by
    intro x t
    induction x with
    | nil => rfl
    | cons c x ih => simpa [replaceFrom] using ih
  obtain ⟨c, w, rfl⟩ := List.exists_cons_of_ne_nil hm
  have hp : (c :: w).isPrefixOf (c :: (w ++ t)) = true :=
    List.isPrefixOf_iff_prefix.mpr (List.prefix_append (c :: w) t)
  simpa [replace, replaceFrom, hp] using skip w t

/-- Replacing brings no other characters than those that are put in. -/
theorem mem_replace {c : Char} {s : List Char} (h : c ∈ replace mark other s) :
    c ∈ other ∨ c ∈ s := by
  -- by the recursion of the replacement, which skips what it has replaced
  have key : ∀ (s : List Char) (skip : Nat), c ∈ replaceFrom mark other skip s →
      c ∈ other ∨ c ∈ s := by
    intro s
    induction s with
    | nil => simp [replaceFrom]
    | cons d s ih =>
      intro skip h
      cases skip with
      | succ n =>
        rw [replaceFrom] at h
        exact (ih n h).imp_right (List.mem_cons_of_mem d)
      | zero =>
        simp only [replaceFrom] at h
        split at h
        · obtain h | h := List.mem_append.mp h
          · exact .inl h
          · exact (ih _ h).imp_right (List.mem_cons_of_mem d)
        · obtain rfl | h := List.mem_cons.mp h
          · exact .inr (by simp)
          · exact (ih 0 h).imp_right (List.mem_cons_of_mem d)
  exact key s 0 h

/-- A text that is seen after a replacement was there before, if it shares no character with what
is put in. -/
theorem exists_of_replace_eq_append {p : Char → Bool} (hother : ∃ d r, p d = false ∧ other = d :: r)
    (hm : mark ≠ []) {v s r : List Char} (hv : ∀ c ∈ v, p c = true)
    (h : replace mark other s = v ++ r) : ∃ t, s = v ++ t ∧ replace mark other t = r := by
  -- no replaced place begins here, because what is put in begins with another character
  induction v generalizing s with
  | nil => exact ⟨s, rfl, h⟩
  | cons c v ih =>
    by_cases hp : mark <+: s
    · obtain ⟨t, rfl⟩ := hp
      obtain ⟨d, q, hd, rfl⟩ := hother
      rw [replace_mark_append hm, List.cons_append, List.cons_append] at h
      have hc := hv c (by simp)
      rw [← (List.cons.inj h).1, hd] at hc
      exact Bool.noConfusion hc
    · cases s with
      | nil => simp at h
      | cons d s =>
        rw [replace_cons hp, List.cons_append] at h
        obtain ⟨rfl, hs⟩ := List.cons.inj h
        obtain ⟨t, rfl, ht⟩ := ih (fun x hx => hv x (by simp [hx])) hs
        exact ⟨t, rfl, ht⟩

end Replace

namespace IsLineMark

variable {mark : List Char}

/-- A line mark that begins a text in which another place of it is known begins no later. -/
theorem not_prefix_append (hm : IsLineMark mark) {b r : List Char} (hb : b ≠ [])
    (hin : ¬ mark <:+: b) : ¬ mark <+: b ++ mark ++ r := by
  obtain ⟨w, rfl, hw⟩ := hm
  rintro ⟨x, hx⟩
  -- a mark has one line end only, so it is told by where the first one is
  by_cases hn : '\n' ∈ b
  · -- the mark ends at the first line end of the text before the known place
    obtain ⟨u, v, rfl, hu⟩ := List.eq_append_cons_of_mem hn
    have heq : w ++ '\n' :: x = u ++ '\n' :: (v ++ (w ++ ['\n']) ++ r) := by simpa using hx
    obtain ⟨rfl, -⟩ := append_cons_inj_left hw hu heq
    exact hin ⟨[], v, by simp⟩
  · -- the mark ends where the known place ends
    have heq : w ++ '\n' :: x = (b ++ w) ++ '\n' :: r := by simpa using hx
    obtain ⟨hbw, -⟩ := append_cons_inj_left hw (by simp [hn, hw]) heq
    exact hb (by simpa using hbw)

/-- A text is cut at a line mark if it does not stand before. -/
theorem cutAt?_append (hm : IsLineMark mark) {b r : List Char} (h : ¬ mark <:+: b) :
    cutAt? mark (b ++ mark ++ r) = some (b, r) := by
  induction b with
  | nil => simpa using cutAt?_eq_of_prefix
  | cons c b ih =>
    have hp := hm.not_prefix_append (r := r) (List.cons_ne_nil c b) h
    have hb : ¬ mark <:+: b := fun hin => h (List.infix_cons hin)
    rw [List.cons_append, List.cons_append] at hp ⊢
    rw [cutAt?_cons hp, ih hb]
    rfl

/-- **The first place of a line mark.** A text is cut into two parts at a line mark if and only if
the mark between them gives the text back and does not stand in the first part. -/
theorem cutAt?_eq_some_iff (hm : IsLineMark mark) {s b r : List Char} :
    cutAt? mark s = some (b, r) ↔ s = b ++ mark ++ r ∧ ¬ mark <:+: b := by
  constructor
  · exact eq_append_of_cutAt? hm.ne_nil
  · rintro ⟨rfl, h⟩
    exact hm.cutAt?_append h

/-- A mark does not lie across a place where a line ends. -/
theorem infix_append_iff_of_endsLine {a b : List Char} (hm : IsLineMark mark)
    (ha : EndsLine a) : mark <:+: a ++ b ↔ mark <:+: a ∨ mark <:+: b := by
  obtain rfl | ⟨a', rfl⟩ := ha
  · simp [hm.ne_nil]
  · rw [List.append_assoc, List.singleton_append, hm.infix_append_newline_iff]

/-- A text is cut behind whole lines in which the mark does not stand. -/
theorem cutAt?_append_of_endsLine {a : List Char} (hm : IsLineMark mark)
    (ha : EndsLine a) (h : ¬ mark <:+: a) (s : List Char) :
    cutAt? mark (a ++ s) = (cutAt? mark s).map fun (b, r) => (a ++ b, r) := by
  cases hcut : cutAt? mark s with
  | none =>
    rw [cutAt?_eq_none_iff hm.ne_nil] at hcut
    rw [Option.map_none, cutAt?_eq_none_iff hm.ne_nil, hm.infix_append_iff_of_endsLine ha]
    exact not_or.mpr ⟨h, hcut⟩
  | some p =>
    obtain ⟨b, r⟩ := p
    obtain ⟨rfl, hb⟩ := hm.cutAt?_eq_some_iff.mp hcut
    rw [Option.map_some, hm.cutAt?_eq_some_iff, hm.infix_append_iff_of_endsLine ha]
    exact ⟨by simp, not_or.mpr ⟨h, hb⟩⟩

end IsLineMark

end Timetable.Text
