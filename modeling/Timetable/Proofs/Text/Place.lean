import Timetable.Proofs.Text.Mark

/-!
The places of a mark in a text, and the last of them.

All places of a mark are found, the last one first. So a reader that tries them
in this order takes the last place at which it can go on. Where places may
overlap, one place can hide behind another: behind a place there is no later one
if the mark does not stand in what follows its first character. For a mark whose
places cannot overlap it is enough to look behind the place.
-/

set_option autoImplicit false

namespace Timetable.Text

variable {mark b r s : List Char}

/-! ## Places that cannot overlap -/

/-- A mark whose places cannot overlap: no end of it is a beginning of it. -/
def IsUnbordered (mark : List Char) : Prop :=
  ∀ n < mark.length, 0 < n → ¬ mark.drop n <+: mark

instance (mark : List Char) : Decidable (IsUnbordered mark) :=
  inferInstanceAs (Decidable (∀ n < mark.length, 0 < n → ¬ mark.drop n <+: mark))

namespace IsUnbordered

/-- No other place begins within a place. -/
theorem eq_nil_of_length_lt (hm : IsUnbordered mark) {k f g : List Char}
    (hk : k.length < mark.length) (h : mark ++ f = k ++ (mark ++ g)) : k = [] := by
  by_contra hne
  obtain ⟨j, rfl, -⟩ | ⟨j, hmark, hj⟩ := List.append_eq_append_iff.mp h
  · rw [List.length_append] at hk
    omega
  -- an end of the mark would be a beginning of it
  · have hdrop : mark.drop k.length = j := by simp [hmark]
    have hlength : j.length ≤ mark.length := by simp [hmark]
    refine hm k.length hk (List.length_pos_of_ne_nil hne) ?_
    rw [hdrop]
    exact List.prefix_of_prefix_length_le ⟨f, hj.symm⟩ (List.prefix_append mark g) hlength

/-- Behind a place there is no other one if the mark does not stand in what comes behind. -/
theorem eq_nil_of_append_eq (hm : IsUnbordered mark) {k f g : List Char} (hf : ¬ mark <:+: f)
    (h : mark ++ f = k ++ (mark ++ g)) : k = [] := by
  refine hm.eq_nil_of_length_lt (Nat.lt_of_not_le fun hk => hf ?_) h
  obtain ⟨j, hj⟩ := List.prefix_of_prefix_length_le ⟨f, rfl⟩ ⟨mark ++ g, h.symm⟩ hk
  rw [← hj, List.append_assoc] at h
  exact ⟨j, g, by simpa using (List.append_cancel_left h).symm⟩

/-- Two places less than the length of the mark apart are the same. -/
theorem eq_of_near (hm : IsUnbordered mark) {x y f g : List Char}
    (h : x ++ (mark ++ f) = y ++ (mark ++ g)) (hx : x.length < y.length + mark.length)
    (hy : y.length < x.length + mark.length) : x = y := by
  rcases List.append_eq_append_iff.mp h with ⟨k, rfl, hk⟩ | ⟨k, rfl, hk⟩
  · rw [List.length_append] at hy
    rw [hm.eq_nil_of_length_lt (by omega) hk, List.append_nil]
  · rw [List.length_append] at hx
    rw [hm.eq_nil_of_length_lt (by omega) hk, List.append_nil]

/-- **The last place of a mark.** A text has only one place of a mark behind which the mark does
not stand again. -/
theorem append_inj (hm : IsUnbordered mark) {x y f g : List Char} (hf : ¬ mark <:+: f)
    (hg : ¬ mark <:+: g) (h : x ++ (mark ++ f) = y ++ (mark ++ g)) : x = y ∧ f = g := by
  have same : x = y := by
    obtain ⟨k, rfl, hk⟩ | ⟨k, rfl, hk⟩ := List.append_eq_append_iff.mp h
    · simp [hm.eq_nil_of_append_eq hf hk]
    · simp [hm.eq_nil_of_append_eq hg hk]
  subst same
  exact ⟨rfl, by simpa using h⟩

/-- A place is the one behind which the mark does not stand again, if that is no later one. -/
theorem eq_of_append_eq (hm : IsUnbordered mark) {x y f g : List Char} (hg : ¬ mark <:+: g)
    (h : x ++ (mark ++ f) = y ++ (mark ++ g)) (hlater : ∀ k, y = x ++ k → k = []) : x = y := by
  obtain ⟨k, rfl, -⟩ | ⟨k, rfl, hk⟩ := List.append_eq_append_iff.mp h
  · rw [hlater k rfl, List.append_nil]
  · rw [hm.eq_nil_of_append_eq hg hk, List.append_nil]

end IsUnbordered

/-! ## All places -/

theorem cutsFrom_eq (mark passed : List Char) (found : List (List Char × List Char))
    (s : List Char) :
    cutsFrom mark passed found s =
      (cuts mark s).map (fun p => (passed.reverse ++ p.1, p.2)) ++ found := by
  -- what has been found and what has been passed are carried along
  induction s generalizing passed found with
  | nil => simp [cuts, cutsFrom]
  | cons c t ih =>
    cases h : mark.isPrefixOf? (c :: t) with
    | none =>
      simp only [cuts, cutsFrom, h]
      rw [ih (c :: passed), ih [c]]
      simp
    | some rest =>
      simp only [cuts, cutsFrom, h]
      rw [ih (c :: passed), ih [c]]
      simp

theorem cuts_nil (mark : List Char) : cuts mark [] = [] := rfl

/-- The places of a mark in a text that begins with a character: the later ones, and perhaps one
at the beginning. -/
theorem cuts_cons (mark : List Char) (c : Char) (t : List Char) :
    cuts mark (c :: t) =
      (cuts mark t).map (fun p => (c :: p.1, p.2)) ++
        ((mark.isPrefixOf? (c :: t)).map fun rest => ([], rest)).toList := by
  cases h : mark.isPrefixOf? (c :: t) with
  | none => simp [cuts, cutsFrom, h, cutsFrom_eq mark [c]]
  | some rest => simp [cuts, cutsFrom, h, cutsFrom_eq mark [c]]

/-- **All places are found.** -/
theorem mem_cuts (hm : mark ≠ []) : (b, r) ∈ cuts mark s ↔ s = b ++ (mark ++ r) := by
  induction s generalizing b with
  | nil => simp [cuts_nil, hm]
  | cons c t ih =>
    have hhere : ([], r) ∈ ((mark.isPrefixOf? (c :: t)).map fun rest =>
        (([] : List Char), rest)).toList ↔ c :: t = mark ++ r := by
      rw [Option.mem_toList, Option.map_eq_some_iff]
      simp [List.isPrefixOf?_eq_some_iff_append_eq, eq_comm]
    rw [cuts_cons, List.mem_append]
    -- a place at the beginning, or one of the rest
    cases b with
    | nil => simpa using hhere
    | cons d b =>
      have hnot : (d :: b, r) ∉ ((mark.isPrefixOf? (c :: t)).map fun rest =>
          (([] : List Char), rest)).toList := by
        simp
      simp only [hnot, or_false, List.mem_map, Prod.mk.injEq, List.cons.injEq, List.cons_append]
      constructor
      · rintro ⟨⟨b', r'⟩, hmem, ⟨rfl, rfl⟩, rfl⟩
        exact ⟨rfl, ih.mp hmem⟩
      · rintro ⟨rfl, rfl⟩
        exact ⟨(b, r), ih.mpr rfl, ⟨rfl, rfl⟩, rfl⟩

theorem cuts_eq_nil (hm : mark ≠ []) (h : ¬ mark <:+: s) : cuts mark s = [] := by
  refine List.eq_nil_iff_forall_not_mem.mpr fun ⟨b, r⟩ hmem => h ?_
  exact ⟨b, r, by rw [(mem_cuts hm).mp hmem, List.append_assoc]⟩

/-- The places come in descending order. -/
theorem pairwise_cuts (mark s : List Char) :
    (cuts mark s).Pairwise fun p p' => p'.1.length < p.1.length := by
  induction s with
  | nil => exact .nil
  | cons c t ih =>
    rw [cuts_cons, List.pairwise_append]
    refine ⟨?_, ?_, ?_⟩
    · exact ih.map _ fun p p' h => by simpa using h
    · cases mark.isPrefixOf? (c :: t) <;> simp
    · intro p hp p' hp'
      obtain ⟨q, -, rfl⟩ := List.mem_map.mp hp
      obtain ⟨rest, -, rfl⟩ := Option.map_eq_some_iff.mp (Option.mem_toList.mp hp')
      simp

/-- In a list in descending order, what succeeds first is at least as great as all that would
succeed. -/
theorem exists_of_findSome?_descending {α β : Type} (size : α → Nat) {l : List α}
    (hl : l.Pairwise fun x y => size y < size x) {f : α → Option β} {b : β}
    (h : l.findSome? f = some b) :
    ∃ x ∈ l, f x = some b ∧ ∀ y ∈ l, f y ≠ none → size y ≤ size x := by
  obtain ⟨l₁, x, l₂, rfl, hx, hnone⟩ := List.findSome?_eq_some_iff.mp h
  refine ⟨x, by simp, hx, fun y hy hsome => ?_⟩
  -- what is greater stands in front, where nothing succeeds
  obtain hy | hy := List.mem_append.mp hy
  · exact absurd (hnone y hy) hsome
  · obtain rfl | hy := List.mem_cons.mp hy
    · exact Nat.le_refl _
    · exact Nat.le_of_lt ((List.pairwise_cons.mp (List.pairwise_append.mp hl).2.1).1 y hy)

/-- In a list in descending order, what succeeds comes first if nothing greater succeeds. -/
theorem findSome?_descending {α β : Type} (size : α → Nat) {l : List α}
    (hl : l.Pairwise fun x y => size y < size x) {f : α → Option β} {x : α} {b : β} (hx : x ∈ l)
    (hf : f x = some b) (hgreater : ∀ y ∈ l, size x < size y → f y = none) :
    l.findSome? f = some b := by
  obtain ⟨l₁, l₂, rfl⟩ := List.append_of_mem hx
  have hnone : l₁.findSome? f = none := List.findSome?_eq_none_iff.mpr fun y hy =>
    hgreater y (by simp [hy]) ((List.pairwise_append.mp hl).2.2 y hy x (by simp))
  rw [List.findSome?_append, hnone, List.findSome?_cons, hf]
  rfl

/-! ## The last place -/

/-- A later place is one in the mark and what comes behind it. -/
theorem exists_of_later_place (hm : mark ≠ []) {b' r' : List Char}
    (h : (b', r') ∈ cuts mark (b ++ (mark ++ r))) (hlater : b.length < b'.length) :
    ∃ k, k ≠ [] ∧ b' = b ++ k ∧ k ++ (mark ++ r') = mark ++ r := by
  obtain ⟨k, rfl, hk⟩ | ⟨k, rfl, -⟩ := List.append_eq_append_iff.mp ((mem_cuts hm).mp h)
  · refine ⟨k, ?_, rfl, hk.symm⟩
    rintro rfl
    simp at hlater
  · rw [List.length_append] at hlater
    omega

/-- **The last usable place.** A reader that fails at all later places and goes on at one takes
this one. -/
theorem findSome?_cuts {α : Type} (hm : mark ≠ []) {f : List Char × List Char → Option α} {a : α}
    (hlater : ∀ k y, k ≠ [] → k ++ (mark ++ y) = mark ++ r → f (b ++ k, y) = none)
    (hf : f (b, r) = some a) : (cuts mark (b ++ (mark ++ r))).findSome? f = some a := by
  refine findSome?_descending (fun p => p.1.length) (pairwise_cuts mark _)
    ((mem_cuts hm).mpr rfl) hf ?_
  rintro ⟨b', y⟩ hmem hlength
  obtain ⟨k, hk, rfl, hplace⟩ := exists_of_later_place hm hmem hlength
  exact hlater k y hk hplace

/-- A place behind which there is no other one comes first. -/
theorem exists_cuts_eq_cons (hm : mark ≠ []) (b : List Char)
    (hlast : ¬ mark <:+: (mark ++ r).tail) :
    ∃ earlier, cuts mark (b ++ (mark ++ r)) = (b, r) :: earlier := by
  have hmem : (b, r) ∈ cuts mark (b ++ (mark ++ r)) := (mem_cuts hm).mpr rfl
  have hdescending := pairwise_cuts mark (b ++ (mark ++ r))
  obtain ⟨⟨b', r'⟩, earlier, hcuts⟩ := List.exists_cons_of_ne_nil (List.ne_nil_of_mem hmem)
  rw [hcuts] at hmem hdescending
  -- a place in front of this one would be a later place
  obtain hfirst | hearlier := List.mem_cons.mp hmem
  · exact ⟨earlier, by rw [hcuts, hfirst]⟩
  · have hlength := (List.pairwise_cons.mp hdescending).1 _ hearlier
    obtain ⟨k, hk, -, hplace⟩ :=
      exists_of_later_place hm (hcuts ▸ List.mem_cons_self : (b', r') ∈ _) hlength
    obtain ⟨d, k, rfl⟩ := List.exists_cons_of_ne_nil hk
    exact absurd ⟨k, r', by simp [← hplace]⟩ hlast

/-- The last place of a character is the one behind which it does not stand again. -/
theorem exists_cuts_char_eq_cons {c : Char} {r : List Char} (hr : c ∉ r) (b : List Char) :
    ∃ earlier, cuts [c] (b ++ c :: r) = (b, r) :: earlier :=
  exists_cuts_eq_cons (List.cons_ne_nil c []) b (by simpa [List.singleton_infix_iff] using hr)

/-- A character that does not stand in a text has no place there. -/
theorem cuts_char_eq_nil {c : Char} {s : List Char} (h : c ∉ s) : cuts [c] s = [] :=
  cuts_eq_nil (List.cons_ne_nil c []) (by simpa [List.singleton_infix_iff] using h)

end Timetable.Text
