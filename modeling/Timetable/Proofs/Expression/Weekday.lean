import Mathlib
import Timetable.Event.Expression
import Timetable.Proofs.Text.Blank
import Timetable.Proofs.Text.Mark
import Timetable.Proofs.Text.Numeral

/-!
Numbers in place of the names of days.

The names of the days of the week are replaced one after another in a whole list,
the long ones first. What that amounts to is said without an order: a text is cut
into names and other characters, and each name becomes the two digits of its day.
This is right because no name begins inside another one, except at the start of a
long name its short one, and because a name that has run over the end of another
one would have to go on with a letter with which no name begins. So as long as no
letter is left, the replacement finds exactly the names.

What is left decides what a text can mean: a number of one digit comes from a text
with at most one name in it, and in front of the name are zeros.
-/

set_option autoImplicit false

namespace Timetable

namespace Expression

open Text

/-! ## Texts of names and other characters -/

/-- A text of some names and of characters that are no letters, and the same text with the two
digits of its day in place of each name. -/
inductive Numbered (names : List (List Char × Nat)) : List Char → List Char → Prop where
  | nil : Numbered names [] []
  | keep {c : Char} {t u : List Char} :
    c.isAlpha = false → Numbered names t u → Numbered names (c :: t) (c :: u)
  | name {v : List Char} {n : Nat} {t u : List Char} :
    (v, n) ∈ names → Numbered names t u → Numbered names (v ++ t) (twoDigits n ++ u)

/-- A name of a day is written in letters, and its day has two digits. -/
theorem of_mem_weekdayWords {v : List Char} {n : Nat} (h : (v, n) ∈ weekdayWords) :
    IsMadeOf Char.isAlpha v ∧ (1 ≤ n ∧ n ≤ 7) ∧ v.map Char.toLower = v := by
  have hall : ∀ p ∈ weekdayWords, (p.1 ≠ [] ∧ ∀ c ∈ p.1, c.isAlpha = true) ∧
      (1 ≤ p.2 ∧ p.2 ≤ 7) ∧ p.1.map Char.toLower = p.1 := by decide
  obtain ⟨⟨hne, halpha⟩, hday⟩ := hall (v, n) h
  exact ⟨⟨hne, halpha⟩, hday⟩

/-- A digit is no letter. -/
theorem isAlpha_of_isDigit {c : Char} (h : c.isDigit = true) : c.isAlpha = false := by
  simp only [Char.isDigit, Char.isAlpha, Char.isUpper, Char.isLower] at *
  grind

/-- What is no letter is not changed by making it small. -/
theorem toLower_of_isAlpha {c : Char} (h : c.toLower.isAlpha = false) : c.toLower = c := by
  refine Char.toLower_eq_of_not_isUpper fun hupper => ?_
  rw [Char.isAlpha_toLower_eq_isAlpha, Char.isAlpha, hupper] at h
  cases h

/-- A text that has no letters in lower case is in lower case. -/
theorem map_toLower_of_isAlpha {s : List Char}
    (h : ∀ c ∈ s.map Char.toLower, c.isAlpha = false) : s.map Char.toLower = s :=
  (List.map_congr_left fun _ hc => toLower_of_isAlpha (h _ (List.mem_map_of_mem hc))).trans
    (List.map_id s)

/-- What is put in for a name has no letters. -/
theorem isAlpha_of_mem_twoDigits {n : Nat} {c : Char} (h : c ∈ twoDigits n) : c.isAlpha = false :=
  isAlpha_of_isDigit (isDigit_of_mem_twoDigits h)

namespace Numbered

variable {names : List (List Char × Nat)} {t t' u u' : List Char}

/-- Names in two texts behind each other are made into numbers one by one. -/
theorem append (h : Numbered names t u) (h' : Numbered names t' u') :
    Numbered names (t ++ t') (u ++ u') := by
  induction h with
  | nil => exact h'
  | keep hc _ ih => exact .keep hc ih
  | name hv _ ih =>
    rw [List.append_assoc, List.append_assoc]
    exact .name hv ih

/-- A text without letters stays. -/
theorem of_isAlpha (h : ∀ c ∈ t, c.isAlpha = false) : Numbered names t t := by
  induction t with
  | nil => exact .nil
  | cons c t ih => exact .keep (h c (by simp)) (ih fun d hd => h d (by simp [hd]))

/-- Without names, only a text without letters is numbered, and it stays. -/
theorem nil_iff : Numbered [] t u ↔ t = u ∧ ∀ c ∈ u, c.isAlpha = false := by
  constructor
  · intro h
    induction h with
    | nil => simp
    | keep hc _ ih =>
      obtain ⟨rfl, hu⟩ := ih
      exact ⟨rfl, by simpa [hc] using hu⟩
    | name hv => simp at hv
  · rintro ⟨rfl, hu⟩
    exact of_isAlpha hu

section Sub

variable (hsub : ∀ p ∈ names, p ∈ weekdayWords)

include hsub

/-- A text without letters is kept, whatever comes behind it. -/
theorem of_append (h : Numbered names (t ++ t') u) (ht : ∀ c ∈ t, c.isAlpha = false) :
    ∃ u', u = t ++ u' ∧ Numbered names t' u' := by
  induction t generalizing u with
  | nil => exact ⟨u, rfl, h⟩
  | cons c t ih =>
    generalize hs : c :: t ++ t' = s at h
    -- in front of the letters every character is kept
    cases h with
    | nil => cases hs
    | keep hc h =>
      obtain ⟨rfl, rfl⟩ := List.cons.inj hs
      obtain ⟨u', rfl, hu'⟩ := ih h fun d hd => ht d (by simp [hd])
      exact ⟨u', rfl, hu'⟩
    | name hv h =>
      obtain ⟨hmade, -⟩ := of_mem_weekdayWords (hsub _ hv)
      obtain ⟨d, v, rfl⟩ := List.exists_cons_of_ne_nil hmade.ne_nil
      have halpha := hmade.all d (by simp)
      rw [← (List.cons.inj hs).1, ht c (by simp)] at halpha
      exact Bool.noConfusion halpha

/-- Nothing comes of nothing. -/
theorem eq_nil (h : Numbered names [] u) : u = [] := by
  generalize hs : [] = s at h
  cases h with
  | nil => rfl
  | keep => cases hs
  | name hv =>
    obtain ⟨hmade, -⟩ := of_mem_weekdayWords (hsub _ hv)
    exact absurd (List.append_eq_nil_iff.mp hs.symm).1 hmade.ne_nil

end Sub

end Numbered

/-! ## One name after another -/

/-- A text with which no numbered text begins: it begins with a letter, and it neither begins a name
nor goes on behind one. -/
def IsForeign (x : List Char) : Prop :=
  x.head?.any Char.isAlpha = true ∧ ∀ p ∈ weekdayWords, ¬ x <+: p.1 ∧ ¬ p.1 <+: x

instance (x : List Char) : Decidable (IsForeign x) :=
  inferInstanceAs (Decidable (_ ∧ _))

/-- A name `w` that cannot be seen where another name `v` stands: it does not begin inside `v`, and
where it could run over the end of `v` it goes on with something foreign. -/
def IsApart (w v : List Char) : Prop :=
  ∀ i < v.length, ¬ w <+: v.drop i ∧
    (v.drop i <+: w → IsForeign (w.drop (v.length - i)))

instance (w v : List Char) : Decidable (IsApart w v) :=
  inferInstanceAs (Decidable (∀ i < v.length, _))

/-- The long names are looked for first, so no name can be seen in one that is still there. -/
theorem pairwise_isApart : weekdayWords.Pairwise fun p q => IsApart p.1 q.1 := by
  decide

section Step

variable {names : List (List Char × Nat)} {w : List Char} {k : Nat} {t u : List Char}
  (hsub : ∀ p ∈ (w, k) :: names, p ∈ weekdayWords)

include hsub

/-- A word that begins none of the names, and in which none begins, does not stand in front of a
text of names. -/
theorem Numbered.not_prefix_of_isForeign (h : Numbered ((w, k) :: names) t u) {x : List Char}
    (hx : IsForeign x) : ¬ x <+: t := by
  obtain ⟨halpha, hnames⟩ := hx
  intro hbegin
  -- the text begins with a character that is kept, or with a name
  cases h with
  | nil =>
    rw [List.prefix_nil] at hbegin
    simp [hbegin] at halpha
  | keep hd =>
    obtain rfl | ⟨y, rfl, -⟩ := List.prefix_cons_iff.mp hbegin
    · simp at halpha
    · rw [List.head?_cons, Option.any_some, hd] at halpha
      exact Bool.noConfusion halpha
  | @name v n t' _ hv =>
    obtain hle | hle := List.prefix_or_prefix_of_prefix hbegin (List.prefix_append v t')
    · exact (hnames _ (hsub _ hv)).1 hle
    · exact (hnames _ (hsub _ hv)).2 hle

/-- Where a name stands, no name is seen that is apart from it. -/
theorem Numbered.not_prefix (h : Numbered ((w, k) :: names) t u) {v : List Char}
    (hv : IsApart w v) {i : Nat} (hi : i < v.length) : ¬ w <+: v.drop i ++ t := by
  rintro ⟨r, hr⟩
  obtain ⟨hinside, hover⟩ := hv i hi
  obtain ⟨x, hx, -⟩ | ⟨x, rfl, rfl⟩ := List.append_eq_append_iff.mp hr
  · exact hinside ⟨x, hx.symm⟩
  · have hforeign := hover (List.prefix_append _ _)
    rw [← List.length_drop, List.drop_left] at hforeign
    exact h.not_prefix_of_isForeign hsub hforeign (List.prefix_append _ _)

/-- A name that is put in numbers is numbered. -/
theorem Numbered.replace (h : Numbered ((w, k) :: names) t u)
    (hapart : ∀ p ∈ names, IsApart w p.1) : Numbered names (Text.replace w (twoDigits k) t) u := by
  obtain ⟨hw, -⟩ := of_mem_weekdayWords (hsub (w, k) (by simp))
  -- the name is replaced where it stands for itself, and nowhere else, because names do not overlap
  induction h with
  | nil => exact .nil
  | @keep c t u hc ht ih =>
    have hfirst : ¬ w <+: c :: t := by
      intro hprefix
      obtain rfl | ⟨x, rfl, -⟩ := List.prefix_cons_iff.mp hprefix
      · exact hw.ne_nil rfl
      · exact hw.notMem hc (by simp)
    rw [replace_cons hfirst]
    exact .keep hc ih
  | @name v n t u hv ht ih =>
    obtain heq | hv := List.mem_cons.mp hv
    · obtain ⟨rfl, rfl⟩ := Prod.mk.inj heq
      rw [replace_mark_append hw.ne_nil]
      exact (Numbered.of_isAlpha fun _ hc => isAlpha_of_mem_twoDigits hc).append ih
    · rw [replace_append fun i hi => ht.not_prefix hsub (hapart _ hv) hi]
      exact .name hv ih

/-- What is numbered after a name was put in numbers was numbered with it. The induction is on the
length, because a name is taken off at once. -/
theorem Numbered.of_replace (h : Numbered names (Text.replace w (twoDigits k) t) u) :
    Numbered ((w, k) :: names) t u := by
  obtain ⟨hw, -⟩ := of_mem_weekdayWords (hsub (w, k) (by simp))
  have hdigits : ∀ c ∈ twoDigits k, c.isAlpha = false := fun _ => isAlpha_of_mem_twoDigits
  have hother : ∃ d r, d.isAlpha = false ∧ twoDigits k = d :: r := by
    obtain ⟨d, r, hk⟩ := List.exists_cons_of_ne_nil (twoDigits_ne_nil k)
    exact ⟨d, r, hdigits d (by simp [hk]), hk⟩
  have hnames : ∀ p ∈ names, p ∈ weekdayWords := fun p hp => hsub p (by simp [hp])
  induction hlength : t.length using Nat.strongRecOn generalizing t u with
  | ind m ih =>
    -- from the left: the place is replaced, or it is kept, or another name stands there
    by_cases hprefix : w <+: t
    · obtain ⟨t, rfl⟩ := hprefix
      rw [replace_mark_append hw.ne_nil] at h
      obtain ⟨u, rfl, hu⟩ := h.of_append hnames hdigits
      have hshorter : t.length < (w ++ t).length := by
        have := List.length_pos_iff.mpr hw.ne_nil
        simp only [List.length_append]
        omega
      exact .name (by simp) (ih t.length (hlength ▸ hshorter) hu rfl)
    · cases t with
      | nil =>
        obtain rfl := h.eq_nil hnames
        exact .nil
      | cons c t =>
        rw [replace_cons hprefix] at h
        generalize hs : c :: Text.replace w (twoDigits k) t = s at h
        cases h with
        | nil => cases hs
        | keep hc h =>
          obtain ⟨rfl, rfl⟩ := List.cons.inj hs
          exact .keep hc (ih t.length (by simp [← hlength]) h rfl)
        | @name v n r u hv h =>
          obtain ⟨hmade, -⟩ := of_mem_weekdayWords (hnames _ hv)
          rw [← replace_cons hprefix] at hs
          obtain ⟨t', ht, rfl⟩ := exists_of_replace_eq_append hother hw.ne_nil hmade.all hs
          have hshorter : t'.length < (c :: t).length := by
            have := List.length_pos_iff.mpr hmade.ne_nil
            simp only [ht, List.length_append]
            omega
          rw [ht]
          exact .name (by simp [hv]) (ih t'.length (hlength ▸ hshorter) h rfl)

end Step

/-- **Numbers in place of names.** As long as no letter is left, the replacement finds exactly the
names of which the text is made. -/
theorem numberWeekdays_eq_iff {t u : List Char} (hu : ∀ c ∈ u, c.isAlpha = false) :
    numberWeekdays t = u ↔ Numbered weekdayWords (t.map Char.toLower) u := by
  have key : ∀ names : List (List Char × Nat), (∀ p ∈ names, p ∈ weekdayWords) →
      names.Pairwise (fun p q => IsApart p.1 q.1) → ∀ t,
      (names.foldl (fun t p => replace p.1 (twoDigits p.2) t) t = u ↔ Numbered names t u) := by
    intro names hsub hapart
    -- the names are replaced one after another, and each time one fewer is left
    induction hapart with
    | nil =>
      exact fun t => ⟨fun h => Numbered.nil_iff.mpr ⟨h, hu⟩, fun h => (Numbered.nil_iff.mp h).1⟩
    | @cons p names hp _ ih =>
      intro t
      rw [List.foldl_cons, ih fun q hq => hsub q (by simp [hq])]
      exact ⟨fun h => h.of_replace hsub, fun h => h.replace hsub hp⟩
  exact key weekdayWords (fun _ => id) pairwise_isApart _

/-- Names are replaced on both sides of a character that no name has. -/
theorem numberWeekdays_append_cons {c : Char} (hlower : c.toLower = c)
    (hc : ∀ w ∈ weekdayWords, c ∉ w.1) (a b : List Char) :
    numberWeekdays (a ++ c :: b) = numberWeekdays a ++ c :: numberWeekdays b := by
  have key : ∀ ws : List (List Char × Nat), (∀ w ∈ ws, w.1 ≠ [] ∧ c ∉ w.1) → ∀ a b,
      ws.foldl (fun t w => replace w.1 (twoDigits w.2) t) (a ++ c :: b) =
        ws.foldl (fun t w => replace w.1 (twoDigits w.2) t) a ++
          c :: ws.foldl (fun t w => replace w.1 (twoDigits w.2) t) b := by
    intro ws
    -- name by name, because no name reaches across the character
    induction ws with
    | nil => intro _ a b; rfl
    | cons w ws ih =>
      intro hws a b
      obtain ⟨hne, hmem⟩ := hws w (by simp)
      simp only [List.foldl_cons]
      rw [replace_append_cons hne hmem]
      exact ih (fun v hv => hws v (by simp [hv])) _ _
  have hne : ∀ w ∈ weekdayWords, w.1 ≠ [] := by decide
  rw [numberWeekdays, List.map_append, List.map_cons, hlower]
  exact key weekdayWords (fun w hw => ⟨hne w hw, hc w hw⟩) _ _

/-- What stands among the numbers has been put there as a digit or has been there before. -/
theorem mem_numberWeekdays {t : List Char} {c : Char} (h : c ∈ numberWeekdays t) :
    c.isDigit = true ∨ c ∈ t.map Char.toLower := by
  have key : ∀ names : List (List Char × Nat), ∀ t,
      c ∈ names.foldl (fun t p => replace p.1 (twoDigits p.2) t) t → c.isDigit = true ∨ c ∈ t := by
    intro names
    induction names with
    | nil => exact fun t h => .inr h
    | cons p names ih =>
      intro t h
      obtain hdigit | h := ih _ h
      · exact .inl hdigit
      · exact (mem_replace h).imp_left isDigit_of_mem_twoDigits
  exact key weekdayWords _ h

/-! ## What is left -/

namespace Numbered

variable {names : List (List Char × Nat)} {t u : List Char}

/-- Where nothing comes out, there was nothing. -/
theorem eq_nil_of_nil (h : Numbered names t []) : t = [] := by
  generalize hs : [] = s at h
  cases h with
  | nil => rfl
  | keep => cases hs
  | @name _ n => exact absurd (List.append_eq_nil_iff.mp hs.symm).1 (twoDigits_ne_nil n)

/-- A character that is no digit stands in the text where it stands among the numbers. -/
theorem exists_of_append_cons {a b : List Char} {c : Char} (h : Numbered names t (a ++ c :: b))
    (hc : c.isDigit = false) :
    ∃ x y, t = x ++ c :: y ∧ Numbered names x a ∧ Numbered names y b := by
  generalize hs : a ++ c :: b = s at h
  induction h generalizing a with
  | nil => simp at hs
  | @keep d t u hd h ih =>
    cases a with
    | nil =>
      obtain ⟨rfl, rfl⟩ := List.cons.inj hs
      exact ⟨[], t, rfl, .nil, h⟩
    | cons d' a =>
      obtain ⟨rfl, hs'⟩ := List.cons.inj hs
      obtain ⟨x, y, rfl, hx, hy⟩ := ih hs'
      exact ⟨d' :: x, y, rfl, .keep hd hx, hy⟩
  | @name v n t u hv h ih =>
    -- the two digits of a day are in front of the character
    obtain ⟨a', rfl, hs'⟩ | ⟨r, htwo, hs'⟩ := List.append_eq_append_iff.mp hs.symm
    · obtain ⟨x, y, rfl, hx, hy⟩ := ih hs'.symm
      exact ⟨v ++ x, y, by simp, .name hv hx, hy⟩
    · cases r with
      | nil =>
        obtain ⟨x, y, rfl, hx, hy⟩ := ih (a := []) (by simpa using hs')
        rw [List.append_nil] at htwo
        subst htwo
        exact ⟨v ++ x, y, by simp, by simpa using Numbered.name hv hx, hy⟩
      | cons d r =>
        obtain rfl := (List.cons.inj hs').1
        have hd : c ∈ twoDigits n := by simp [htwo]
        rw [isDigit_of_mem_twoDigits hd] at hc
        exact Bool.noConfusion hc

/-- **A number of one digit** is read from digits, or from one name with zeros in front. -/
theorem of_isDecimal (h : Numbered weekdayWords t u) {n : Nat} (hu : IsDecimal u n) (hn : n < 10) :
    t = u ∨ ∃ k v, t = List.replicate k '0' ++ v ∧ (v, n) ∈ weekdayWords := by
  induction h with
  | nil => exact .inl rfl
  | @keep c t u _ h ih =>
    by_cases hnil : u = []
    · subst hnil
      exact .inl (by rw [h.eq_nil_of_nil])
    · obtain ⟨rfl, hrest⟩ := hu.of_cons hn hnil
      obtain rfl | ⟨k, v, rfl, hv⟩ := ih hrest
      · exact .inl rfl
      · exact .inr ⟨k + 1, v, by simp [List.replicate_succ], hv⟩
  | @name v m t u hv h ih =>
    -- a day is no zero, so nothing can come behind its digit
    have hday : ∀ m, 1 ≤ m ∧ m ≤ 7 → ∃ d, d ≠ '0' ∧ twoDigits m = ['0', d] := by
      rintro m ⟨hlo, hhi⟩
      have hall : ∀ m ∈ [1, 2, 3, 4, 5, 6, 7], twoDigits m = ['0', Nat.digitChar m] ∧
          Nat.digitChar m ≠ '0' := by decide
      obtain ⟨htwo, hne⟩ := hall m (by simp; omega)
      exact ⟨_, hne, htwo⟩
    obtain ⟨d, hd, htwo⟩ := hday m (of_mem_weekdayWords hv).2.1
    have hnil : u = [] := by
      by_contra hne
      rw [htwo] at hu
      obtain ⟨-, hrest⟩ := hu.of_cons hn (by simp)
      exact hd (hrest.of_cons hn hne).1
    subst hnil
    obtain rfl := h.eq_nil_of_nil
    rw [List.append_nil] at hu
    obtain rfl : m = n := (isDecimal_twoDigits m).worth.symm.trans hu.worth
    exact .inr ⟨0, v, by simp, hv⟩

end Numbered

end Expression

end Timetable
