import Timetable.Cron.Line
import Timetable.Proofs.Cron.Removal
import Timetable.Proofs.Text.Place

/-!
The readings of a file name in a command line.

A file name may stand in quotes, but need not, and a blank comes behind it. Where
there are several blanks in front of the first quote, each of them may be the one
that ends the file name. All these readings are found, the longest one first.
-/

set_option autoImplicit false

namespace Timetable.Cron

open Text

variable {n q r s t : List Char}

/-- Up to its first quote a text has no other one. -/
theorem takeWhile_quote {a b : List Char} (ha : '"' ∉ a) :
    (a ++ b).takeWhile (· != '"') = a ++ b.takeWhile (· != '"') ∧
      (a ++ b).dropWhile (· != '"') = b.dropWhile (· != '"') := by
  have hall : ∀ c ∈ a, (c != '"') = true := fun c hc => bne_iff_ne.mpr fun h => ha (h ▸ hc)
  exact ⟨List.takeWhile_append_of_pos hall, List.dropWhile_append_of_pos hall⟩

/-- A quote in front of a file name is passed, and a file name without one is left as it is. -/
theorem getD_isPrefixOf?_quote (hq : q ∈ Entry.quoteLanguage) (hne : n ≠ []) (hn : '"' ∉ n) :
    (['"'].isPrefixOf? (q ++ (n ++ t))).getD (q ++ (n ++ t)) = n ++ t := by
  obtain rfl | rfl := hq
  · have hopen : ['"'].isPrefixOf? (['"'] ++ (n ++ t)) = some (n ++ t) :=
      List.isPrefixOf?_eq_some_iff_append_eq.mpr rfl
    rw [hopen, Option.getD_some]
  · have hopen : ['"'].isPrefixOf? ([] ++ (n ++ t)) = none := by
      rw [Option.eq_none_iff_forall_ne_some]
      intro r hr
      have heq := List.isPrefixOf?_eq_some_iff_append_eq.mp hr
      obtain ⟨c, n, rfl⟩ := List.exists_cons_of_ne_nil hne
      obtain ⟨rfl, -⟩ : '"' = c ∧ r = n ++ t := by simpa using heq
      simp at hn
    rw [hopen, Option.getD_none, List.nil_append]

/-- A text is what is left of it behind a quote, with the quote or without. -/
theorem exists_eq_append_getD (s : List Char) :
    ∃ q ∈ Entry.quoteLanguage, s = q ++ (['"'].isPrefixOf? s).getD s := by
  cases hopen : ['"'].isPrefixOf? s with
  | none => exact ⟨[], .inr rfl, rfl⟩
  | some t => exact ⟨['"'], .inl rfl, (List.isPrefixOf?_eq_some_iff_append_eq.mp hopen).symm⟩

/-- **The readings of a file name**: it is not empty, has no quotes but perhaps one on either side,
and a blank comes behind it. -/
theorem mem_configCuts : (n, r) ∈ configCuts s ↔ n ≠ [] ∧ '"' ∉ n ∧
    ∃ q ∈ Entry.quoteLanguage, ∃ q' ∈ Entry.quoteLanguage, s = q ++ (n ++ (q' ++ ' ' :: r)) := by
  constructor
  · intro h
    obtain ⟨q, hq, hs⟩ := exists_eq_append_getD s
    simp only [configCuts] at h
    generalize (['"'].isPrefixOf? s).getD s = u at h hs
    have hparts : u.takeWhile (· != '"') ++ u.dropWhile (· != '"') = u :=
      List.takeWhile_append_dropWhile
    have hall := List.all_eq_true.mp (List.all_takeWhile (p := (· != '"')) (l := u))
    have hname : '"' ∉ u.takeWhile (· != '"') := fun hmem => absurd (hall _ hmem) (by decide)
    obtain ⟨hmem, hne⟩ := List.mem_filter.mp h
    refine ⟨by simpa using hne, ?_⟩
    obtain hclosed | hopen := List.mem_append.mp hmem
    · split at hclosed
      · next tail htail =>
        obtain ⟨rfl, rfl⟩ := Prod.mk.inj (List.mem_singleton.mp hclosed)
        have hrest := List.isPrefixOf?_eq_some_iff_append_eq.mp htail
        refine ⟨hname, q, hq, ['"'], .inl rfl, ?_⟩
        rw [hs]
        exact congrArg (q ++ ·) (hparts.symm.trans (by rw [← hrest]; rfl))
      · cases hclosed
    · obtain ⟨⟨n', tail⟩, hcut, heq⟩ := List.mem_map.mp hopen
      obtain ⟨rfl, rfl⟩ := Prod.mk.inj heq
      have hshape := (mem_cuts (by simp)).mp hcut
      refine ⟨fun hq => hname (hshape ▸ List.mem_append_left _ hq), q, hq, [], .inr rfl, ?_⟩
      rw [hs]
      exact congrArg (q ++ ·) (hparts.symm.trans (by rw [hshape]; simp))
  · rintro ⟨hne, hn, q, hq, q', hq', rfl⟩
    have hunquoted := getD_isPrefixOf?_quote (t := q' ++ ' ' :: r) hq hne hn
    have hkeep : (!n.isEmpty) = true := by simpa using hne
    obtain ⟨htake, hdrop⟩ := takeWhile_quote (b := q' ++ ' ' :: r) hn
    simp only [configCuts, hunquoted, htake, hdrop]
    refine List.mem_filter.mpr ⟨?_, hkeep⟩
    obtain rfl | rfl := hq'
    -- a quote behind the name closes it, and without one the name is cut at the blank
    · have hclose : ['"', ' '].isPrefixOf? ((['"'] ++ ' ' :: r).dropWhile (· != '"')) =
          some r := rfl
      have hname : n ++ (['"'] ++ ' ' :: r).takeWhile (· != '"') = n := List.append_nil n
      rw [hclose, hname]
      exact List.mem_append_left _ (List.mem_singleton.mpr rfl)
    · have hblank : ([] ++ ' ' :: r).takeWhile (· != '"') = [' '] ++ r.takeWhile (· != '"') := rfl
      have hrest : ([] ++ ' ' :: r).dropWhile (· != '"') = r.dropWhile (· != '"') := rfl
      rw [hblank, hrest]
      refine List.mem_append_right _ (List.mem_map.mpr ⟨(n, r.takeWhile (· != '"')), ?_, ?_⟩)
      · exact (mem_cuts (by simp)).mpr rfl
      · rw [List.takeWhile_append_dropWhile]

/-- Longer file names come first. -/
theorem pairwise_configCuts (s : List Char) :
    (configCuts s).Pairwise fun p p' => p'.1.length < p.1.length := by
  simp only [configCuts]
  generalize (['"'].isPrefixOf? s).getD s = u
  refine List.Pairwise.filter _ (List.pairwise_append.mpr ⟨?_, ?_, ?_⟩)
  · split <;> simp
  · exact (pairwise_cuts [' '] _).map _ fun p p' h => h
  · intro p hp p' hp'
    obtain ⟨⟨n, tail⟩, hcut, rfl⟩ := List.mem_map.mp hp'
    split at hp
    · obtain rfl := List.mem_singleton.mp hp
      have hlength := congrArg List.length ((mem_cuts (by simp)).mp hcut)
      simp only [List.length_append, List.length_singleton] at hlength ⊢
      omega
    · cases hp

theorem suffix_of_mem_configCuts (h : (n, r) ∈ configCuts s) : r <:+ s := by
  obtain ⟨-, -, q, -, q', -, rfl⟩ := mem_configCuts.mp h
  exact ⟨q ++ (n ++ (q' ++ [' '])), by simp⟩

/-- Of two file names that are not empty and have no quotes, the longer one is the other one if only
a blank is left behind that. -/
theorem file_eq_of_quoted_eq {p p' q q' n file b : List Char} (hp : p ∈ Entry.quoteLanguage)
    (hq : q ∈ Entry.quoteLanguage) (hq' : q' ∈ Entry.quoteLanguage) (hn : n ≠ []) (hn' : '"' ∉ n)
    (hfile : file ≠ []) (hfile' : '"' ∉ file) (hle : file.length ≤ n.length)
    (h : p ++ (n ++ (p' ++ ' ' :: b)) = q ++ (file ++ (q' ++ [' ']))) : n = file := by
  have hplain : n ++ (p' ++ ' ' :: b) = file ++ (q' ++ [' ']) := by
    rw [← getD_isPrefixOf?_quote hp hn hn', h, getD_isPrefixOf?_quote hq hfile hfile']
  obtain ⟨k, rfl, -⟩ | ⟨k, rfl, hk⟩ := List.append_eq_append_iff.mp hplain
  · have hnil : k = [] := by
      rw [List.length_append] at hle
      exact List.length_eq_zero_iff.mp (by omega)
    rw [hnil, List.append_nil]
  · cases k with
    | nil => exact List.append_nil file
    | cons c k =>
      obtain rfl | rfl := hq'
      · obtain rfl : '"' = c := (List.cons.inj hk).1
        simp at hn'
      · simp at hk

/-- What comes behind a file name and the blank does not depend on how the quotes are taken. -/
theorem rest_eq_of_quoted_eq {p p' q q' file r t : List Char} (hp : p ∈ Entry.quoteLanguage)
    (hp' : p' ∈ Entry.quoteLanguage) (hq : q ∈ Entry.quoteLanguage) (hq' : q' ∈ Entry.quoteLanguage)
    (hfile : file ≠ []) (hfile' : '"' ∉ file)
    (h : p ++ (file ++ (p' ++ ' ' :: r)) = q ++ (file ++ (q' ++ ' ' :: t))) : r = t := by
  have hplain : file ++ (p' ++ ' ' :: r) = file ++ (q' ++ ' ' :: t) := by
    rw [← getD_isPrefixOf?_quote hp hfile hfile', h, getD_isPrefixOf?_quote hq hfile hfile']
  have hback := List.append_cancel_left hplain
  obtain rfl | rfl := hp' <;> obtain rfl | rfl := hq'
  · simpa using hback
  · simp at hback
  · simp at hback
  · simpa using hback

end Timetable.Cron
