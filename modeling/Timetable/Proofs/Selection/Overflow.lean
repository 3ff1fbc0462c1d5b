import Timetable.Proofs.Selection.Refusal
import Timetable.Proofs.Selection.Runs

/-!
Where the arithmetic of selections fails.

Whatever calls are made on a selection, to change it or to look at it, no sum leaves
the words, no difference is below zero and no index is without a flag, as long as the
numbers of the domain can be counted in a word. That leaves one domain of words, the
one that holds all of them. There the first number that a call would insert stops the
program, and as nothing has been inserted before, every other call is safe.
-/

set_option autoImplicit false

namespace Timetable

open Text (wordLimit)

namespace Selection

variable {d : Domain} {s s' : Selection d}

/-! ## Histories of calls -/

/-- A call on a selection, to change it or to look at it. -/
inductive Use where
  | change (call : Call)
  | contains (value : Nat)
  | admits (value : Nat)
  | members
  | runs
  | hasPair
  | hasTriple
  | text
  deriving DecidableEq, Repr

/-- What a call gives. -/
inductive Answer where
  | done (result : Except SelectionError Unit)
  | truth (holds : Bool)
  | numbers (members : List Nat)
  | runs (runs : List Run)
  | text (text : String)

/-- The selection after a call, and what the call gives. -/
def answer (s : Selection d) : Use → Selection d × Answer
  | .change c => ((s.perform c).1, .done (s.perform c).2)
  | .contains n => (s, .truth (s.contains n))
  | .admits n => (s, .truth (s.admits n))
  | .members => (s, .numbers s.members)
  | .runs => (s, .runs s.runs)
  | .hasPair => (s, .truth s.hasPair)
  | .hasTriple => (s, .truth s.hasTriple)
  | .text => (s, .text s.text)

/-- A call, in words. A number is looked up only if it is not below the domain, and only among the
flags that there are. -/
def answer? (s : Selection d) : Use → Option (Selection d × Answer)
  | .change c => (s.perform? c).map fun o => (o.1, .done o.2)
  | .contains n => some (s, .truth (s.contains n))
  | .admits n => some (s, .truth (s.admits n))
  | .members => s.members?.map fun members => (s, .numbers members)
  | .runs => s.runs?.map fun runs => (s, .runs runs)
  | .hasPair => (s.hasRun? 2).map fun holds => (s, .truth holds)
  | .hasTriple => (s.hasRun? 3).map fun holds => (s, .truth holds)
  | .text => s.text?.map fun text => (s, .text text)

/-- The selection after a history of calls, and what they give. -/
def answers (s : Selection d) : List Use → Selection d × List Answer
  | [] => (s, [])
  | u :: us =>
    let (s', a) := s.answer u
    let (s'', as) := s'.answers us
    (s'', a :: as)

/-- A history of calls, in words. -/
def answers? (s : Selection d) : List Use → Option (Selection d × List Answer)
  | [] => some (s, [])
  | u :: us =>
    (s.answer? u).bind fun (s', a) => (s'.answers? us).map fun (s'', as) => (s'', a :: as)

/-! ## Too wide a domain -/

/-- Numbers that are words are too many to be counted in a word only if they are all words. -/
theorem eq_all_words_iff (hhi : d.hi < wordLimit) :
    wordLimit ≤ d.width ↔ d = ⟨0, wordLimit - 1⟩ := by
  obtain ⟨lo, hi⟩ := d
  rw [Domain.width, Domain.mk.injEq]
  simp only [wordLimit] at hhi ⊢
  omega

/-- In a domain of all words a row of items stops at the first number that it would insert. -/
theorem insertAll_eq_tooWide_iff (hd : wordLimit ≤ d.width) (s : Selection d)
    (items : List Item) : (s.insertAll items).2 = .error .tooWide ↔
      (items.takeWhile (Item.IsTaken d ·)).flatMap Item.numbers ≠ [] := by
  induction items with
  | nil => simp [insertAll]
  | cons i items ih =>
    by_cases hi : i.IsTaken d
    · rw [List.takeWhile_cons_of_pos (by simpa using hi), List.flatMap_cons, insertAll,
        insertItem_eq_of_isTaken hi]
      -- A range with its ends in the wrong order is taken and has no numbers.
      cases hnumbers : i.numbers with
      | nil => exact ih
      | cons n ns =>
        have hn : d.holds n = true := hi.holds (by simp [hnumbers])
        rw [List.foldlM_cons, insert_eq_tooWide hn hd]
        exact iff_of_true rfl (by simp)
    -- What the domain refuses is refused before anything is counted.
    · rw [List.takeWhile_cons_of_neg (by simpa using hi), insertAll, insertItem_eq_error hi]
      simp

theorem Outcome.unlessTooWide_eq_none_iff {o : Outcome d} :
    Outcome.unlessTooWide o = none ↔ o.2 = .error .tooWide := by
  by_cases h : o.2 = .error .tooWide
  · obtain ⟨s, r⟩ := o
    obtain rfl : r = .error .tooWide := h
    exact iff_of_true rfl rfl
  · rw [unlessTooWide_eq_some h]
    exact iff_of_false nofun h

/-- **A call stops** in words if and only if the domain cannot be counted and there is a number to
insert. -/
theorem Reached.perform?_eq_none_iff (hs : s.Reached) (c : Call) :
    s.perform? c = none ↔ wordLimit ≤ d.width ∧ c.numbers d ≠ [] := by
  rw [hs.perform?_eq, Outcome.unlessTooWide_eq_none_iff]
  by_cases hd : wordLimit ≤ d.width
  · rw [perform_eq_tooWide_iff, insertAll_eq_tooWide_iff hd]
    simp [hd, Call.numbers]
  · exact iff_of_false (hs.perform_ne_tooWide (Nat.lt_of_not_le hd) c) fun h => hd h.1

/-! ## One call -/

/-- No call leads out of the selections that operations make. -/
theorem Reached.answer (hs : s.Reached) (u : Use) : (s.answer u).1.Reached := by
  cases u with
  | change c =>
    rw [Selection.answer, perform_fst]
    exact hs.after c
  | _ => exact hs

theorem Reached.answer?_eq_none (hs : s.Reached) {u : Use}
    (h : (s.answer u).2 = .done (.error .tooWide)) : s.answer? u = none := by
  cases u with
  | change c =>
    rw [answer?, hs.perform?_eq, Outcome.unlessTooWide_eq_none_iff.mpr (Answer.done.inj h)]
    rfl
  | _ => cases h

section Words

variable (hhi : d.hi < wordLimit)

include hhi

/-- **A call in words** gives what the call gives, unless the domain is too wide. -/
theorem Reached.answer?_eq_some (hs : s.Reached) {u : Use}
    (h : (s.answer u).2 ≠ .done (.error .tooWide)) : s.answer? u = some (s.answer u) := by
  cases u with
  | change c =>
    have hproper : (s.perform c).2 ≠ .error .tooWide := fun htoo => h (congrArg Answer.done htoo)
    rw [answer?, hs.perform?_eq, Outcome.unlessTooWide_eq_some hproper]
    rfl
  | contains n => rfl
  | admits n => rfl
  | members => rw [answer?, hs.members?_eq hhi]; rfl
  | runs => rw [answer?, hs.runs?_eq hhi]; rfl
  | hasPair => rw [answer?, hs.hasRun?_eq hhi]; rfl
  | hasTriple => rw [answer?, hs.hasRun?_eq hhi]; rfl
  | text => rw [answer?, hs.text?_eq hhi]; rfl

/-- A call that looks at a selection never stops, and one that changes it stops only at the width of
the domain. -/
theorem Reached.answer?_eq_none_iff (hs : s.Reached) {u : Use} : s.answer? u = none ↔
    wordLimit ≤ d.width ∧ ∃ c, u = .change c ∧ c.numbers d ≠ [] := by
  have hstops : s.answer? u = none ↔ (s.answer u).2 = .done (.error .tooWide) := by
    refine ⟨fun h => ?_, hs.answer?_eq_none⟩
    by_contra hproper
    rw [hs.answer?_eq_some hhi hproper] at h
    cases h
  cases u with
  | change c => simp [answer?, hs.perform?_eq_none_iff]
  | _ => exact hstops.trans (iff_of_false nofun fun ⟨_, _, h, _⟩ => nomatch h)

/-! ## A history of calls -/

/-- **A history stops** if and only if the domain cannot be counted and there is a number to
insert. -/
theorem Reached.answers?_eq_none_iff (hs : s.Reached) {us : List Use} : s.answers? us = none ↔
    wordLimit ≤ d.width ∧ ∃ c, .change c ∈ us ∧ c.numbers d ≠ [] := by
  induction us generalizing s with
  | nil => simp [answers?]
  | cons u us ih =>
    by_cases hu : (s.answer u).2 = .done (.error .tooWide)
    · have hnone := hs.answer?_eq_none hu
      obtain ⟨hd, c, rfl, hc⟩ := (hs.answer?_eq_none_iff hhi).mp hnone
      rw [answers?, hnone]
      exact iff_of_true rfl ⟨hd, c, by simp, hc⟩
    · have hsome := hs.answer?_eq_some hhi hu
      -- A call that does not stop is not the one looked for, so that is among the later ones.
      have hsafe : ∀ c, wordLimit ≤ d.width → c.numbers d ≠ [] → u ≠ .change c := by
        intro c hd hc huc
        rw [(hs.answer?_eq_none_iff hhi).mpr ⟨hd, c, huc, hc⟩] at hsome
        cases hsome
      rw [answers?, hsome, Option.bind_some, Option.map_eq_none_iff, ih (hs.answer u)]
      refine and_congr_right fun hd => exists_congr fun c => and_congr_left fun hc => ?_
      rw [List.mem_cons]
      exact ⟨.inr, fun h => h.resolve_left (hsafe c hd hc).symm⟩

/-- **A history that does not stop** gives what it gives without words, and what it reports is about
the numbers and texts that it was given. -/
theorem Reached.of_answers?_eq_some (hs : s.Reached) {us : List Use}
    {r : Selection d × List Answer} (h : s.answers? us = some r) :
    s.answers us = r ∧ .done (.error .tooWide) ∉ r.2 := by
  induction us generalizing s r with
  | nil =>
    obtain rfl := Option.some.inj h
    exact ⟨rfl, List.not_mem_nil⟩
  | cons u us ih =>
    by_cases hu : (s.answer u).2 = .done (.error .tooWide)
    -- A history that gives something has no call that stops.
    · rw [answers?, hs.answer?_eq_none hu] at h
      cases h
    · rw [answers?, hs.answer?_eq_some hhi hu, Option.bind_some, Option.map_eq_some_iff] at h
      obtain ⟨r', hr', rfl⟩ := h
      obtain ⟨rfl, hproper⟩ := ih (hs.answer u) hr'
      refine ⟨rfl, ?_⟩
      rw [List.mem_cons, not_or]
      exact ⟨fun htoo => hu htoo.symm, hproper⟩

/-- **The arithmetic of a selection fails in one domain only**, which is the one of all words, and
there a history of calls on an empty selection stops if and only if one of them has a number to
insert. A history that does not stop gives what it gives without words, and an insertion that is
refused in it is refused because of a number out of range or a token that is none. -/
theorem overflows_iff (us : List Use) :
    ((any : Selection d).answers? us = none ↔
      d = ⟨0, wordLimit - 1⟩ ∧ ∃ c, .change c ∈ us ∧ c.numbers d ≠ []) ∧
    ∀ r, (any : Selection d).answers? us = some r → (any : Selection d).answers us = r ∧
      ∀ e, .done (.error e) ∈ r.2 →
        (∃ n d', e = .outOfRange n d') ∨ ∃ token cause, e = .invalidToken token cause := by
  constructor
  · rw [Reached.any.answers?_eq_none_iff hhi, eq_all_words_iff hhi]
  · intro r hr
    obtain ⟨hanswers, hproper⟩ := Reached.any.of_answers?_eq_some hhi hr
    refine ⟨hanswers, fun e he => ?_⟩
    cases e with
    | outOfRange n d' => exact .inl ⟨n, d', rfl⟩
    | invalidToken token cause => exact .inr ⟨token, cause, rfl⟩
    | tooWide => exact absurd he hproper

end Words

/-- The widest domain that can be counted, and the one of all words, which takes calls as long as
there is no number to insert. -/
theorem overflows_iff_widest :
    let widest : Domain := ⟨1, wordLimit - 1⟩
    let words : Domain := ⟨0, wordLimit - 1⟩
    widest.hi < wordLimit ∧ words.hi < wordLimit ∧
      (any : Selection widest).answers? [.change (.insertRange 1 4294967295), .runs, .text] ≠ none ∧
      (any : Selection words).answers? [.change (.insertRange 3 2), .contains 7, .text] ≠ none ∧
      (any : Selection words).answers? [.text, .change (.insertRange 2 3)] = none := by
  intro widest words
  have hwidest : widest.hi < wordLimit := by decide
  have hwords : words.hi < wordLimit := by decide
  refine ⟨hwidest, hwords, fun h => ?_, fun h => ?_, ?_⟩
  · exact absurd ((overflows_iff hwidest _).1.mp h).1 (by decide)
  · obtain ⟨-, c, hc, hnumbers⟩ := (overflows_iff hwords _).1.mp h
    obtain rfl : c = .insertRange 3 2 := by simpa using hc
    exact hnumbers (by decide)
  · exact (overflows_iff hwords _).1.mpr ⟨rfl, .insertRange 2 3, by simp, by decide⟩

/-- The first number inserted into a selection of all words is not counted. -/
theorem overflows_all_words :
    let words : Domain := ⟨0, wordLimit - 1⟩
    (any : Selection words).answers? [.change (.insert 0)] = none ∧
      (any : Selection words).insert 0 = .error .tooWide := by
  decide

end Selection

end Timetable
