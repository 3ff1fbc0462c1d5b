import Timetable.Proofs.Text.Spacing
import Timetable.Text.Pattern

/-!
Forms of a text with captures.

A form says which texts fit it and which of their parts are captured. In which ways
a text fits is a relation that follows the form. A search walks through the text
instead, in an order of preference, and goes back where it cannot go on. Whatever
it prefers, it finds captures of the text if there are any; so all searches find
the same where a text fits in one way only.

Forms that stand behind each other with blanks between fit a text if and only if
the words of the text fit them one by one.
-/

set_option autoImplicit false

namespace Timetable.Text

/-! ## Forms -/

/-- The parts of a text that are captured, in the order in which they begin; there is none for a
part that is left out. -/
abbrev Captures := List (Option (List Char))

/-- The form of a text, and which of its parts are captured. -/
inductive Form where
  /-- A given word. -/
  | word (w : List Char)
  /-- One or more characters of a class. -/
  | many (p : Char → Bool)
  /-- A form whose text is captured. -/
  | captured (f : Form)
  /-- A form with another one behind it. -/
  | seq (f g : Form)
  /-- A form that may be left out. -/
  | optional (f : Form)

namespace Form

/-- How many parts a form captures. -/
def groups : Form → Nat
  | word _ | many _ => 0
  | captured f => f.groups + 1
  | seq f g => f.groups + g.groups
  | optional f => f.groups

/-- A way in which a whole text fits a form. -/
def Fits : Form → List Char → Captures → Prop
  | word v, w, cs => w = v ∧ cs = []
  | many p, w, cs => IsMadeOf p w ∧ cs = []
  | captured f, w, cs => ∃ ds, f.Fits w ds ∧ cs = some w :: ds
  | seq f g, w, cs =>
    ∃ u v ds es, f.Fits u ds ∧ g.Fits v es ∧ w = u ++ v ∧ cs = ds ++ es
  | optional f, w, cs => f.Fits w cs ∨ w = [] ∧ cs = List.replicate f.groups none

section Fits

variable {f g : Form} {u v : List Char} {ds es : Captures}

/-- A word is no more than itself, and captures nothing. -/
theorem fits_word (w : List Char) : (word w).Fits w [] :=
  ⟨rfl, rfl⟩

/-- The form of a number or a name: some characters of a class, captured as one part. -/
theorem fits_captured_many {p : Char → Bool} :
    (captured (many p)).Fits u ds ↔ IsMadeOf p u ∧ ds = [some u] := by
  constructor
  · rintro ⟨_, ⟨hu, rfl⟩, rfl⟩
    exact ⟨hu, rfl⟩
  · rintro ⟨hu, rfl⟩
    exact ⟨[], ⟨hu, rfl⟩, rfl⟩

/-- Ways to fit two forms are put together to one that fits the sequence. -/
theorem Fits.seq (hu : f.Fits u ds) (hv : g.Fits v es) : (seq f g).Fits (u ++ v) (ds ++ es) :=
  ⟨u, v, ds, es, hu, hv, rfl, rfl⟩

/-- An optional form that is not left out captures what the form itself does. -/
theorem Fits.optional (hu : f.Fits u ds) : (optional f).Fits u ds :=
  .inl hu

/-- An optional form that is left out has no captures, but its groups are counted. -/
theorem fits_optional_nil (f : Form) : (optional f).Fits [] (List.replicate f.groups none) :=
  .inr ⟨rfl, rfl⟩

end Fits

/-- The ways in which a beginning of a text fits a form, each with what remains behind it, the
preferred one first. -/
def run : Form → List Char → List (Captures × List Char)
  | word v, s => (Pattern.word v s).map ([], ·)
  | many p, s => (Pattern.many p s).map ([], ·)
  | captured f, s => (f.run s).map fun (cs, r) => (some (s.take (s.length - r.length)) :: cs, r)
  | seq f g, s => (f.run s).flatMap fun (cs, r) => (g.run r).map fun (ds, r') => (cs ++ ds, r')
  | optional f, s => f.run s ++ [(List.replicate f.groups none, s)]

/-- **A form is run in all ways in which a beginning fits it.** -/
theorem mem_run {f : Form} {s r : List Char} {cs : Captures} :
    (cs, r) ∈ f.run s ↔ ∃ w, f.Fits w cs ∧ s = w ++ r := by
  -- each form is run on what remains behind the one before, so the rest is general
  induction f generalizing s r cs with
  | word v =>
    simp only [run, Fits, List.mem_map, Prod.mk.injEq, exists_eq_right_right, Pattern.mem_word]
    constructor
    · rintro ⟨hs, rfl⟩
      exact ⟨v, ⟨rfl, rfl⟩, hs⟩
    · rintro ⟨_, ⟨rfl, rfl⟩, hs⟩
      exact ⟨hs, rfl⟩
  | many p =>
    simp only [run, Fits, List.mem_map, Prod.mk.injEq, exists_eq_right_right, Pattern.mem_many]
    constructor
    · rintro ⟨⟨w, hne, hall, hs⟩, rfl⟩
      exact ⟨w, ⟨⟨hne, hall⟩, rfl⟩, hs⟩
    · rintro ⟨w, ⟨hw, rfl⟩, hs⟩
      exact ⟨⟨w, hw.ne_nil, hw.all, hs⟩, rfl⟩
  | captured f ih =>
    simp only [run, Fits, List.mem_map, Prod.mk.injEq, Prod.exists, ih]
    constructor
    · rintro ⟨ds, r', ⟨w, hw, rfl⟩, rfl, rfl⟩
      exact ⟨w, ⟨ds, hw, by simp⟩, rfl⟩
    · rintro ⟨w, ⟨ds, hw, rfl⟩, rfl⟩
      exact ⟨ds, r, ⟨w, hw, rfl⟩, by simp, rfl⟩
  | seq f g ihf ihg =>
    simp only [run, Fits, List.mem_flatMap, List.mem_map, Prod.mk.injEq, Prod.exists, ihf, ihg]
    constructor
    · rintro ⟨ds, t, ⟨u, hu, rfl⟩, es, r', ⟨v, hv, rfl⟩, rfl, rfl⟩
      exact ⟨u ++ v, ⟨u, v, ds, es, hu, hv, rfl, rfl⟩, by simp⟩
    · rintro ⟨-, ⟨u, v, ds, es, hu, hv, rfl, rfl⟩, rfl⟩
      exact ⟨ds, v ++ r, ⟨u, hu, by simp⟩, es, r, ⟨v, hv, rfl⟩, rfl, rfl⟩
  | optional f ih =>
    simp only [run, Fits, List.mem_append, List.mem_singleton, Prod.mk.injEq, ih]
    constructor
    · rintro (⟨w, hw, hs⟩ | ⟨rfl, rfl⟩)
      · exact ⟨w, .inl hw, hs⟩
      · exact ⟨[], .inr ⟨rfl, rfl⟩, rfl⟩
    · rintro ⟨w, hw | ⟨rfl, rfl⟩, hs⟩
      · exact .inl ⟨w, hw, hs⟩
      · exact .inr ⟨rfl, hs.symm⟩

/-! ## Searches -/

/-- The captures of all ways in which a whole text fits a form, the preferred one first. -/
def captures (f : Form) (s : List Char) : List Captures :=
  (f.run s).filterMap fun (cs, r) => if r.isEmpty then some cs else none

/-- The captures of a search are those of the ways in which the whole text fits. -/
theorem mem_captures {f : Form} {s : List Char} {cs : Captures} :
    cs ∈ f.captures s ↔ f.Fits s cs := by
  simp only [captures, List.mem_filterMap, Prod.exists, mem_run]
  constructor
  · rintro ⟨ds, r, ⟨w, hw, rfl⟩, hr⟩
    split at hr
    · next hempty =>
      obtain rfl := List.isEmpty_iff.mp hempty
      obtain rfl := Option.some.inj hr
      simpa using hw
    · cases hr
  · exact fun h => ⟨cs, [], ⟨s, h, by simp⟩, rfl⟩

/-- A search for captures, whatever it prefers: what it finds are captures of the text, and it finds
some if the text has any. -/
structure IsSearch (find : Form → List Char → Option Captures) : Prop where
  sound : ∀ {f s cs}, find f s = some cs → f.Fits s cs
  complete : ∀ {f s cs}, f.Fits s cs → ∃ cs', find f s = some cs'

/-- A search may pick any of the ways in which a text fits. -/
theorem isSearch_of_pick {pick : List Captures → Option Captures}
    (hmem : ∀ l cs, pick l = some cs → cs ∈ l) (hsome : ∀ l, pick l = none → l = []) :
    IsSearch fun f s => pick (f.captures s) := by
  constructor
  · exact fun h => mem_captures.mp (hmem _ _ h)
  -- if nothing is picked, there is nothing to pick from
  · intro f s cs h
    refine Option.ne_none_iff_exists'.mp fun hnone => ?_
    have hin := mem_captures.mpr h
    rw [hsome _ hnone] at hin
    cases hin

/-- The search that prefers to take as much as it can, as early as it can. -/
def greedy (f : Form) (s : List Char) : Option Captures :=
  (f.captures s).head?

/-- The search with the opposite preference. -/
def reluctant (f : Form) (s : List Char) : Option Captures :=
  (f.captures s).getLast?

/-- Taking the first way is a search. -/
theorem isSearch_greedy : IsSearch greedy :=
  isSearch_of_pick (fun _ _ h => List.mem_of_head? h) fun _ h => List.head?_eq_none_iff.mp h

/-- Taking the last way is a search, too. So the order of preference is not part of what `IsSearch`
asks. -/
theorem isSearch_reluctant : IsSearch reluctant :=
  isSearch_of_pick (fun _ _ h => List.mem_of_getLast? h) fun _ h => List.getLast?_eq_none_iff.mp h

/-- **A search finds the captures of a text that fits in one way only.** -/
theorem IsSearch.eq_some {find : Form → List Char → Option Captures} (hfind : IsSearch find)
    {f : Form} {s : List Char} {cs : Captures} (h : f.Fits s cs)
    (hunique : ∀ ds, f.Fits s ds → ds = cs) : find f s = some cs := by
  obtain ⟨ds, hds⟩ := hfind.complete h
  rw [hds, hunique ds (hfind.sound hds)]

end Form

/-! ## Forms with blanks between them -/

namespace Form

/-- Forms with blanks between any two of them. -/
def spaced : List Form → Form
  | [] => .word []
  | [f] => f
  | f :: g :: fs => .seq f (.seq (.many isBlank) (spaced (g :: fs)))

/-- Words that fit forms one by one, with the captures of all of them. -/
def FitWords : List Form → List (List Char) → Captures → Prop
  | [], ws, cs => ws = [] ∧ cs = []
  | f :: fs, ws, cs =>
    ∃ w vs ds es, f.Fits w ds ∧ FitWords fs vs es ∧ ws = w :: vs ∧ cs = ds ++ es

/-- Two rows of forms behind each other fit two rows of words behind each other. -/
theorem fitWords_append_iff {fs gs : List Form} {ws : List (List Char)} {cs : Captures} :
    FitWords (fs ++ gs) ws cs ↔
      ∃ us vs ds es, FitWords fs us ds ∧ FitWords gs vs es ∧ ws = us ++ vs ∧ cs = ds ++ es := by
  induction fs generalizing ws cs with
  | nil =>
    constructor
    · exact fun h => ⟨[], ws, [], cs, ⟨rfl, rfl⟩, h, rfl, rfl⟩
    · rintro ⟨-, vs, -, es, ⟨rfl, rfl⟩, h, rfl, rfl⟩
      exact h
  | cons f fs ih =>
    simp only [List.cons_append, FitWords, ih]
    constructor
    · rintro ⟨w, _, ds, _, hw, ⟨us, vs, ds', es, hus, hvs, rfl, rfl⟩, rfl, rfl⟩
      exact ⟨w :: us, vs, ds ++ ds', es, ⟨w, us, ds, ds', hw, hus, rfl, rfl⟩, hvs, rfl, by simp⟩
    · rintro ⟨_, vs, _, es, ⟨w, us, ds, ds', hw, hus, rfl, rfl⟩, hvs, rfl, rfl⟩
      exact ⟨w, us ++ vs, ds, ds' ++ es, hw, ⟨us, vs, ds', es, hus, hvs, rfl, rfl⟩, rfl, by simp⟩

/-- There are as many words as forms. -/
theorem FitWords.length_eq {fs : List Form} {ws : List (List Char)} {cs : Captures}
    (h : FitWords fs ws cs) : ws.length = fs.length := by
  induction fs generalizing ws cs with
  | nil => simp [h.1]
  | cons f fs ih =>
    obtain ⟨w, vs, ds, es, -, hvs, rfl, -⟩ := h
    simp [ih hvs]

/-- **Forms with blanks between them** fit a text if and only if its words fit them one by one and
nothing is around the words. -/
theorem fits_spaced_iff {fs : List Form} (hne : fs ≠ [])
    (hword : ∀ f ∈ fs, ∀ w cs, f.Fits w cs → IsMadeOf (!isBlank ·) w) {t : List Char}
    {cs : Captures} : (spaced fs).Fits t cs ↔ ∃ ws, Joined t ws ∧ FitWords fs ws cs := by
  -- with a word of its own in front, a spaced row is a shorter one behind some blanks
  induction fs generalizing t cs with
  | nil => exact absurd rfl hne
  | cons f fs ih =>
    cases fs with
    | nil =>
      constructor
      · intro h
        exact ⟨[t], .one (hword f (by simp) t cs h), t, [], cs, [], h, ⟨rfl, rfl⟩, rfl, by simp⟩
      · rintro ⟨_, ht, w, _, ds, _, hw, ⟨rfl, rfl⟩, rfl, rfl⟩
        -- a single word has no blanks in it, so there are none to share out
        cases ht with
        | one =>
          rw [List.append_nil]
          exact hw
        | cons _ _ h => cases h
    | cons g fs =>
      have ih := @ih (by simp) fun f hf => hword f (by simp [hf])
      constructor
      · rintro ⟨w, _, ds, es, hw, ⟨b, u, _, _, ⟨hb, rfl⟩, hu, rfl, rfl⟩, rfl, rfl⟩
        obtain ⟨ws, hws, hfit⟩ := ih.mp hu
        exact ⟨w :: ws, .cons (hword f (by simp) w ds hw) hb hws, w, ws, ds, _, hw, hfit, rfl, rfl⟩
      · rintro ⟨_, ht, w, ws, ds, es, hw, hfit, rfl, rfl⟩
        -- the first word ends where the blanks begin, because no form fits a text with blanks
        cases ht with
        | one => simpa using hfit.length_eq
        | @cons _ b u _ _ hb hu =>
          exact ⟨w, b ++ u, ds, es, hw, ⟨b, u, [], es, ⟨hb, rfl⟩, ih.mpr ⟨ws, hu, hfit⟩, rfl, rfl⟩,
            rfl, rfl⟩

end Form

end Timetable.Text
