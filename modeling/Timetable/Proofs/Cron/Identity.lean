import Timetable.Proofs.Cron.Line
import Timetable.Proofs.Cron.Ownership

/-!
Identities in a line.

An identity can be told in a line if its profile and its command are words and its
file name has no quote and does not mention the flag. The reader of a line has a
choice among the places of the flag and among the file names behind it, and takes
the last place and the longest name with which it can go on. So if what comes
behind a file name is known to end the text and can be read, the reader finds just
this file name behind the last place of the flag.
-/

set_option autoImplicit false

namespace Timetable

open Text Cron

/-! ## Identities that can be told -/

/-- An identity whose parts can be told apart in a line: profile and command are words, the
command without an at sign, and the file name has no quote and does not mention the flag. -/
structure Identity.IsTellable (i : Identity) : Prop where
  profile : ∀ c ∈ i.profile.toList, isBlank c = false
  command : ∀ c ∈ i.command.toList, isBlank c = false ∧ c ≠ '@'
  unquoted : '"' ∉ i.configFile.toList
  noFlag : ¬ "--config".toList <:+: i.configFile.toList

instance (i : Identity) : Decidable i.IsTellable :=
  decidable_of_iff ((∀ c ∈ i.profile.toList, isBlank c = false) ∧
      (∀ c ∈ i.command.toList, isBlank c = false ∧ c ≠ '@') ∧ '"' ∉ i.configFile.toList ∧
      ¬ "--config".toList <:+: i.configFile.toList)
    ⟨fun h => ⟨h.1, h.2.1, h.2.2.1, h.2.2.2⟩, fun h => ⟨h.1, h.2, h.3, h.4⟩⟩

/-- The last word of a job's line. -/
def Identity.word (i : Identity) : List Char :=
  i.command.toList ++ '@' :: i.profile.toList

/-- The flag in front of the file name, with a blank. -/
def configFlag : List Char :=
  "--config ".toList

/-- The flag of the configuration file does not overlap itself. -/
theorem isUnbordered_configFlag : IsUnbordered configFlag := by
  decide

/-- An identity is known from its three texts. -/
theorem Identity.eq_of_toList_eq {i i' : Identity}
    (hfile : i.configFile.toList = i'.configFile.toList)
    (hprofile : i.profile.toList = i'.profile.toList)
    (hcommand : i.command.toList = i'.command.toList) : i = i' := by
  cases i
  cases i'
  simp_all [String.toList_inj]

/-- Quotes around a text do not make a mark that has none. -/
theorem infix_quoted_iff {mark file q q' : List Char} (hne : mark ≠ []) (hquote : '"' ∉ mark)
    (hq : q ∈ Entry.quoteLanguage) (hq' : q' ∈ Entry.quoteLanguage) :
    mark <:+: q ++ (file ++ q') ↔ mark <:+: file := by
  have hnil : ¬ mark <:+: [] := fun h => hne (List.infix_nil.mp h)
  have hback : mark <:+: file ++ q' ↔ mark <:+: file := by
    obtain rfl | rfl := hq'
    · rw [infix_append_cons_iff hquote]
      exact or_iff_left hnil
    · rw [List.append_nil]
  obtain rfl | rfl := hq
  · rw [← List.nil_append (['"'] ++ _), List.singleton_append, infix_append_cons_iff hquote, hback]
    exact or_iff_right hnil
  · rw [List.nil_append, hback]

namespace Identity.IsTellable

variable {i i' : Identity}

/-- A word that tells an identity has no space. -/
theorem space_notMem_word (hi : i.IsTellable) : ' ' ∉ i.word := by
  have hcommand : ' ' ∉ i.command.toList := fun h => absurd (hi.command _ h).1 (by decide)
  have hprofile : ' ' ∉ i.profile.toList := fun h => absurd (hi.profile _ h) (by decide)
  simp [word, hcommand, hprofile]

/-- There is no at sign in the command, so the first one ends it. -/
theorem at_notMem_command (hi : i.IsTellable) : '@' ∉ i.command.toList :=
  fun h => absurd rfl (hi.command _ h).2

/-- **The word tells the identity**: command and profile can be read off it. -/
theorem word_inj (hi : i.IsTellable) (hi' : i'.IsTellable) (h : i.word = i'.word) :
    i.command = i'.command ∧ i.profile = i'.profile := by
  obtain ⟨hcommand, hprofile⟩ := append_cons_inj_left hi.at_notMem_command hi'.at_notMem_command h
  exact ⟨String.toList_injective hcommand, String.toList_injective hprofile⟩

/-- Quotes around the file name can be taken away. -/
theorem filter_quoted (hi : i.IsTellable) {q q' : List Char} (hq : q ∈ Entry.quoteLanguage)
    (hq' : q' ∈ Entry.quoteLanguage) :
    (q ++ (i.configFile.toList ++ q')).filter (· != '"') = i.configFile.toList := by
  have hfile : i.configFile.toList.filter (· != '"') = i.configFile.toList :=
    List.filter_eq_self.mpr fun c hc =>
      bne_iff_ne.mpr fun heq => hi.unquoted (heq ▸ hc)
  have hnone {q : List Char} (hq : q ∈ Entry.quoteLanguage) : q.filter (· != '"') = [] := by
    obtain rfl | rfl := hq <;> rfl
  rw [List.filter_append, List.filter_append, hnone hq, hnone hq', hfile]
  simp

/-- The flag does not stand in the file name, quoted or not. -/
theorem not_infix_quoted (hi : i.IsTellable) {q q' : List Char} (hq : q ∈ Entry.quoteLanguage)
    (hq' : q' ∈ Entry.quoteLanguage) : ¬ configFlag <:+: q ++ (i.configFile.toList ++ q') := by
  rw [infix_quoted_iff (by decide) (by decide) hq hq']
  exact fun h => hi.noFlag (List.IsInfix.trans (by decide) h)

/-- An identity is known from the last word of its line and its file name there. -/
theorem eq_of_word_eq (hi : i.IsTellable) (hi' : i'.IsTellable) (hword : i.word = i'.word)
    {p p' q q' : List Char} (hp : p ∈ Entry.quoteLanguage) (hp' : p' ∈ Entry.quoteLanguage)
    (hq : q ∈ Entry.quoteLanguage) (hq' : q' ∈ Entry.quoteLanguage)
    (h : p ++ (i.configFile.toList ++ p') = q ++ (i'.configFile.toList ++ q')) : i = i' := by
  have hfile := congrArg (List.filter (· != '"')) h
  rw [hi.filter_quoted hp hp', hi'.filter_quoted hq hq'] at hfile
  obtain ⟨hcommand, hprofile⟩ := hi.word_inj hi' hword
  cases i
  cases i'
  simp_all [String.toList_inj]

end Identity.IsTellable

/-! ## The places of the flag -/

/-- The flag, as it is looked for in a line. -/
def flagMark : List Char :=
  "--config".toList

/-- The flag with the blank in front of it does not overlap itself, either. -/
theorem isUnbordered_flagMark : IsUnbordered flagMark := by
  decide

/-- The program that removal looks for. -/
def programMark : List Char :=
  "resticprofile".toList

/-- A command that carries an identity, told from the place of the flag: the program stands before
it with something between, a blank sets the file name off, and a form stands behind that. -/
theorem Entry.carries_iff {i : Identity} {w : List Char} :
    Entry.Carries i w ↔ ∃ pre form, programMark <:+: pre.dropLast ∧ Entry.IsForm i form ∧
      ∃ q ∈ Entry.quoteLanguage, ∃ q' ∈ Entry.quoteLanguage,
        w = pre ++ (flagMark ++ ' ' :: (q ++ (i.configFile.toList ++ (q' ++ ' ' :: form)))) := by
  have hflag : "--config ".toList = flagMark ++ [' '] := rfl
  have hprogram : "resticprofile".toList = programMark := rfl
  constructor
  · intro h
    cases h with
    | @mk front mid q q' form hmid hq hq' hform =>
      refine ⟨front ++ (programMark ++ mid), form, ?_, hform, q, hq, q', hq', ?_⟩
      · rw [← List.append_assoc, List.dropLast_append_of_ne_nil hmid]
        exact List.infix_append front programMark mid.dropLast
      · simp only [hflag, hprogram, List.append_assoc, List.singleton_append]
  · rintro ⟨pre, form, ⟨front, mid, hfront⟩, hform, q, hq, q', hq', rfl⟩
    have hne : pre ≠ [] := by
      rintro rfl
      have hmark := (List.append_eq_nil_iff.mp (List.append_eq_nil_iff.mp hfront).1).2
      exact absurd hmark (by decide)
    -- the last character in front of the flag parts it from the program
    have hpre : front ++ (programMark ++ (mid ++ [pre.getLast hne])) = pre := by
      rw [← List.append_assoc, ← List.append_assoc, hfront, List.dropLast_append_getLast]
    have hcarries := @Entry.Carries.mk i front (mid ++ [pre.getLast hne]) q q' form (by simp)
      hq hq' hform
    rw [← hpre]
    simpa only [hflag, hprogram, List.append_assoc, List.singleton_append, List.cons_append,
      List.nil_append] using hcarries

/-- How an identity is put together from what is read for it. -/
def identityOf (tail? : List Char → Option (List Char × List Char)) (p : List Char × List Char) :
    Option Identity :=
  (tail? p.2).map fun t => ⟨String.ofList p.1, String.ofList t.1, String.ofList t.2⟩

/-- The places of the flag are tried from the last one on, and there has to be something in front of
it. -/
theorem identity?_cons {tail? : List Char → Option (List Char × List Char)} {c : Char}
    (hc : isBlank c = false) (s : List Char) :
    identity? tail? (c :: s) = (cuts flagMark s).findSome? fun p =>
      if !p.1.isEmpty then
        (dropAssign? p.2).bind fun place => (configCuts place).findSome? (identityOf tail?)
      else none := by
  rw [identity?, configPlaces, if_neg (by simp [hc]), ← List.head?_filterMap,
    List.filterMap_filterMap, List.filterMap_filter, List.head?_filterMap]
  rfl

section Search

variable {tail? : List Char → Option (List Char × List Char)} {s : List Char} {i : Identity}

/-- What stands behind the flag is set off by a blank or by an equals sign. -/
theorem dropAssign?_eq_some {s r : List Char} :
    dropAssign? s = some r ↔ ∃ c, (c = ' ' ∨ c = '=') ∧ s = c :: r := by
  cases s with
  | nil => simp [dropAssign?]
  | cons d t =>
    simp only [dropAssign?, List.cons.injEq]
    constructor
    · intro h
      split at h
      · next hd => exact ⟨d, by simpa using hd, rfl, Option.some.inj h⟩
      · cases h
    · rintro ⟨c, hc, rfl, rfl⟩
      rw [if_pos (by simpa using hc)]

/-- **The place of the flag that is taken**: behind it an identity can be read, and it is the last
place of this kind. -/
theorem exists_of_identity? (h : identity? tail? s = some i) :
    ∃ c b place d, (d = ' ' ∨ d = '=') ∧ s = c :: (b ++ (flagMark ++ d :: place)) ∧
      (configCuts place).findSome? (identityOf tail?) = some i ∧
      ∀ b' place', s = c :: (b' ++ (flagMark ++ ' ' :: place')) → b' ≠ [] →
        (configCuts place').findSome? (identityOf tail?) ≠ none → b'.length ≤ b.length := by
  cases s with
  | nil => cases h
  | cons c s =>
    -- a command does not begin with a blank
    by_cases hc : isBlank c = true
    · rw [identity?, configPlaces, if_pos hc] at h
      cases h
    · rw [identity?_cons (by simpa using hc)] at h
      obtain ⟨⟨b, y⟩, hcut, hplace, hlast⟩ :=
        exists_of_findSome?_descending (fun p => p.1.length) (pairwise_cuts flagMark s) h
      obtain rfl := (mem_cuts (by decide)).mp hcut
      -- something has to stand in front of the flag
      split at hplace
      · obtain ⟨place, hdrop, hread⟩ := Option.bind_eq_some_iff.mp hplace
        obtain ⟨d, hd, rfl⟩ := dropAssign?_eq_some.mp hdrop
        refine ⟨c, b, place, d, hd, rfl, hread, fun b' place' heq hb' hread => ?_⟩
        have hdrop' : dropAssign? (' ' :: place') = some place' := rfl
        refine hlast (b', ' ' :: place') ((mem_cuts (by decide)).mpr (List.cons.inj heq).2) ?_
        rwa [if_pos (by simpa using hb'), hdrop', Option.bind_some]
      · cases hplace

/-- **The file name that is taken**: behind it profile and command can be read, and it is the
longest of this kind. -/
theorem exists_of_configCuts (h : (configCuts s).findSome? (identityOf tail?) = some i) :
    ∃ rest, (i.configFile.toList, rest) ∈ configCuts s ∧
      tail? rest = some (i.profile.toList, i.command.toList) ∧
      ∀ n r, (n, r) ∈ configCuts s → tail? r ≠ none → n.length ≤ i.configFile.toList.length := by
  obtain ⟨⟨n, rest⟩, hn, hidentity, hlongest⟩ :=
    exists_of_findSome?_descending (fun p => p.1.length) (pairwise_configCuts s) h
  obtain ⟨t, ht, rfl⟩ := Option.map_eq_some_iff.mp hidentity
  refine ⟨rest, by simpa using hn, by simpa using ht, fun n' r hmem hread => ?_⟩
  have hle := hlongest (n', r) hmem fun hnone => hread (Option.map_eq_none_iff.mp hnone)
  simpa using hle

theorem findSome?_configCuts_ne_none {n r : List Char} (hn : (n, r) ∈ configCuts s)
    (hread : tail? r ≠ none) : (configCuts s).findSome? (identityOf tail?) ≠ none := fun hnone =>
  hread (Option.map_eq_none_iff.mp (List.findSome?_eq_none_iff.mp hnone _ hn))

/-- An identity is read if profile and command can be read behind some file name behind the flag. -/
theorem identity?_ne_none {c : Char} (hc : isBlank c = false) {b place n r : List Char}
    (hb : b ≠ []) (hn : (n, r) ∈ configCuts place) (hread : tail? r ≠ none) :
    identity? tail? (c :: (b ++ (flagMark ++ ' ' :: place))) ≠ none := by
  rw [identity?_cons hc]
  intro hnone
  have hmem : (b, ' ' :: place) ∈ cuts flagMark (b ++ (flagMark ++ ' ' :: place)) :=
    (mem_cuts (by decide)).mpr rfl
  have hplace := List.findSome?_eq_none_iff.mp hnone _ hmem
  have hdrop : dropAssign? (' ' :: place) = some place := rfl
  rw [if_pos (by simpa using hb), hdrop, Option.bind_some] at hplace
  exact findSome?_configCuts_ne_none hn hread hplace

/-- Behind the flag, a file name that does not mention it does not bring it back. -/
theorem not_infix_flagMark_quoted {q file q' : List Char} (hflag : ¬ flagMark <:+: file)
    (hq : q ∈ Entry.quoteLanguage) (hq' : q' ∈ Entry.quoteLanguage) :
    ¬ flagMark <:+: ' ' :: (q ++ (file ++ (q' ++ [' ']))) := by
  have hblank : ' ' ∉ flagMark := by decide
  have hnil : ¬ flagMark <:+: [] := by decide
  have hshape : ' ' :: (q ++ (file ++ (q' ++ [' ']))) =
      [] ++ ' ' :: ((q ++ (file ++ q')) ++ ' ' :: []) := by simp
  rw [hshape, infix_append_cons_iff hblank, infix_append_cons_iff hblank,
    infix_quoted_iff (by decide) (by decide) hq hq']
  tauto

/-- **The file name behind the last place of the flag.** A text ends with the flag, a file name
that does not mention it and perhaps quotes around that, a blank and some form. If whatever can be
read in an end of the text ends with this form, and the same is read of the form, then the identity
that is read in an end of the text has this file name and what is read of the form. -/
theorem identity?_spec {w pre q file q' form : List Char} (hne : file ≠ []) (hquote : '"' ∉ file)
    (hflag : ¬ flagMark <:+: file) (hq : q ∈ Entry.quoteLanguage) (hq' : q' ∈ Entry.quoteLanguage)
    (hw : w = pre ++ (flagMark ++ ' ' :: (q ++ (file ++ (q' ++ ' ' :: form)))))
    (htail : ∀ r t, r <:+ w → tail? r = some t → form <:+ r ∧ tail? form = some t)
    (hs : s <:+ w) (h : identity? tail? s = some i) :
    i.configFile.toList = file ∧ tail? form = some (i.profile.toList, i.command.toList) := by
  obtain ⟨c, b, place, d, -, rfl, hplace, hlast⟩ := exists_of_identity? h
  obtain ⟨rest, hcut, hread, hlongest⟩ := exists_of_configCuts hplace
  obtain ⟨hn, hn', p, hp, p', -, rfl⟩ := mem_configCuts.mp hcut
  obtain ⟨x, hx⟩ := hs
  have hrest : rest <:+ w := by
    refine ⟨x ++ c :: (b ++ (flagMark ++ d :: (p ++ (i.configFile.toList ++ (p' ++ [' ']))))), ?_⟩
    rw [← hx]
    simp
  obtain ⟨⟨b', rfl⟩, hform⟩ := htail rest _ hrest hread
  refine ⟨?_, hform⟩
  -- both places of the flag, with the form cut off
  have hplaces : (x ++ c :: b) ++ (flagMark ++ d :: (p ++ (i.configFile.toList ++
      (p' ++ ' ' :: b')))) = pre ++ (flagMark ++ ' ' :: (q ++ (file ++ (q' ++ [' '])))) := by
    have hwhole := hx.trans hw
    rw [← List.append_cancel_right_eq _ form]
    simpa using hwhole
  have hfile : (file, form) ∈ configCuts (q ++ (file ++ (q' ++ ' ' :: form))) :=
    mem_configCuts.mpr ⟨hne, hquote, q, hq, q', hq', rfl⟩
  have hreadable : tail? form ≠ none := by
    rw [hform]
    exact Option.some_ne_none _
  have hreads := findSome?_configCuts_ne_none hfile hreadable
  have hsame : x ++ c :: b = pre := by
    refine isUnbordered_flagMark.eq_of_append_eq (not_infix_flagMark_quoted hflag hq hq') hplaces
      fun k hk => ?_
    -- the reader takes no place in front of one at which it can go on
    have hlater : c :: (b ++ (flagMark ++ d :: (p ++ (i.configFile.toList ++
        (p' ++ ' ' :: (b' ++ form)))))) =
        c :: ((b ++ k) ++ (flagMark ++ ' ' :: (q ++ (file ++ (q' ++ ' ' :: form))))) := by
      rw [hw, hk] at hx
      simpa using hx
    by_contra hk'
    have hlength := hlast _ _ hlater (by simp [hk']) hreads
    rw [List.length_append] at hlength
    exact hk' (List.length_eq_zero_iff.mp (by omega))
  -- at the same place the longest file name is the one that was meant
  rw [hsame] at hplaces
  obtain ⟨-, hname⟩ := List.cons.inj (List.append_cancel_left (List.append_cancel_left hplaces))
  have hplace : p ++ (i.configFile.toList ++ (p' ++ ' ' :: (b' ++ form))) =
      q ++ (file ++ (q' ++ ' ' :: form)) := by
    simpa using congrArg (· ++ form) hname
  have hle := hlongest file form (by rw [hplace]; exact hfile) hreadable
  exact file_eq_of_quoted_eq hp hq hq' hn hn' hne hquote hle hname

end Search

end Timetable
