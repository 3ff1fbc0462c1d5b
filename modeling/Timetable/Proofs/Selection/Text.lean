import Timetable.Proofs.Selection.Members
import Timetable.Proofs.Text.Blank
import Timetable.Proofs.Text.Mark
import Timetable.Proofs.Text.Numeral

/-!
Selections that are written and read.

The text of a selection is a list of items: its runs, if there is one of three
numbers, and else its members. The reader of lists reads these items again, as
long as the numbers are labelled by texts that are read as them, and the items
have the members in their order as numbers. So what is read is the selection into
which the members have been inserted one by one. That is the normal form of the
selection: it has the same members, and one number inserted several times has
become a single one.
-/

set_option autoImplicit false

namespace Timetable

open Text

/-! ## The numbers of items -/

namespace Item

/-- The numbers that an item names. -/
def numbers : Item → List Nat
  | number n => [n]
  | range a b => List.range' a (b + 1 - a)

/-- The text of an item, its numbers written by `label`. -/
def textWith (label : Nat → List Char) : Item → List Char
  | number n => label n
  | range a b => label a ++ '.' :: '.' :: label b

/-- An item of numbers of a domain, with the ends of a range in order. -/
def IsIn (d : Domain) : Item → Prop
  | number n => d.holds n = true
  | range a b => a ≤ b ∧ d.holds a = true ∧ d.holds b = true

end Item

namespace Selection

variable {d : Domain}

/-- An item inserts its numbers. -/
theorem insertItem_eq {item : Item} (h : item.IsIn d) (s : Selection d) :
    s.insertItem item = item.numbers.foldlM insert s := by
  cases item with
  | number n => simp [insertItem, Item.numbers]
  | range a b =>
    obtain ⟨hle, ha, hb⟩ := h
    simp [insertItem, insertRange, Item.numbers, ha, hb, Nat.not_lt.mpr hle]

/-- A range with its ends in order does not run through the end of a cyclic domain. -/
theorem insertCyclic_eq {item : Item} (h : item.IsIn d) (s : Selection d) :
    s.insertCyclic item = item.numbers.foldlM insert s := by
  rw [← insertItem_eq h]
  cases item with
  | number n => rfl
  | range a b => exact if_neg (Nat.not_lt.mpr h.1)

/-- A row of items inserts the numbers of all of them. -/
theorem foldlM_items_eq {f : Selection d → Item → Except SelectionError (Selection d)}
    {items : List Item} (h : ∀ item ∈ items, ∀ s, f s item = item.numbers.foldlM insert s)
    (s : Selection d) : items.foldlM f s = (items.flatMap Item.numbers).foldlM insert s := by
  induction items generalizing s with
  | nil => rfl
  | cons item items ih =>
    rw [List.foldlM_cons, List.flatMap_cons, List.foldlM_append, h item (by simp)]
    exact bind_congr fun s' => ih (fun i hi => h i (by simp [hi])) s'

/-- Items that can be inserted one after another are all inserted, and none is refused. -/
theorem insertAll_eq_of_foldlM {items : List Item} {s s' : Selection d}
    (h : items.foldlM insertItem s = .ok s') : s.insertAll items = (s', .ok ()) := by
  induction items generalizing s with
  | nil =>
    rw [List.foldlM_nil, pure_eq_ok] at h
    rw [h]
    rfl
  | cons item items ih =>
    rw [List.foldlM_cons, bind_eq_ok] at h
    obtain ⟨s₁, h₁, h₂⟩ := h
    rw [insertAll, h₁]
    exact ih h₂

/-! ## The normal form -/

/-- The selection that a row of insertions leads to: one number is stored alone, and more are
stored as flags. -/
def inserted (d : Domain) : List Nat → Selection d
  | [] => any
  | [n] => one n
  | n :: m :: ns => many (flagsOf d (n :: m :: ns))

/-- The selection of the same members into which each of them has been inserted once. -/
def normal (s : Selection d) : Selection d :=
  inserted d s.members

/-- Inserting into a set of numbers sets the flag of the number. -/
theorem insert_many (hd : d.width < wordLimit) {n : Nat} (hn : d.holds n = true)
    (flags : Array Bool) :
    (many flags : Selection d).insert n = .ok (many (flags.setIfInBounds (n - d.lo) true)) := by
  simp [insert, hn, Nat.not_le.mpr hd]

/-- Inserting numbers of the domain into flags sets their flags. -/
theorem foldlM_insert_many (hd : d.width < wordLimit) {ns : List Nat}
    (hns : ∀ n ∈ ns, d.holds n = true) (flags : Array Bool) :
    ns.foldlM insert (many flags : Selection d) =
      .ok (many (ns.foldl (fun flags n => flags.setIfInBounds (n - d.lo) true) flags)) := by
  induction ns generalizing flags with
  | nil => rfl
  | cons n ns ih =>
    rw [List.foldlM_cons, insert_many hd (hns n (by simp))]
    exact ih (fun m hm => hns m (by simp [hm])) _

/-- **A row of insertions** of numbers of the domain, as an equation. -/
theorem foldlM_insert_any (hd : d.width < wordLimit) {ns : List Nat}
    (hns : ∀ n ∈ ns, d.holds n = true) :
    ns.foldlM insert (any : Selection d) = .ok (inserted d ns) := by
  -- the first number stands alone, and the second one makes it a set
  rcases ns with _ | ⟨n, ns⟩
  · rfl
  have hfirst : (any : Selection d).insert n = .ok (one n) := by
    simp [insert, hns n (by simp), Nat.not_le.mpr hd]
  rw [List.foldlM_cons, hfirst]
  rcases ns with _ | ⟨m, ns⟩
  · rfl
  have hsecond : (one n : Selection d).insert m = .ok (many (flagsOf d [n, m])) := by
    simp [insert, hns m (by simp), Nat.not_le.mpr hd]
  have hrest : (m :: ns).foldlM insert (one n : Selection d) =
      .ok (inserted d (n :: m :: ns)) := by
    rw [List.foldlM_cons, hsecond]
    exact foldlM_insert_many hd (fun k hk => hns k (by simp [hk])) _
  exact hrest

namespace Reached

variable {s : Selection d}

/-- The members are inserted one by one into the normal form. -/
theorem foldlM_members_eq (hs : s.Reached) (hd : d.width < wordLimit) :
    s.members.foldlM Selection.insert .any = .ok s.normal :=
  foldlM_insert_any hd fun _ hn => hs.holds hn

/-- **The normal form takes the same numbers**, and operations lead to it. -/
theorem normal_spec (hs : s.Reached) (hd : d.width < wordLimit) :
    s.normal.Reached ∧ s.normal.Agrees s := by
  obtain ⟨s', hs', hreached, hmembers⟩ :=
    Reached.any.exists_foldlM_insert hd fun n hn => hs.holds (m := n) hn
  rw [hs.foldlM_members_eq hd] at hs'
  obtain rfl := Except.ok.inj hs'
  exact ⟨hreached, agrees_of_mem_iff hreached hs fun n => by simp [hmembers]⟩

end Reached

/-- **How a row of insertions is stored**: one number as a single one, more of them as flags. -/
theorem inserted_stored (ns : List Nat) :
    ((∃ n, inserted d ns = one n) ↔ ns.length = 1) ∧
      ((∃ flags, inserted d ns = many flags) ↔ 1 < ns.length) := by
  match ns with
  | [] => simp [inserted]
  | [n] => simp [inserted]
  | n :: m :: ns => simp [inserted]

/-- The order in which flags are switched on is of no account. -/
theorem flagsOf_perm {ns ms : List Nat} (h : ns.Perm ms) : flagsOf d ns = flagsOf d ms := by
  refine h.foldl_eq' (fun n _ m _ flags => ?_) _
  by_cases hsame : n - d.lo = m - d.lo
  · rw [hsame]
  · exact Array.setIfInBounds_comm _ _ hsame

/-- **A row of insertions in another order** leads to the same selection. -/
theorem inserted_perm {ns ms : List Nat} (h : ns.Perm ms) : inserted d ns = inserted d ms := by
  match ns, ms with
  | [], ms => rw [h.nil_eq]
  | [n], ms => rw [h.singleton_eq]
  | n :: n' :: ns, [] => exact absurd h.length_eq (by simp)
  | n :: n' :: ns, [m] => exact absurd h.length_eq (by simp)
  | n :: n' :: ns, m :: m' :: ms =>
    rw [inserted, inserted, flagsOf_perm h]

/-- The normal form has as many insertions as there are members. -/
theorem normal_stored (s : Selection d) :
    ((∃ n, s.normal = one n) ↔ s.members.length = 1) ∧
      ((∃ flags, s.normal = many flags) ↔ 1 < s.members.length) :=
  inserted_stored s.members

/-- Selections that agree have the same text. -/
theorem Agrees.textWith_eq {s s' : Selection d} (h : s.Agrees s') (label : Nat → String) :
    s.textWith label = s'.textWith label := by
  simp only [textWith, hasTriple, runs, h.members, h.isPopulated]
  rfl

/-! ## The items of a selection -/

/-- The item of a run. -/
def runItem (r : Run) : Item :=
  if r.isLone then .number r.first else .range r.first r.last

/-- The items that the text of a selection is written of. -/
def items (s : Selection d) : List Item :=
  if s.hasTriple then s.runs.map runItem else s.members.map .number

/-- The item that is written for a run has the numbers of the run. -/
theorem numbers_runItem {r : Run} (hr : r.IsOrdered) : (runItem r).numbers = r.toList := by
  rw [Run.IsOrdered] at hr
  rw [runItem]
  split
  · next h =>
    have hlone : r.first = r.last := by simpa [Run.isLone] using h
    simp [Item.numbers, Run.toList, Run.length, ← hlone]
  · rw [Item.numbers, Run.toList, Run.length]
    congr 1
    omega

/-- **The text of a selection** with something in it lists its items. -/
theorem toList_textWith {s : Selection d} (hp : s.isPopulated = true) (label : Nat → String) :
    (s.textWith label).toList =
      [','].intercalate (s.items.map (Item.textWith fun n => (label n).toList)) := by
  simp only [textWith, hp, items]
  rw [if_neg (by simp), String.toList_intercalate]
  split
  · rw [List.map_map, List.map_map]
    refine congrArg _ (List.map_congr_left fun r _ => ?_)
    simp only [Function.comp_apply, runItem]
    split
    · rfl
    · simp [Item.textWith]
  · rw [List.map_map, List.map_map]
    rfl

/-- **The items have the members as their numbers.** -/
theorem flatMap_numbers_items (s : Selection d) : s.items.flatMap Item.numbers = s.members := by
  obtain ⟨hordered, hnumbers⟩ := Run.ofMembers_spec s.members
  rw [items]
  split
  · rw [List.flatMap_map]
    refine Eq.trans ?_ hnumbers
    exact List.flatMap_congr fun r hr => numbers_runItem (hordered r hr)
  · rw [List.flatMap_map]
    exact List.flatMap_singleton' s.members

/-- Only the selection of anything is not populated. -/
theorem isPopulated_eq_false_iff {s : Selection d} : s.isPopulated = false ↔ s = any := by
  cases s <;> simp [isPopulated]

/-- Nothing is written exactly for a selection that is not populated, and the star stands for it
then. -/
theorem Reached.items_eq_nil_iff {s : Selection d} (hs : s.Reached) :
    s.items = [] ↔ s.isPopulated = false := by
  constructor
  · intro h
    have hmembers := flatMap_numbers_items s
    rw [h] at hmembers
    by_contra hp
    exact hs.members_ne_nil (by simpa using hp) hmembers.symm
  · intro h
    rw [isPopulated_eq_false_iff.mp h]
    rfl

/-- The ends of the runs are members. -/
theorem ends_mem_members {s : Selection d} {r : Run} (hr : r ∈ s.runs) :
    r.first ≤ r.last ∧ r.first ∈ s.members ∧ r.last ∈ s.members := by
  obtain ⟨hordered, hnumbers⟩ := Run.ofMembers_spec s.members
  have hle := hordered r hr
  rw [Run.IsOrdered] at hle
  have hmem : ∀ n ∈ r.toList, n ∈ s.members := fun n hn =>
    hnumbers ▸ List.mem_flatMap_of_mem hr hn
  refine ⟨hle, hmem _ ?_, hmem _ ?_⟩
  · simp only [Run.toList, Run.length, List.mem_range'_1]
    omega
  · simp only [Run.toList, Run.length, List.mem_range'_1]
    omega

/-- What is written for a selection are items within its domain. -/
theorem Reached.isIn_of_mem_items {s : Selection d} (hs : s.Reached) {item : Item}
    (h : item ∈ s.items) : item.IsIn d := by
  rw [items] at h
  split at h
  · obtain ⟨r, hr, rfl⟩ := List.mem_map.mp h
    obtain ⟨hle, hfirst, hlast⟩ := ends_mem_members hr
    rw [runItem]
    split
    · exact hs.holds hfirst
    · exact ⟨hle, hs.holds hfirst, hs.holds hlast⟩
  · obtain ⟨n, hn, rfl⟩ := List.mem_map.mp h
    exact hs.holds hn

/-- **The items of a selection insert its normal form.** -/
theorem Reached.foldlM_items {s : Selection d} (hs : s.Reached) (hd : d.width < wordLimit)
    {f : Selection d → Item → Except SelectionError (Selection d)}
    (h : ∀ item, item.IsIn d → ∀ s, f s item = item.numbers.foldlM Selection.insert s) :
    s.items.foldlM f .any = .ok s.normal := by
  rw [foldlM_items_eq fun item hitem => h item (hs.isIn_of_mem_items hitem), flatMap_numbers_items,
    hs.foldlM_members_eq hd]

end Selection

/-! ## What a text is made of -/

/-- An item within a domain is written in the characters of labels and the point. -/
theorem Item.isMadeOf_textWith {d : Domain} {p : Char → Bool} {label : Nat → List Char}
    (hpoint : p '.' = true) (hlabel : ∀ n, d.holds n = true → IsMadeOf p (label n)) {item : Item}
    (h : item.IsIn d) : IsMadeOf p (item.textWith label) := by
  cases item with
  | number n => exact hlabel n h
  | range a b =>
    have hlast : IsMadeOf p ('.' :: label b) :=
      ⟨by simp, by simpa [hpoint] using (hlabel b h.2.2).all⟩
    exact (hlabel a h.2.1).append_cons hpoint hlast

namespace Selection

variable {d : Domain} {s : Selection d}

/-- The text of a selection with something in it is a word of a class with commas, points and the
labels of its numbers. -/
theorem Reached.isMadeOf_textWith (hs : s.Reached) (hp : s.isPopulated = true) {p : Char → Bool}
    {label : Nat → String} (hcomma : p ',' = true) (hpoint : p '.' = true)
    (hlabel : ∀ n, d.holds n = true → IsMadeOf p (label n).toList) :
    IsMadeOf p (s.textWith label).toList := by
  have hitems : s.items ≠ [] := by
    rw [ne_eq, hs.items_eq_nil_iff, hp]
    exact Bool.noConfusion
  rw [toList_textWith hp]
  refine IsMadeOf.intercalate hcomma (by simpa using hitems) fun w hw => ?_
  obtain ⟨item, hitem, rfl⟩ := List.mem_map.mp hw
  exact Item.isMadeOf_textWith hpoint hlabel (hs.isIn_of_mem_items hitem)

/-- A function on texts that works on the parts between commas and points rewrites the text of a
selection label by label. -/
theorem Reached.map_textWith (hs : s.Reached) (hp : s.isPopulated = true)
    {f : List Char → List Char} {label label' : Nat → String} (hnil : f [] = [])
    (hcomma : ∀ a b, f (a ++ ',' :: b) = f a ++ ',' :: f b)
    (hpoint : ∀ a b, f (a ++ '.' :: b) = f a ++ '.' :: f b)
    (hlabel : ∀ n, d.holds n = true → f (label n).toList = (label' n).toList) :
    f (s.textWith label).toList = (s.textWith label').toList := by
  have hitem : ∀ item ∈ s.items, f (item.textWith fun n => (label n).toList) =
      item.textWith fun n => (label' n).toList := by
    intro item hmem
    have hin := hs.isIn_of_mem_items hmem
    -- and one that respects points acts on both ends of a range
    cases item with
    | number n => exact hlabel n hin
    | range a b =>
      have hsecond := hpoint [] (label b).toList
      rw [List.nil_append, hnil, List.nil_append] at hsecond
      simp only [Item.textWith]
      rw [hpoint, hsecond, hlabel a hin.2.1, hlabel b hin.2.2]
  -- a function that respects commas acts on each item of a list
  have hlist : ∀ ts : List (List Char),
      f ([','].intercalate ts) = [','].intercalate (ts.map f) := by
    intro ts
    induction ts with
    | nil => exact hnil
    | cons t ts ih =>
      cases ts with
      | nil => simp
      | cons t' ts =>
        have hcons := hcomma t ([','].intercalate (t' :: ts))
        rw [ih] at hcons
        simpa [List.intercalate_cons_cons] using hcons
  rw [toList_textWith hp, toList_textWith hp, hlist, List.map_map]
  exact congrArg _ (List.map_congr_left hitem)

end Selection

/-! ## Reading a list -/

namespace Item

/-- Tokens are split at commas, so a comma between two lists splits them apart. -/
theorem tokens_append_comma (a b : List Char) : tokens (a ++ ',' :: b) = tokens a ++ tokens b := by
  rw [tokens, List.splitOn, List.splitOnP_append_cons a b (by simp), List.map_append,
    List.filter_append]
  rfl

/-- The items of a list are read part by part. -/
theorem readList_append_comma_eq_ok_iff {a b : List Char} {items : List Item} :
    readList (a ++ ',' :: b) = .ok items ↔
      ∃ is js, readList a = .ok is ∧ readList b = .ok js ∧ items = is ++ js := by
  rw [readList, tokens_append_comma, List.mapM_append]
  simp only [bind_eq_ok, pure_eq_ok, readList]
  constructor
  · rintro ⟨is, his, js, hjs, rfl⟩
    exact ⟨is, js, his, hjs, rfl⟩
  · rintro ⟨is, js, his, hjs, rfl⟩
    exact ⟨is, his, js, hjs, rfl⟩

/-- Two lists with a comma between them are read as the items of the first and then those of the
second. -/
theorem readList_append_comma {a b : List Char} {is js : List Item} (ha : readList a = .ok is)
    (hb : readList b = .ok js) : readList (a ++ ',' :: b) = .ok (is ++ js) :=
  readList_append_comma_eq_ok_iff.mpr ⟨is, js, ha, hb, rfl⟩

/-- A list whose parts are read as one item each is read as these items. -/
theorem readList_intercalate {f : Item → List Char} {items : List Item}
    (h : ∀ item ∈ items, readList (f item) = .ok [item]) :
    readList ([','].intercalate (items.map f)) = .ok items := by
  induction items with
  | nil => rfl
  | cons item items ih =>
    have hitem := h item (by simp)
    cases items with
    | nil => simpa using hitem
    | cons item' items =>
      have hrest := ih fun i hi => h i (by simp [hi])
      simpa [List.intercalate_cons_cons] using readList_append_comma hitem hrest

section Number

variable {t t' : List Char} {n n' : Nat}

/-- Digits are not trimmed. -/
theorem isBlank_of_isDigit {c : Char} (h : c.isDigit = true) : isBlank c = false :=
  isBlank_of_class (p := Char.isDigit) (by decide) h

/-- A written number is read back. -/
theorem readNumber_eq_ok (h : IsNumber t n) : readNumber t = .ok n := by
  rw [readNumber, trim_of_blankFree fun c hc => isBlank_of_isDigit (h.isDigit c hc), h.read]

/-- A text without commas and blanks is one token. -/
theorem readList_of_notMem (hcomma : ',' ∉ t) (hblank : ∀ c ∈ t, isBlank c = false) (hne : t ≠ [])
    (hstar : t ≠ ['*']) : readList t = (read t).map ([·]) := by
  have htokens : tokens t = [t] := by
    simp [tokens, splitOn_of_notMem hcomma, trim_of_blankFree hblank, hne, hstar]
  rw [readList, htokens, List.mapM_cons]
  cases read t <;> rfl

/-- A list of one token, neither empty nor a star, has its one item. -/
theorem readList_of_token (hcomma : ',' ∉ t) (hblank : ∀ c ∈ t, isBlank c = false) (hne : t ≠ [])
    (hstar : t ≠ ['*']) {item : Item} (h : read t = .ok item) : readList t = .ok [item] := by
  rw [readList_of_notMem hcomma hblank hne hstar, h]
  rfl

/-- A token that is a number is that item. -/
theorem read_number (h : IsNumber t n) : read t = .ok (number n) := by
  have hcut : cutAt? ['.', '.'] t = none := by
    rw [cutAt?_eq_none_iff (by simp)]
    exact fun hin => h.notMem (by decide : '.'.isDigit = false) (hin.subset (by simp))
  rw [read, hcut]
  simp only [readNumber_eq_ok h]
  rfl

/-- A token of two numbers with points between them is a range. -/
theorem read_range (h : IsNumber t n) (h' : IsNumber t' n') :
    read (t ++ '.' :: '.' :: t') = .ok (range n n') := by
  have hcut : cutAt? ['.', '.'] (t ++ '.' :: '.' :: t') = some (t, t') :=
    cutAt?_append_cons (h.notMem (by decide : '.'.isDigit = false)) t'
  rw [read, hcut]
  simp only [readNumber_eq_ok h, readNumber_eq_ok h']
  rfl

/-- A list of one number. -/
theorem readList_number (h : IsNumber t n) : readList t = .ok [number n] := by
  refine readList_of_token (h.notMem (by decide)) (fun c hc => isBlank_of_isDigit (h.isDigit c hc))
    h.ne_nil ?_ (read_number h)
  rintro rfl
  exact h.notMem (by decide : '*'.isDigit = false) (by simp)

/-- A list of one range. -/
theorem readList_range (h : IsNumber t n) (h' : IsNumber t' n') :
    readList (t ++ '.' :: '.' :: t') = .ok [range n n'] := by
  refine readList_of_token ?_ ?_ (by simp) ?_ (read_range h h')
  · simp [h.notMem (by decide : ','.isDigit = false), h'.notMem (by decide : ','.isDigit = false)]
  · intro c hc
    simp only [List.mem_append, List.mem_cons] at hc
    rcases hc with hc | rfl | rfl | hc
    · exact isBlank_of_isDigit (h.isDigit c hc)
    · rfl
    · rfl
    · exact isBlank_of_isDigit (h'.isDigit c hc)
  · obtain ⟨c, rest, -, rfl⟩ := h.exists_eq_cons
    simp

end Number

/-- An item is read as it was written, if its numbers are labelled by texts that are read as
them. -/
theorem readList_textWith {d : Domain} {label : Nat → List Char}
    (hlabel : ∀ n, d.holds n = true → IsNumber (label n) n) {item : Item} (h : item.IsIn d) :
    readList (item.textWith label) = .ok [item] := by
  cases item with
  | number n => exact readList_number (hlabel n h)
  | range a b => exact readList_range (hlabel a h.2.1) (hlabel b h.2.2)

end Item

namespace Selection

variable {d : Domain} {s : Selection d}

/-- **The text of a selection is read as its items**, if its numbers are labelled by texts that are
read as them. -/
theorem Reached.readList_textWith (hs : s.Reached) {label : Nat → String}
    (hlabel : ∀ n, d.holds n = true → IsNumber (label n).toList n) :
    Item.readList (s.textWith label).toList = .ok s.items := by
  by_cases hp : s.isPopulated = true
  · rw [toList_textWith hp]
    exact Item.readList_intercalate fun item hitem =>
      Item.readList_textWith hlabel (hs.isIn_of_mem_items hitem)
  · obtain rfl := isPopulated_eq_false_iff.mp (by simpa using hp : s.isPopulated = false)
    have htext : (Selection.any : Selection d).textWith label = "*" := rfl
    have hread : Item.readList "*".toList = .ok [] := by cbv
    rw [htext, hread]
    rfl

/-! ## Reading back -/

/-- **The items that are written are read back**, one for each run. -/
theorem Reached.readList_text (hs : s.Reached) (hhi : d.hi < wordLimit) :
    Item.readList s.text.toList = .ok s.items := by
  refine hs.readList_textWith fun n hn => ?_
  rw [String.toList_ofList]
  exact isNumber_twoDigits (lt_wordLimit_of_holds hn hhi)

/-- Only the selection of anything is written as a star. -/
theorem Reached.text_eq_star_iff (hs : s.Reached) : s.text = "*" ↔ s = .any := by
  constructor
  · intro htext
    by_contra hne
    have hp : s.isPopulated = true := by
      rwa [← Bool.not_eq_false, isPopulated_eq_false_iff]
    -- a populated selection is written in digits, commas and points
    have hmade : IsMadeOf (fun c => c.isDigit || c == ',' || c == '.') s.text.toList :=
      hs.isMadeOf_textWith hp (by decide) (by decide) fun n _ => by
        rw [String.toList_ofList]
        exact ⟨twoDigits_ne_nil n, fun c hc => by simp [isDigit_of_mem_twoDigits hc]⟩
    exact hmade.notMem (c := '*') (by decide) (by simp [htext])
  · rintro rfl
    rfl

/-- **A selection is read back from its text.** What is read from the text into an empty selection
of the same domain has the same members and the same text. The text is a star if and only if nothing
has been inserted. -/
theorem Reached.insertText_text (hs : s.Reached) (hhi : d.hi < wordLimit)
    (hd : d.width < wordLimit) :
    (∃ s', (Selection.any : Selection d).insertText s.text.toList = (s', .ok ()) ∧
      s'.members = s.members ∧ s'.text = s.text) ∧
    (s.text = "*" ↔ s = .any) := by
  have hitems : s.items.foldlM Selection.insertItem .any = .ok s.normal :=
    hs.foldlM_items hd fun _ hitem s => insertItem_eq hitem s
  have hagrees := (hs.normal_spec hd).2
  refine ⟨⟨s.normal, ?_, hagrees.members, hagrees.textWith_eq _⟩, hs.text_eq_star_iff⟩
  rw [Selection.insertText, hs.readList_text hhi]
  exact insertAll_eq_of_foldlM hitems

/-- The last numbers of 32 bits: one alone and three in a run, inserted in no order. -/
theorem insertText_text_top :
    let top : Domain := ⟨4294967290, 4294967295⟩
    let s : Selection top := ofList [4294967295, 4294967290, 4294967294, 4294967293]
    s.Reached ∧ top.hi < wordLimit ∧ top.width < wordLimit ∧
      s.text = "4294967290,4294967293..4294967295" ∧
      ∃ s', (any : Selection top).insertText "4294967290,4294967293..4294967295".toList =
        (s', .ok ()) ∧ s'.members = [4294967290, 4294967293, 4294967294, 4294967295] := by
  intro top s
  have hreached : s.Reached := reached_ofList _
  have hhi : top.hi < wordLimit := by decide
  have hd : top.width < wordLimit := by decide
  have htext : s.text = "4294967290,4294967293..4294967295" := by decide +kernel
  have hmembers : s.members = [4294967290, 4294967293, 4294967294, 4294967295] := by
    decide +kernel
  obtain ⟨⟨s', hread, hsame, -⟩, -⟩ := hreached.insertText_text hhi hd
  rw [htext] at hread
  rw [hmembers] at hsame
  exact ⟨hreached, hhi, hd, htext, s', hread, hsame⟩

end Selection

end Timetable
