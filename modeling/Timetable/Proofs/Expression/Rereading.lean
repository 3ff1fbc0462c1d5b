import Timetable.Proofs.Expression

/-!
Reading the text of an event that was read.

The text of an event is read as the normal form of the event, so the event comes
back if and only if it is its own normal form. A selection is unless one number has
been inserted more than once and no other: such a selection is stored as flags, of
which only one is on, while its text is that of a single number. Which of the two
it is can be told from the lists of the text from which the event was read.
-/

set_option autoImplicit false

namespace Timetable

open Text (wordLimit)

namespace Selection

variable {d : Domain}

/-- Flags for all numbers of the domain are known from the members. -/
theorem flags_eq_of_members {f f' : Array Bool} (hf : f.size = d.width) (hf' : f'.size = d.width)
    (h : (many f : Selection d).members = (many f' : Selection d).members) : f = f' := by
  refine Array.ext (hf.trans hf'.symm) fun i hi hi' => ?_
  -- a flag is on exactly if its number is a member
  have hmem : d.lo + i ∈ (many f : Selection d).members ↔ _ := mem_members_many
  rw [h, mem_members_many] at hmem
  have hiff : f'[i] = true ↔ f[i] = true := by simpa [hi, hi'] using hmem
  rw [Bool.eq_iff_iff, hiff]

/-- **A selection is its own normal form** unless it stores a single member as flags. -/
theorem Reached.normal_eq_self_iff {s : Selection d} (hs : s.Reached) (hd : d.width < wordLimit) :
    s.normal = s ↔ ∀ flags, s = many flags → 1 < s.members.length := by
  obtain ⟨hreached, hagrees⟩ := hs.normal_spec hd
  constructor
  · rintro h flags rfl
    exact (normal_stored _).2.mp ⟨flags, h⟩
  · intro h
    cases s with
    | any => rfl
    | one n => rfl
    -- both are flags, and flags are known from the members
    | many flags =>
      obtain ⟨flags', hflags'⟩ := (normal_stored _).2.mpr (h flags rfl)
      rw [hflags'] at hreached hagrees ⊢
      rw [flags_eq_of_members hreached.hasFlag.1 hs.hasFlag.1 hagrees.members]

/-- A row of insertions leads to its own normal form unless it inserts one number again and
again. -/
theorem normal_inserted_eq_iff (hd : d.width < wordLimit) {ns : List Nat}
    (hns : ∀ n ∈ ns, d.holds n = true) : (inserted d ns).normal = inserted d ns ↔
      ∀ n k, ns ≠ List.replicate (k + 2) n := by
  obtain ⟨hreached, hmem⟩ := inserted_spec hd hns
  rw [hreached.normal_eq_self_iff hd]
  constructor
  · -- of a number that is inserted again and again there is one member only
    rintro h n k rfl
    have hlength := h _ rfl
    have hsame : ∀ m ∈ (inserted d (List.replicate (k + 2) n)).members, m = n := fun m hm =>
      List.eq_of_mem_replicate ((hmem m).mp hm)
    have hpairwise := pairwise_members (inserted d (List.replicate (k + 2) n))
    revert hlength hsame hpairwise
    generalize (inserted d (List.replicate (k + 2) n)).members = ms
    intro hlength hsame hpairwise
    match ms with
    | a :: b :: ms =>
      have hlt : a < b := (List.pairwise_cons.mp hpairwise).1 b (by simp)
      have ha := hsame a (by simp)
      have hb := hsame b (by simp)
      omega
  · intro h flags hflags
    match ns with
    | [] => cases hflags
    | [n] => cases hflags
    | n :: m :: ns =>
      -- with no second member all that went in was one number
      by_contra hle
      obtain ⟨a, ha⟩ : ∃ a, ∀ k ∈ (inserted d (n :: m :: ns)).members, k = a := by
        rcases hms : (inserted d (n :: m :: ns)).members with _ | ⟨a, _ | ⟨b, ms⟩⟩
        · exact ⟨0, by simp⟩
        · exact ⟨a, by simp⟩
        · simp [hms] at hle
      have hsame := List.eq_replicate_of_mem fun k hk => ha k ((hmem k).mpr hk)
      exact h a ns.length hsame

end Selection

/-- The event of a keyword is its own normal form. -/
theorem Keyword.normal_event (k : Keyword) : k.event.normal = k.event := by
  cases k <;> decide

namespace Event

/-- An event is its own normal form if all its selections are. -/
theorem normal_eq_self_iff {e : Event} :
    e.normal = e ↔ ∀ c : Component, (e.get c).normal = e.get c := by
  constructor
  · intro h c
    rw [← get_normal, h]
  · exact fun h => ext_get fun c => (get_normal e c).trans (h c)

open Selection in
/-- **The text of an event that was read is read as the same event, up to how a member is stored.**
What is read has the same text and the same members. It is the very same event if the text from
which the event was read is a keyword, and else if and only if no list of the expression in that
text names one number more than once and no other. -/
theorem parse_text_of_parse {text : String} {e : Event} (h : parse text = .ok e) :
    (∃ e', parse e.text = .ok e' ∧ e'.text = e.text ∧ ∀ c : Component,
      (e'.get c).isPopulated = (e.get c).isPopulated ∧ (e'.get c).members = (e.get c).members) ∧
    ((∃ k : Keyword, k.WrittenIn text ∧ parse e.text = .ok e) ∨
      ∃ (x : Expression) (items : Component → List Item), x.WrittenIn text ∧
        (∀ c : Component, ∀ l ∈ x.list? c, c.Lists l (items c)) ∧
        (parse e.text = .ok e ↔ ∀ c : Component, ∀ l ∈ x.list? c, ∀ n k,
          (items c).flatMap c.numbers ≠ List.replicate (k + 2) n)) := by
  have he := parse_reached h
  -- the text is read as the normal form, so the question is whether the event is in it
  have hself : parse e.text = .ok e ↔ e.normal = e := by
    rw [parse_text_eq he]
    exact ⟨Except.ok.inj, congrArg Except.ok⟩
  refine ⟨⟨e.normal, parse_text_eq he, text_congr (normal_agrees he), fun c => ?_⟩, ?_⟩
  · exact ⟨(normal_agrees he c).isPopulated, (normal_agrees he c).members⟩
  obtain ⟨k, hk, rfl⟩ | ⟨x, items, hx, hitems⟩ := parse_eq_ok_iff.mp h
  · exact .inl ⟨k, hk, hself.mpr k.normal_event⟩
  refine .inr ⟨x, items, hx, hitems.lists, ?_⟩
  rw [hself, normal_eq_self_iff]
  refine forall_congr' fun c => ?_
  cases hl : x.list? c with
  -- what is not written is free, or it is a single 0
  | none =>
    have hnormal : (e.get c).normal = e.get c := by
      rw [hitems.get_unwritten c hl]
      cases c <;> rfl
    simp [hnormal]
  | some l =>
    rw [hitems.get_eq c l hl, normal_inserted_eq_iff c.width_lt (hitems.holds hl)]
    simp

/-- An hour that is named twice, and a minute that is a member of a range and stands alone too. -/
theorem parse_text_of_parse_twice :
    let e : Event :=
      { hour := .many (Selection.flagsOf (Component.domain .hour) [1, 1])
        minute := .many (Selection.flagsOf (Component.domain .minute) [3, 4, 5, 4])
        second := .one 0 }
    parse "1,1:3..5,4" = .ok e ∧ e.text = "*-*-* 01:03..05:00" ∧
      ∃ e', parse e.text = .ok e' ∧ e'.text = e.text ∧ e'.hour.members = [1] ∧
        e'.minute.members = [3, 4, 5] := by
  intro e
  have hparse : parse "1,1:3..5,4" = .ok e := by decide
  obtain ⟨⟨e', hagain, htext, hfields⟩, -⟩ := parse_text_of_parse hparse
  refine ⟨hparse, by decide, e', hagain, htext, ?_, ?_⟩
  · exact (hfields .hour).2.trans (by decide)
  · exact (hfields .minute).2.trans (by decide)

/-- An hour that is named twice does not come back as it was stored. -/
theorem parse_text_ne_self :
    ∃ e e', parse "1,1:00" = .ok e ∧ parse e.text = .ok e' ∧ e' ≠ e := by
  let e : Event :=
    { hour := .many (Selection.flagsOf (Component.domain .hour) [1, 1])
      minute := .one 0
      second := .one 0 }
  have hparse : parse "1,1:00" = .ok e := by decide
  have hagain : parse e.text = .ok { e with hour := .one 1 } := by decide
  exact ⟨e, _, hparse, hagain, by decide⟩

end Event

end Timetable
