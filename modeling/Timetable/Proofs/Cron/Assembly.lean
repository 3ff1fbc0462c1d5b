import Timetable.Proofs.Cron.Section
import Timetable.Proofs.Text.Position

/-!
Taking the own section out of a crontab and putting it in.

The section is found by positions: the start marker at its first one, the end
marker at its first one behind the start marker. What is taken out are the three
slices that the markers leave. Putting the markers back between them gives the
crontab, and parts that are put together with the markers are taken out again,
whatever stands in them but for the two markers that would be found too early. In
particular a beginning of a marker at the end of a part makes none with the marker
behind it.
-/

set_option autoImplicit false

namespace Timetable.OwnSection

open Text

/-- **A crontab is cut at two positions**: at the first one of the start marker, and at the first
one of the end marker among those behind it. -/
theorem find?_eq_some_iff_slices {t : List Char} {o : OwnSection} :
    find? t = some o ↔ ∃ i j, IsFirstFrom startMarker t 0 i ∧
      IsFirstFrom endMarker t (i + startMarker.length) j ∧
      o = ⟨t.take i, (t.take j).drop (i + startMarker.length), t.drop (j + endMarker.length)⟩ := by
  rw [find?_eq_some_iff_cuts]
  constructor
  · rintro ⟨rest, hstart, hend⟩
    obtain ⟨i, hi, hbefore, rfl⟩ := cutAt?_eq_some_iff_isFirstFrom.mp hstart
    obtain ⟨j, hj, hbody, hafter⟩ := cutAt?_drop_eq_some_iff.mp hend
    refine ⟨i, j, hi, hj, ?_⟩
    rw [← hbefore, ← hbody, ← hafter]
  · rintro ⟨i, j, hi, hj, rfl⟩
    exact ⟨t.drop (i + startMarker.length), cutAt?_eq_some_iff_isFirstFrom.mpr ⟨i, hi, rfl, rfl⟩,
      cutAt?_drop_eq_some_iff.mpr ⟨j, hj, rfl, rfl⟩⟩

/-- A crontab is cut unless no end marker stands behind its first start marker. -/
theorem find?_eq_none_iff {t : List Char} : find? t = none ↔
    ∀ i, IsFirstFrom startMarker t 0 i →
      ∀ j, i + startMarker.length ≤ j → ¬ StandsAt endMarker t j := by
  rw [Option.eq_none_iff_forall_ne_some]
  constructor
  · intro h i hi j hle hj
    -- behind the start marker there is then a first end marker
    obtain ⟨j, hfirst⟩ := exists_isFirstFrom_iff.mpr ⟨j, hle, hj⟩
    exact h _ (find?_eq_some_iff_slices.mpr ⟨i, j, hi, hfirst, rfl⟩)
  · intro h o ho
    obtain ⟨i, j, hi, hj, -⟩ := find?_eq_some_iff_slices.mp ho
    exact h i hi j hj.le hj.stands

/-- An end marker in front of the start marker ends nothing. -/
example : find? (endMarker ++ startMarker) = none := by
  decide

/-- The parts are proper if no start marker begins before the end of the first one. -/
theorem isProper_of_not_standsAt {o : OwnSection}
    (hbefore : ∀ i < o.before.length, ¬ StandsAt startMarker o.assemble i)
    (hbody : ¬ endMarker <:+: o.body) : o.IsProper := by
  refine ⟨fun h => ?_, hbody⟩
  obtain ⟨i, hlt, hi⟩ := exists_standsAt_append isLineMark_startMarker.ne_nil h
    (startMarker ++ o.body ++ endMarker ++ o.after)
  exact hbefore i hlt (by simpa [assemble] using hi)

/-- In a crontab that is cut no start marker begins before the end of the first part. -/
theorem not_standsAt_of_find? {t : List Char} {o : OwnSection} (h : find? t = some o) :
    ∀ i < o.before.length, ¬ StandsAt startMarker t i := by
  obtain ⟨n, -, hn, -, rfl⟩ := find?_eq_some_iff_slices.mp h
  intro i hlt
  have hle : (t.take n).length ≤ n := List.length_take_le n t
  exact hn.first i (Nat.zero_le i) (Nat.lt_of_lt_of_le hlt hle)

/-- **A section is taken out of a crontab exactly as it is put in.** A crontab is cut into three
parts if and only if it is made of them with the markers between them, no start marker begins before
the end of the first part, and no end marker stands in the second. It is not cut if and only if it
has no start marker, or no end marker begins at or behind the end of the first start marker. And for
parts that are put together it is enough that the first has no start marker and the second no end
marker in itself: they are found again, whatever the third one is. -/
theorem find?_inverts_assemble (t b s a : List Char) :
    (find? t = some ⟨b, s, a⟩ ↔
      t = b ++ startMarker ++ s ++ endMarker ++ a ∧
        (∀ i < b.length, ¬ StandsAt startMarker t i) ∧ ¬ endMarker <:+: s) ∧
    (find? t = none ↔ ¬ startMarker <:+: t ∨
      ∃ i, IsFirstFrom startMarker t 0 i ∧
        ∀ j, i + startMarker.length ≤ j → ¬ StandsAt endMarker t j) ∧
    (¬ startMarker <:+: b → ¬ endMarker <:+: s →
      find? (b ++ startMarker ++ s ++ endMarker ++ a) = some ⟨b, s, a⟩) := by
  refine ⟨?_, ?_, fun hb hs => find?_assemble (o := ⟨b, s, a⟩) ⟨hb, hs⟩⟩
  · constructor
    · intro h
      obtain ⟨ht, hproper⟩ := find?_eq_some_iff.mp h
      exact ⟨ht, not_standsAt_of_find? h, hproper.body⟩
    · rintro ⟨rfl, hbefore, hbody⟩
      exact find?_assemble (o := ⟨b, s, a⟩) (isProper_of_not_standsAt hbefore hbody)
  -- a crontab with a start marker has a first one, and only one position is the first
  · rw [find?_eq_none_iff]
    constructor
    · intro h
      by_cases hstart : startMarker <:+: t
      · obtain ⟨i, hi⟩ := infix_iff_exists_standsAt.mp hstart
        obtain ⟨i, hi⟩ := exists_isFirstFrom_iff.mpr ⟨i, Nat.zero_le i, hi⟩
        exact .inr ⟨i, hi, h i hi⟩
      · exact .inl hstart
    · rintro (hstart | ⟨i, hi, hend⟩) n hn
      · exact absurd (infix_iff_exists_standsAt.mpr ⟨n, hn.stands⟩) hstart
      · rwa [← hi.unique hn]

/-- The first part ends like a start marker that lacks its line end, the second is a start marker,
and in the third there are both markers again. -/
theorem find?_inverts_assemble_nested :
    let b := startMarker.dropLast
    let s := startMarker
    let a := startMarker ++ endMarker
    let t := b ++ startMarker ++ s ++ endMarker ++ a
    ¬ startMarker <:+: b ∧ ¬ endMarker <:+: s ∧ find? t = some ⟨b, s, a⟩ ∧
      ∀ i < b.length, ¬ StandsAt startMarker t i := by
  intro b s a t
  have hb : ¬ startMarker <:+: b := isLineMark_startMarker.not_infix_of_notMem (by decide)
  have hs : ¬ endMarker <:+: s := by decide +kernel
  obtain ⟨hcut, -, hput⟩ := find?_inverts_assemble t b s a
  have hfind : find? t = some ⟨b, s, a⟩ := hput hb hs
  exact ⟨hb, hs, hfind, (hcut.mp hfind).2.1⟩

end Timetable.OwnSection
