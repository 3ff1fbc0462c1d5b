import Mathlib.Data.List.TakeWhile
import Timetable.Cron.Header
import Timetable.Proofs.Cron.Section

/-!
Where a crontab gets a header.

A header is three comment lines at the top, the first of which begins with words
of its own. So whether a crontab has one depends on these words and on the number
of comments with which it begins. The marker that starts the own section is a
comment as well. It counts if there are only comments before it, and then all
that is before the section may be the top of a header that ends in the section or
behind it.
-/

set_option autoImplicit false

namespace Timetable.Cron

open Text OwnSection

variable {a b r s x y : List Char}

/-! ## Headers -/

/-- The words with which a header begins. -/
def headerStart : List Char :=
  "# DO NOT EDIT THIS FILE".toList

/-- What a header starts with is on one line. -/
theorem newline_notMem_headerStart : '\n' ∉ headerStart := by
  decide

/-- A text that is a header. -/
def IsHeader (x : List Char) : Prop :=
  ∃ a b c, ('\n' ∉ a ∧ '\n' ∉ b ∧ '\n' ∉ c) ∧
    x = headerStart ++ a ++ '\n' :: '#' :: b ++ '\n' :: '#' :: c ++ ['\n']

/-- A line is dropped if it starts in the given way and ends. -/
theorem dropLine?_eq_some_iff {start : String} :
    dropLine? start s = some r ↔ ∃ a, '\n' ∉ a ∧ s = start.toList ++ a ++ '\n' :: r := by
  simp only [dropLine?, Option.bind_eq_bind, Option.bind_eq_some_iff,
    List.isPrefixOf?_eq_some_iff_append_eq]
  constructor
  · rintro ⟨rest, rfl, hrest⟩
    split at hrest
    · cases hrest
    next c t hdrop =>
    obtain rfl := Option.some.inj hrest
    -- the rest of the line is what stands before its line end
    have hsplit := List.takeWhile_append_dropWhile (p := (· != '\n')) (l := rest)
    have hne : rest.dropWhile (· != '\n') ≠ [] := by simp [hdrop]
    have hnewline := List.head_dropWhile_not _ hne
    simp only [hdrop, List.head_cons] at hnewline
    obtain rfl : c = '\n' := by simpa using hnewline
    refine ⟨rest.takeWhile (· != '\n'), fun hmem => ?_, ?_⟩
    · simpa using List.mem_takeWhile_imp hmem
    · rw [List.append_assoc, ← hdrop, hsplit]
  · rintro ⟨a, ha, rfl⟩
    refine ⟨a ++ '\n' :: r, by simp, ?_⟩
    have hall : ∀ c ∈ a, (c != '\n') = true := fun c hc => by
      simpa using fun heq : c = '\n' => ha (heq ▸ hc)
    rw [List.dropWhile_append_of_pos hall]
    simp

/-- **What is behind a header**: the crontab is a header with this text behind it. -/
theorem behindHeader?_eq_some_iff :
    behindHeader? s = some r ↔ ∃ x, IsHeader x ∧ s = x ++ r := by
  have hstart : "# DO NOT EDIT THIS FILE".toList = headerStart := rfl
  have hcomment : "#".toList = ['#'] := rfl
  simp only [behindHeader?, Option.bind_eq_bind, Option.bind_eq_some_iff, dropLine?_eq_some_iff,
    hstart, hcomment, List.singleton_append]
  constructor
  · rintro ⟨_, ⟨a, ha, rfl⟩, _, ⟨b, hb, rfl⟩, c, hc, rfl⟩
    exact ⟨_, ⟨a, b, c, ⟨ha, hb, hc⟩, rfl⟩, by simp⟩
  · rintro ⟨_, ⟨a, b, c, ⟨ha, hb, hc⟩, rfl⟩, rfl⟩
    exact ⟨'#' :: b ++ '\n' :: ('#' :: c ++ '\n' :: r), ⟨a, ha, by simp⟩,
      '#' :: c ++ '\n' :: r, ⟨b, hb, rfl⟩, c, hc, rfl⟩

/-- A text has a header exactly if one stands in front of a rest. -/
theorem hasHeader_iff_exists : hasHeader s = true ↔ ∃ x r, IsHeader x ∧ s = x ++ r := by
  rw [hasHeader, Option.isSome_iff_exists]
  simp only [behindHeader?_eq_some_iff]
  exact exists_comm

/-- A header stays one, whatever is put behind it. -/
theorem hasHeader_append (h : hasHeader s = true) (r : List Char) : hasHeader (s ++ r) = true := by
  obtain ⟨x, r', hx, rfl⟩ := hasHeader_iff_exists.mp h
  exact hasHeader_iff_exists.mpr ⟨x, r' ++ r, hx, by simp⟩

/-! ## Comments at the top -/

/-- The number of comment lines with which a text begins. -/
def topComments (s : List Char) : Nat :=
  ((lines s).takeWhile fun l => l.head? == some '#' && l.getLast? == some '\n').length

/-- A line that does not end is not counted. -/
theorem topComments_of_notMem (h : '\n' ∉ a) : topComments a = 0 := by
  obtain rfl | hne := eq_or_ne a []
  · simp [topComments]
  · have hlast : a.getLast? ≠ some '\n' := fun hlast => h (List.mem_of_getLast? hlast)
    simp [topComments, lines_of_notMem h hne, hlast]

/-- A line end does not make a line a comment. -/
theorem head?_append_newline_iff : (a ++ ['\n']).head? = some '#' ↔ a.head? = some '#' := by
  cases a <;> simp

/-- The comments on top are counted line by line, up to the first line that is none. -/
theorem topComments_append_newline (h : '\n' ∉ a) :
    topComments (a ++ '\n' :: b) = if a.head? = some '#' then topComments b + 1 else 0 := by
  rw [topComments, lines_append_newline h, List.takeWhile_cons]
  by_cases hcomment : a.head? = some '#'
  · simp [hcomment, topComments]
  · have hline : ¬ (a ++ ['\n']).head? = some '#' := by rwa [head?_append_newline_iff]
    simp only [hcomment, hline, beq_iff_eq, Bool.and_eq_true, false_and, if_false, List.length_nil]

/-- In particular a comment on top is one more. -/
theorem topComments_comment_append (h : '\n' ∉ a) :
    topComments ('#' :: a ++ '\n' :: b) = topComments b + 1 := by
  rw [topComments_append_newline (by simp [h]), List.head?_cons, if_pos rfl]

/-- A text that begins with a comment. -/
theorem exists_of_lt_topComments {n : Nat} (h : n < topComments s) :
    ∃ a r, '\n' ∉ a ∧ s = '#' :: a ++ '\n' :: r ∧ n ≤ topComments r := by
  induction s using line_induction with
  | last a ha => simp [topComments_of_notMem ha] at h
  | line a b ha ih =>
    rw [topComments_append_newline ha] at h
    split at h
    · next hcomment =>
      obtain ⟨a, rfl⟩ := List.head?_eq_some_iff.mp hcomment
      exact ⟨a, b, fun hmem => ha (List.mem_cons_of_mem _ hmem), rfl, by omega⟩
    · exact absurd h (Nat.not_lt_zero n)

/-- **A crontab has a header** if it begins with the words of one and with three comments. -/
theorem hasHeader_iff : hasHeader s = true ↔ headerStart <+: s ∧ 3 ≤ topComments s := by
  rw [hasHeader_iff_exists]
  constructor
  · rintro ⟨_, r, ⟨a, b, c, ⟨ha, hb, hc⟩, rfl⟩, rfl⟩
    refine ⟨⟨a ++ '\n' :: '#' :: b ++ '\n' :: '#' :: c ++ '\n' :: r, by simp⟩, ?_⟩
    have hfirst : headerStart ++ a = '#' :: (headerStart.tail ++ a) := rfl
    have hlines : headerStart ++ a ++ '\n' :: '#' :: b ++ '\n' :: '#' :: c ++ ['\n'] ++ r =
        '#' :: (headerStart.tail ++ a) ++ '\n' ::
          ('#' :: b ++ '\n' :: ('#' :: c ++ '\n' :: r)) := by
      rw [hfirst]
      simp
    rw [hlines, topComments_comment_append, topComments_comment_append hb,
      topComments_comment_append hc]
    · omega
    · rw [List.mem_append]
      exact not_or.mpr ⟨by decide, ha⟩
  · rintro ⟨hstart, hcomments⟩
    obtain ⟨a, s₁, ha, rfl, h₁⟩ := exists_of_lt_topComments hcomments
    obtain ⟨b, s₂, hb, rfl, h₂⟩ := exists_of_lt_topComments h₁
    obtain ⟨c, r, hc, rfl, -⟩ := exists_of_lt_topComments h₂
    -- the words of a header are on the first line
    rw [prefix_append_cons_iff newline_notMem_headerStart] at hstart
    obtain ⟨a', ha'⟩ := hstart
    have hmem : '\n' ∉ a' := fun hmem => by
      have hline : '\n' ∈ '#' :: a := ha' ▸ List.mem_append_right headerStart hmem
      simp [ha] at hline
    exact ⟨_, r, ⟨a', b, c, ⟨hmem, hb, hc⟩, rfl⟩, by rw [ha']; simp⟩

/-! ## Comments before and behind the start marker -/

/-- **The start marker is counted** if all that is before it are comments; if not, nothing is
counted but what is before it. -/
theorem topComments_append_startMarker (b x : List Char) :
    topComments (b ++ startMarker ++ x) =
      if ∀ l ∈ lines b, l.head? = some '#' then b.count '\n' + 1 + topComments x
      else topComments b := by
  have hmarker : startMarker = '#' :: startMarker.tail.dropLast ++ ['\n'] := by decide
  induction b using line_induction with
  | last a ha =>
    -- what is before the marker is on the same line
    have hline : '\n' ∉ a ++ '#' :: startMarker.tail.dropLast := by
      rw [List.mem_append]
      exact not_or.mpr ⟨ha, by decide⟩
    have hshape : a ++ startMarker ++ x =
        (a ++ '#' :: startMarker.tail.dropLast) ++ '\n' :: x := by
      rw [hmarker]
      simp
    have hcount : a.count '\n' = 0 := List.count_eq_zero.mpr ha
    rw [hshape, topComments_append_newline hline, topComments_of_notMem ha, hcount]
    obtain rfl | hne := eq_or_ne a []
    · simp [Nat.add_comm]
    · have hhead : (a ++ '#' :: startMarker.tail.dropLast).head? = a.head? :=
        List.head?_append_of_ne_nil a hne
      simp only [hhead, lines_of_notMem ha hne, List.mem_singleton, forall_eq, Nat.zero_add,
        Nat.add_comm]
  | line a b ha ih =>
    have hcount : (a ++ '\n' :: b).count '\n' = b.count '\n' + 1 := by
      rw [List.count_append, List.count_eq_zero.mpr ha, List.count_cons_self, Nat.zero_add]
    rw [List.append_assoc, List.append_assoc, List.cons_append, topComments_append_newline ha,
      ← List.append_assoc, ih, topComments_append_newline ha, lines_append_newline ha, hcount]
    simp only [List.mem_cons, forall_eq_or_imp, head?_append_newline_iff]
    by_cases hcomment : a.head? = some '#'
    · simp only [hcomment, if_true, true_and]
      split
      · omega
      · rfl
    · simp only [hcomment, if_false, false_and]

/-- A header that is begun before the own section and ends in it or behind it: what is before the
section begins with the words of a header and is all comments, and with those at the top of what is
behind the start marker there are enough of them. -/
structure IsCompleted (before behind : List Char) : Prop where
  start : headerStart <+: before
  comments : ∀ l ∈ lines before, l.head? = some '#'
  enough : 2 ≤ before.count '\n' + topComments behind

instance (before behind : List Char) : Decidable (IsCompleted before behind) :=
  decidable_of_iff (headerStart <+: before ∧ (∀ l ∈ lines before, l.head? = some '#') ∧
      2 ≤ before.count '\n' + topComments behind)
    ⟨fun ⟨hstart, hcomments, henough⟩ => ⟨hstart, hcomments, henough⟩,
      fun ⟨hstart, hcomments, henough⟩ => ⟨hstart, hcomments, henough⟩⟩

/-- The words of a header do not reach into the start marker. -/
theorem headerStart_prefix_append_startMarker_iff :
    headerStart <+: b ++ startMarker ++ x ↔ headerStart <+: b := by
  have hstart : headerStart = '#' :: headerStart.tail := by decide
  have hmarker : startMarker = '#' :: startMarker.tail := by decide
  cases b with
  | nil =>
    -- the second characters differ
    have hnot : ¬ headerStart <+: startMarker ++ x := by
      have hwords : headerStart.tail = ' ' :: headerStart.tail.tail := by decide
      have hsigns : startMarker.tail = '#' :: startMarker.tail.tail := by decide
      rw [hstart, hmarker, List.cons_append, List.cons_prefix_cons, hwords, hsigns,
        List.cons_append, List.cons_prefix_cons]
      exact fun h => absurd h.2.1 (by decide)
    exact ⟨fun h => absurd h hnot, fun h => absurd (List.prefix_nil.mp h) (by decide)⟩
  | cons c b =>
    -- only the first character of the words is a number sign
    have htail : '#' ∉ headerStart.tail := by decide
    rw [hstart, List.append_assoc, List.cons_append, List.cons_prefix_cons, List.cons_prefix_cons,
      hmarker, List.cons_append, prefix_append_cons_iff htail]

/-- **What has a header with the own section in it**: what is before the section has one, or one is
begun there and completed. -/
theorem hasHeader_append_startMarker_iff :
    hasHeader (b ++ startMarker ++ x) = true ↔ hasHeader b = true ∨ IsCompleted b x := by
  constructor
  · intro h
    obtain ⟨hstart, hcomments⟩ := hasHeader_iff.mp h
    rw [headerStart_prefix_append_startMarker_iff] at hstart
    rw [topComments_append_startMarker] at hcomments
    -- if all lines before the section are comments, then the marker is one more of them
    split at hcomments
    · next hall => exact .inr ⟨hstart, hall, by omega⟩
    · exact .inl (hasHeader_iff.mpr ⟨hstart, hcomments⟩)
  · rintro (h | ⟨hstart, hall, henough⟩)
    · rw [List.append_assoc]
      exact hasHeader_append h _
    · refine hasHeader_iff.mpr ⟨headerStart_prefix_append_startMarker_iff.mpr hstart, ?_⟩
      rw [topComments_append_startMarker, if_pos hall]
      omega

/-- Where there is no header, nothing is dropped. -/
theorem dropHeader_of_not_hasHeader (h : hasHeader s = false) : dropHeader s = s := by
  rw [hasHeader, Option.isSome_eq_false_iff, Option.isNone_iff_eq_none] at h
  rw [dropHeader, h, Option.getD_none]

/-- Where there is one, exactly that is dropped. -/
theorem dropHeader_append (hx : IsHeader x) : dropHeader (x ++ r) = r := by
  rw [dropHeader, behindHeader?_eq_some_iff.mpr ⟨x, hx, rfl⟩, Option.getD_some]

/-- **The own section is left when the header is dropped**, unless the header ends behind its start
marker. -/
theorem suffix_dropHeader_iff :
    startMarker ++ x <:+ dropHeader (b ++ startMarker ++ x) ↔
      ¬ (hasHeader b = false ∧ IsCompleted b x) := by
  by_cases hb : hasHeader b = true
  · -- what is before the section has the whole header
    obtain ⟨y, r, hy, rfl⟩ := hasHeader_iff_exists.mp hb
    have hdrop : dropHeader (y ++ r ++ startMarker ++ x) = r ++ (startMarker ++ x) := by
      rw [List.append_assoc, List.append_assoc, dropHeader_append hy]
    rw [hdrop]
    simp [hb]
  · rw [Bool.not_eq_true] at hb
    by_cases hcompleted : IsCompleted b x
    · -- what remains is shorter than the section and what is behind it
      obtain ⟨y, r, hy, heq⟩ :=
        hasHeader_iff_exists.mp (hasHeader_append_startMarker_iff.mpr (.inr hcompleted))
      have hnot : ¬ startMarker ++ x <:+ r := by
        intro hsuffix
        have hlength := hsuffix.length_le
        rw [List.append_assoc] at heq
        obtain ⟨k, rfl, hk⟩ | ⟨k, rfl, -⟩ := List.append_eq_append_iff.mp heq
        · obtain rfl : k = [] := by
            rw [hk, List.length_append] at hlength
            exact List.length_eq_zero_iff.mp (by omega)
          rw [hasHeader_iff_exists.mpr ⟨_, [], hy, by rw [List.append_nil, List.append_nil]⟩] at hb
          exact Bool.noConfusion hb
        · rw [hasHeader_iff_exists.mpr ⟨y, k, hy, rfl⟩] at hb
          exact Bool.noConfusion hb
      rw [heq, dropHeader_append hy]
      simp [hnot, hb, hcompleted]
    · have hnone : hasHeader (b ++ startMarker ++ x) = false := by
        rw [← Bool.not_eq_true, hasHeader_append_startMarker_iff]
        simp [hb, hcompleted]
      rw [dropHeader_of_not_hasHeader hnone, List.append_assoc]
      simp [hcompleted]

/-! ## Crontabs without a header -/

/-- A header is three lines, and all of them are comments. -/
theorem IsHeader.comments (hx : IsHeader x) :
    (∀ l ∈ lines x, l.head? = some '#') ∧ x.count '\n' = 3 := by
  obtain ⟨a, b, c, ⟨ha, hb, hc⟩, rfl⟩ := hx
  have hfirst : '\n' ∉ headerStart ++ a := by
    rw [List.mem_append]
    exact not_or.mpr ⟨newline_notMem_headerStart, ha⟩
  have hshape : headerStart ++ a ++ '\n' :: '#' :: b ++ '\n' :: '#' :: c ++ ['\n'] =
      headerStart ++ a ++ '\n' :: ('#' :: b ++ '\n' :: ('#' :: c ++ '\n' :: [])) := by simp
  -- each of the three lines ends at its own line end
  rw [hshape, lines_append_newline hfirst, lines_append_newline (by simp [hb]),
    lines_append_newline (by simp [hc]), lines_nil]
  constructor
  · have hhead : (headerStart ++ a ++ ['\n']).head? = some '#' := rfl
    simp only [List.mem_cons, List.not_mem_nil, or_false, forall_eq_or_imp, forall_eq, hhead,
      List.cons_append, List.head?_cons, and_self]
  · rw [List.count_append, List.count_eq_zero.mpr hfirst]
    simp [List.count_eq_zero.mpr hb, List.count_eq_zero.mpr hc]

/-- Where a line end completes a header, there are only comments before it. -/
theorem isCompleted_of_hasHeader_append_newline (h : hasHeader s = false)
    (hline : hasHeader (s ++ ['\n']) = true) (x : List Char) : IsCompleted (s ++ ['\n']) x := by
  obtain ⟨y, r, hy, heq⟩ := hasHeader_iff_exists.mp hline
  obtain rfl | ⟨r, c, rfl⟩ := List.eq_nil_or_concat r
  · rw [List.append_nil] at heq
    obtain ⟨hcomments, hcount⟩ := heq ▸ hy.comments
    exact ⟨(hasHeader_iff.mp hline).1, hcomments, by omega⟩
  · -- the header would be there without the line end
    rw [List.concat_eq_append, ← List.append_assoc] at heq
    exact absurd (hasHeader_iff_exists.mpr ⟨y, r, hy, (List.append_inj' heq rfl).1⟩) (by simp [h])

/-- **How a crontab comes to have a header**: one that has none has one with a new body in its
section exactly if the section completes what is begun before it. -/
theorem hasHeader_assemble_iff (h : hasHeader s = false) (body : List Char) :
    hasHeader { ofText s with body : OwnSection }.assemble = true ↔
      IsCompleted (ofText s).before (body ++ endMarker ++ (ofText s).after) := by
  have hshape : { ofText s with body : OwnSection }.assemble =
      (ofText s).before ++ startMarker ++ (body ++ endMarker ++ (ofText s).after) := by
    simp [assemble]
  rw [hshape, hasHeader_append_startMarker_iff, or_iff_right_iff_imp]
  intro hbefore
  cases hfind : find? s with
  | some o =>
    -- a header before the section would be one of the crontab
    rw [ofText, hfind, Option.getD_some] at hbefore
    obtain ⟨rfl, -⟩ := find?_eq_some_iff.mp hfind
    rw [assemble, List.append_assoc, List.append_assoc, List.append_assoc,
      hasHeader_append hbefore] at h
    exact Bool.noConfusion h
  | none =>
    rw [ofText, hfind, Option.getD_none] at hbefore ⊢
    exact isCompleted_of_hasHeader_append_newline h hbefore _

end Timetable.Cron
