import Mathlib.Algebra.Group.Nat.Defs
import Mathlib.Data.List.Infix
import Timetable.Text.Utf8

/-!
Texts out of bytes, and bytes out of texts.

A text has one sequence of bytes, and these bytes give the text back. Other bytes
give a text as well, in which the faulty stretches are replaced, and then the
bytes of that text are others. In any case an ASCII character is one byte of its
own: no byte of another character is an ASCII byte, and what stands for a fault
is no ASCII character. So bytes may be cut at an ASCII character before or after
they are made a text.
-/

set_option autoImplicit false

namespace Timetable.Text

/-! ## The bytes of a text -/

/-- The bytes of a text. -/
def bytesOf (s : List Char) : List UInt8 :=
  s.flatMap String.utf8EncodeChar

@[simp] theorem bytesOf_append (s t : List Char) : bytesOf (s ++ t) = bytesOf s ++ bytesOf t :=
  List.flatMap_append

/-- The bytes that the core library makes of a text are the bytes of its characters, one after
another. -/
theorem toList_data_toUTF8 (s : List Char) : (String.ofList s).toUTF8.data.toList = bytesOf s := by
  rw [String.toUTF8_eq_toByteArray, String.toByteArray_ofList, List.utf8Encode,
    List.data_toByteArray]
  rfl

/-- Bytes that are those of a text. -/
def IsUtf8 (bytes : List UInt8) : Prop :=
  ∃ s, bytes = bytesOf s

/-- The core library decodes bytes exactly if they are those of a text. -/
theorem fromUTF8?_eq_some_iff {bytes : ByteArray} {text : String} :
    String.fromUTF8? bytes = some text ↔ bytes = text.toUTF8 := by
  rw [String.fromUTF8?]
  constructor
  · intro h
    split at h
    · rw [← Option.some.inj h]
      rfl
    · cases h
  · rintro rfl
    exact dif_pos text.isValidUTF8

/-- In the bytes of a text there is nothing to replace. -/
theorem lossyText_toUTF8 (text : String) : lossyText text.toUTF8 = text := by
  rw [lossyText, fromUTF8?_eq_some_iff.mpr rfl]

/-! ## States of the decoding -/

/-- The text that is shown when the bytes end. -/
def shown : List Char × Option PartialChar → List Char
  | (done, none) => done.reverse
  | (done, some _) => (replacement :: done).reverse

/-- Decoding is a fold over the bytes, and at the end a character that has begun is a fault. -/
theorem charsOfBytes_eq (bytes : List UInt8) :
    charsOfBytes bytes = shown (bytes.foldl stepByte ([], none)) := by
  rw [charsOfBytes]
  split
  · next h => rw [h, shown]
  · next h => rw [h, shown]

/-- What is decoded already stays before what is decoded next. -/
theorem stepByte_append (done early : List Char) (pending : Option PartialChar) (b : UInt8) :
    stepByte (done ++ early, pending) b =
      ((stepByte (done, pending) b).1 ++ early, (stepByte (done, pending) b).2) := by
  have hstart (done : List Char) : startChar (done ++ early) b =
      ((startChar done b).1 ++ early, (startChar done b).2) := by
    simp only [startChar]
    split
    · rfl
    · split <;> rfl
  -- a pending character ends with the byte, goes on, or is given up for a fault
  cases pending with
  | none => exact hstart done
  | some p =>
    simp only [stepByte]
    split
    · split <;> rfl
    · exact hstart (replacement :: done)

/-- So the characters decoded first can be put in front at the end of a fold as well. -/
theorem foldl_stepByte_append (bytes : List UInt8) (done early : List Char)
    (pending : Option PartialChar) :
    bytes.foldl stepByte (done ++ early, pending) =
      ((bytes.foldl stepByte (done, pending)).1 ++ early,
        (bytes.foldl stepByte (done, pending)).2) := by
  induction bytes generalizing done pending with
  | nil => rfl
  | cons b bytes ih => rw [List.foldl_cons, stepByte_append, ih, List.foldl_cons]

/-- And in front of what is shown. -/
theorem shown_append (done early : List Char) (pending : Option PartialChar) :
    shown (done ++ early, pending) = early.reverse ++ shown (done, pending) := by
  cases pending <;> simp [shown]

/-- Where no character is pending, decoding starts anew. -/
theorem shown_foldl (bytes : List UInt8) (done : List Char) :
    shown (bytes.foldl stepByte (done, none)) = done.reverse ++ charsOfBytes bytes := by
  have h := foldl_stepByte_append bytes [] done none
  rw [List.nil_append] at h
  rw [h, shown_append, charsOfBytes_eq]

/-- A byte is decoded, or it is pending. -/
theorem charsOfBytes_eq_nil {bytes : List UInt8} (h : charsOfBytes bytes = []) : bytes = [] := by
  obtain rfl | ⟨bytes, b, rfl⟩ := List.eq_nil_or_concat bytes
  · rfl
  have hstart (done : List Char) : shown (startChar done b) ≠ [] := by
    simp only [startChar]
    split
    · simp [shown]
    · split <;> simp [shown]
  have hstep (state : List Char × Option PartialChar) : shown (stepByte state b) ≠ [] := by
    obtain ⟨done, _ | p⟩ := state
    · exact hstart done
    · simp only [stepByte]
      split
      · split <;> simp [shown]
      · exact hstart _
  -- the last byte alone shows something, whatever came before it
  rw [charsOfBytes_eq, List.concat_eq_append, List.foldl_append] at h
  exact absurd h (hstep _)

/-! ## Characters of several bytes -/

namespace PartialChar

/-- The first number that can come out. -/
def first (p : PartialChar) : Nat :=
  (p.value * 64 + (p.low.toNat - 0x80)) * 64 ^ (p.owed - 1)

/-- The number behind the last one that can come out. -/
def limit (p : PartialChar) : Nat :=
  (p.value * 64 + (p.high.toNat - 0x80) + 1) * 64 ^ (p.owed - 1)

/-- A pending character that comes to a good end: the next byte is no ASCII byte, and every number
that can come out is a character, and not an ASCII one. -/
structure IsProper (p : PartialChar) : Prop where
  owed : 0 < p.owed
  low : 0x80 ≤ p.low.toNat
  high : p.high.toNat ≤ 0xBF
  number : ∀ n, p.first ≤ n → n < p.limit → 0x80 ≤ n ∧ n.isValidChar

/-- A leading byte sets bounds on the next one, such that nothing but a character of several bytes
can come out. -/
theorem isProper_of_ofLead? {b : UInt8} {p : PartialChar} (h : ofLead? b = some p) :
    p.IsProper := by
  have hb : b.toNat < 256 := b.toNat_lt
  simp only [ofLead?, beq_iff_eq] at h
  -- the leading bytes with the same bounds on the next byte are taken together
  repeat' split at h
  all_goals simp only [reduceCtorEq, Option.some.injEq] at h
  all_goals
    subst h
    refine ⟨by simp, by simp, by simp, fun n hfirst hlimit => ?_⟩
    simp only [first, limit] at hfirst hlimit
    simp [Nat.isValidChar] at hfirst hlimit ⊢
    omega

/-- The next byte leaves fewer numbers to come out. -/
theorem IsProper.next {p : PartialChar} (hp : p.IsProper) (howed : p.owed ≠ 1) {b : UInt8}
    (hlow : p.low.toNat ≤ b.toNat) (hhigh : b.toNat ≤ p.high.toNat) :
    IsProper ⟨p.value * 64 + (b.toNat - 0x80), p.owed - 1, 0x80, 0xBF⟩ := by
  obtain ⟨value, owed, low, high⟩ := p
  have hpositive := hp.owed
  obtain ⟨k, rfl⟩ : ∃ k, owed = k + 2 := ⟨owed - 2, by simp only at hpositive howed; omega⟩
  let next : PartialChar := ⟨value * 64 + (b.toNat - 0x80), k + 1, 0x80, 0xBF⟩
  have hpow : 64 ^ (k + 1) = 64 * 64 ^ k := by rw [Nat.pow_succ, Nat.mul_comm]
  -- the numbers that can still come out are those that have this byte in its place
  have hfirst : next.first = (value * 64 + (b.toNat - 0x80)) * 64 ^ (k + 1) := by
    simp [next, first, hpow, Nat.mul_assoc]
  have hlimit : next.limit = (value * 64 + (b.toNat - 0x80) + 1) * 64 ^ (k + 1) := by
    simp [next, limit, hpow, ← Nat.mul_assoc, Nat.add_mul]
    omega
  have hlow' : value * 64 + (low.toNat - 0x80) ≤ value * 64 + (b.toNat - 0x80) := by
    simp only at hlow
    omega
  have hhigh' : value * 64 + (b.toNat - 0x80) + 1 ≤ value * 64 + (high.toNat - 0x80) + 1 := by
    simp only at hhigh
    omega
  refine ⟨Nat.succ_pos k, by simp, by simp, fun n hn hn' => hp.number n ?_ ?_⟩
  · exact (Nat.mul_le_mul_right _ hlow').trans (hfirst.symm.le.trans hn)
  · exact hn'.trans_le (hlimit.le.trans (Nat.mul_le_mul_right _ hhigh'))

/-- With the last byte a number comes out. -/
theorem IsProper.last {p : PartialChar} (hp : p.IsProper) (howed : p.owed = 1) {b : UInt8}
    (hlow : p.low.toNat ≤ b.toNat) (hhigh : b.toNat ≤ p.high.toNat) :
    0x80 ≤ p.value * 64 + (b.toNat - 0x80) ∧ (p.value * 64 + (b.toNat - 0x80)).isValidChar := by
  refine hp.number _ ?_ ?_
  · rw [first, howed]
    omega
  · rw [limit, howed]
    omega

end PartialChar

/-- A number that is a character's is not changed by making it one. -/
theorem toNat_ofNat {n : Nat} (h : n.isValidChar) : (Char.ofNat n).toNat = n := by
  rw [Char.ofNat, dif_pos h]
  rfl

/-! ## ASCII characters -/

/-- A state that decoding some bytes leads to: what is pending comes to a good end, and the ASCII
characters are among the bytes. -/
structure IsStateOf (bytes : List UInt8) (state : List Char × Option PartialChar) : Prop where
  pending : ∀ p, state.2 = some p → p.IsProper
  ascii : ∀ c ∈ state.1, c.toNat < 0x80 → UInt8.ofNat c.toNat ∈ bytes

namespace IsStateOf

variable {bytes : List UInt8} {done : List Char} {pending : Option PartialChar}

/-- A byte where no character is pending: it is an ASCII character, it begins one of several bytes,
or it is a fault. -/
theorem startChar (h : ∀ c ∈ done, c.toNat < 0x80 → UInt8.ofNat c.toNat ∈ bytes) (b : UInt8) :
    IsStateOf (bytes ++ [b]) (startChar done b) := by
  have hdone : ∀ c ∈ done, c.toNat < 0x80 → UInt8.ofNat c.toNat ∈ bytes ++ [b] :=
    fun c hc hascii => List.mem_append_left _ (h c hc hascii)
  simp only [Text.startChar]
  split
  · next hb =>
    refine ⟨nofun, fun c hc hascii => ?_⟩
    obtain rfl | hc := List.mem_cons.mp hc
    · have hlt : b.toNat < 0x80 := UInt8.lt_iff_toNat_lt.mp hb
      rw [toNat_ofNat (.inl (by omega)), UInt8.ofNat_toNat]
      exact List.mem_append_right bytes (List.mem_singleton_self b)
    · exact hdone c hc hascii
  · split
    -- it begins a character of several bytes
    · next p hp =>
      exact ⟨fun q hq => Option.some.inj hq ▸ PartialChar.isProper_of_ofLead? hp, hdone⟩
    · refine ⟨nofun, fun c hc hascii => ?_⟩
      obtain rfl | hc := List.mem_cons.mp hc
      · exact absurd hascii (by decide)
      · exact hdone c hc hascii

/-- One more byte. -/
theorem stepByte {state : List Char × Option PartialChar} (h : IsStateOf bytes state) (b : UInt8) :
    IsStateOf (bytes ++ [b]) (stepByte state b) := by
  obtain ⟨done, _ | p⟩ := state
  -- nothing is owed, so the byte begins a character
  · exact .startChar h.ascii b
  have hp := h.pending p rfl
  simp only [Text.stepByte]
  split
  · next hbounds =>
    simp only [Bool.and_eq_true, decide_eq_true_eq, UInt8.le_iff_toNat_le] at hbounds
    split
    · -- the last byte of a character: the number has come out
      next howed =>
      refine ⟨nofun, fun c hc hascii => ?_⟩
      obtain heq | hc := List.mem_cons.mp hc
      · obtain ⟨hnumber, hvalid⟩ := hp.last (beq_iff_eq.mp howed) hbounds.1 hbounds.2
        rw [heq, toNat_ofNat hvalid] at hascii
        omega
      · exact List.mem_append_left _ (h.ascii c hc hascii)
    · next howed =>
      refine ⟨fun q hq => ?_, fun c hc hascii => List.mem_append_left _ (h.ascii c hc hascii)⟩
      obtain rfl := Option.some.inj hq
      exact hp.next (by simpa using howed) hbounds.1 hbounds.2
  -- the byte does not fit: a replacement is shown, which is not of ASCII
  · refine .startChar (fun c hc hascii => ?_) b
    obtain rfl | hc := List.mem_cons.mp hc
    · exact absurd hascii (by decide)
    · exact h.ascii c hc hascii

/-- Decoding from the start, one byte after another. -/
theorem foldl (bytes : List UInt8) : IsStateOf bytes (bytes.foldl Text.stepByte ([], none)) := by
  induction bytes using List.reverseRecOn with
  | nil => exact ⟨nofun, nofun⟩
  | append_singleton bytes b ih =>
    rw [List.foldl_append]
    exact ih.stepByte b

end IsStateOf

/-- A byte that is an ASCII character is shown as it, behind what is shown without it. -/
theorem stepByte_ascii {bytes : List UInt8} {state : List Char × Option PartialChar}
    (h : IsStateOf bytes state) {b : UInt8} (hb : b.toNat < 0x80) :
    stepByte state b = (Char.ofNat b.toNat :: (shown state).reverse, none) := by
  have hstart (done : List Char) : startChar done b = (Char.ofNat b.toNat :: done, none) := by
    rw [startChar, if_pos (UInt8.lt_iff_toNat_lt.mpr hb)]
  obtain ⟨done, _ | p⟩ := state
  · rw [stepByte, hstart, shown, List.reverse_reverse]
  · -- the byte cannot be the next one of a character
    have hbounds : ¬ (decide (p.low ≤ b) && decide (b ≤ p.high)) = true := by
      have hlow := (h.pending p rfl).low
      simp only [Bool.and_eq_true, decide_eq_true_eq, UInt8.le_iff_toNat_le]
      omega
    rw [stepByte, if_neg hbounds, hstart, shown, List.reverse_reverse]

/-- **Bytes may be cut at an ASCII character** before they are decoded. -/
theorem charsOfBytes_append_cons (u v : List UInt8) {b : UInt8} (hb : b.toNat < 0x80) :
    charsOfBytes (u ++ b :: v) = charsOfBytes u ++ Char.ofNat b.toNat :: charsOfBytes v := by
  rw [charsOfBytes_eq, List.foldl_append, List.foldl_cons, stepByte_ascii (.foldl u) hb,
    shown_foldl, List.reverse_cons, List.reverse_reverse, ← charsOfBytes_eq]
  simp

/-- An ASCII character is shown only where its byte is. -/
theorem mem_of_mem_charsOfBytes {bytes : List UInt8} {c : Char} (hc : c.toNat < 0x80)
    (h : c ∈ charsOfBytes bytes) : UInt8.ofNat c.toNat ∈ bytes := by
  refine (IsStateOf.foldl bytes).ascii c ?_ hc
  rw [charsOfBytes] at h
  split at h
  · next done hdone => simpa [hdone] using h
  · next done p hdone =>
    rw [List.mem_reverse, List.mem_cons] at h
    rw [hdone]
    exact h.resolve_left fun heq => absurd (heq ▸ hc) (by decide)

/-- An ASCII character fits into a byte. -/
theorem toNat_byte {c : Char} (hc : c.toNat < 0x80) : (UInt8.ofNat c.toNat).toNat = c.toNat := by
  rw [UInt8.toNat_ofNat']
  omega

/-- **A text may be cut at an ASCII character** and so are its bytes. -/
theorem exists_of_charsOfBytes_eq {bytes : List UInt8} {c : Char} (hc : c.toNat < 0x80)
    {x y : List Char} (h : charsOfBytes bytes = x ++ c :: y) :
    ∃ u v, bytes = u ++ UInt8.ofNat c.toNat :: v ∧ charsOfBytes u = x ∧ charsOfBytes v = y := by
  induction hlength : bytes.length using Nat.strongRecOn generalizing bytes x with
  | ind n ih =>
    -- the first place of the byte is the first place of the character
    obtain ⟨u, v, rfl, hu⟩ :=
      List.eq_append_cons_of_mem (mem_of_mem_charsOfBytes hc (h ▸ by simp : c ∈ charsOfBytes bytes))
    have hb : (UInt8.ofNat c.toNat).toNat < 0x80 := by rwa [toNat_byte hc]
    rw [charsOfBytes_append_cons u v hb, toNat_byte hc, Char.ofNat_toNat] at h
    have hnot : c ∉ charsOfBytes u := fun hmem => hu (mem_of_mem_charsOfBytes hc hmem)
    obtain ⟨k, hx, hk⟩ | ⟨k, hu', hk⟩ := List.append_eq_append_iff.mp h
    · cases k with
      | nil =>
        obtain ⟨-, rfl⟩ := List.cons.inj hk
        exact ⟨u, v, rfl, by simpa using hx.symm, rfl⟩
      | cons d k =>
        -- the character is looked for behind the first place
        obtain ⟨rfl, hv⟩ := List.cons.inj hk
        obtain ⟨u', v', rfl, hu', hv'⟩ := ih v.length (by simp [← hlength]; omega) hv rfl
        refine ⟨u ++ UInt8.ofNat c.toNat :: u', v', by simp, ?_, hv'⟩
        rw [charsOfBytes_append_cons u u' hb, toNat_byte hc, Char.ofNat_toNat, hu', hx]
    · cases k with
      | nil =>
        obtain ⟨-, rfl⟩ := List.cons.inj hk
        exact ⟨u, v, rfl, by simpa using hu', rfl⟩
      | cons d k =>
        obtain ⟨rfl, -⟩ := List.cons.inj hk
        exact absurd (by simp [hu']) hnot

/-! ## Bytes of a text -/

section Encoded

variable {done : List Char} {value owed : Nat} {low high b : UInt8}

/-- A byte within the bounds that is not the last one of a character adds six bits. -/
theorem stepByte_next (hlow : low.toNat ≤ b.toNat) (hhigh : b.toNat ≤ high.toNat) :
    stepByte (done, some ⟨value, owed + 2, low, high⟩) b =
      (done, some ⟨value * 64 + (b.toNat - 0x80), owed + 1, 0x80, 0xBF⟩) := by
  have hbounds : (decide (low ≤ b) && decide (b ≤ high)) = true := by
    simp [UInt8.le_iff_toNat_le, hlow, hhigh]
  have howed : ¬ ((owed + 2 == 1) = true) := by simp
  rw [stepByte, if_pos hbounds, if_neg howed]
  rfl

/-- The last byte of a character gives it. -/
theorem stepByte_last (hlow : low.toNat ≤ b.toNat) (hhigh : b.toNat ≤ high.toNat) :
    stepByte (done, some ⟨value, 1, low, high⟩) b =
      (Char.ofNat (value * 64 + (b.toNat - 0x80)) :: done, none) := by
  have hbounds : (decide (low ≤ b) && decide (b ≤ high)) = true := by
    simp [UInt8.le_iff_toNat_le, hlow, hhigh]
  rw [stepByte, if_pos hbounds]
  rfl

/-- A byte that is no ASCII character, where none is pending, begins a character of several
bytes. -/
theorem stepByte_lead {p : PartialChar} (hb : 0x80 ≤ b.toNat)
    (hp : PartialChar.ofLead? b = some p) :
    stepByte (done, none) b = (done, some p) := by
  have hlt : ¬ b < 0x80 := by
    rw [UInt8.lt_iff_toNat_lt]
    exact Nat.not_lt.mpr hb
  rw [stepByte, startChar, if_neg hlt, hp]

/-- The byte that begins a character of two bytes. -/
theorem ofLead?_two (hlow : 0xC2 ≤ b.toNat) (hhigh : b.toNat < 0xE0) :
    PartialChar.ofLead? b = some ⟨b.toNat - 0xC0, 1, 0x80, 0xBF⟩ := by
  simp only [PartialChar.ofLead?]
  rw [if_neg (by omega), if_pos hhigh]

/-- The byte that begins a character of three bytes, and what may come next. -/
theorem ofLead?_three (hlow : 0xE0 ≤ b.toNat) (hhigh : b.toNat < 0xF0) :
    ∃ low high : UInt8, PartialChar.ofLead? b = some ⟨b.toNat - 0xE0, 2, low, high⟩ ∧
      ∀ n, n < 64 → 0x20 ≤ (b.toNat - 0xE0) * 64 + n →
        ¬ (0x360 ≤ (b.toNat - 0xE0) * 64 + n ∧ (b.toNat - 0xE0) * 64 + n < 0x380) →
        low.toNat ≤ n + 0x80 ∧ n + 0x80 ≤ high.toNat := by
  simp only [PartialChar.ofLead?, beq_iff_eq]
  rw [if_neg (by omega), if_neg (by omega)]
  split
  · next hb => exact ⟨0xA0, 0xBF, by rw [hb], fun n hn => by simp [hb]; omega⟩
  · split
    · next hb => exact ⟨0x80, 0x9F, by rw [hb], fun n hn => by simp [hb]; omega⟩
    · exact ⟨0x80, 0xBF, rfl, fun n hn => by simp; omega⟩

/-- The byte that begins a character of four bytes, and what may come next. -/
theorem ofLead?_four (hlow : 0xF0 ≤ b.toNat) (hhigh : b.toNat < 0xF5) :
    ∃ low high : UInt8, PartialChar.ofLead? b = some ⟨b.toNat - 0xF0, 3, low, high⟩ ∧
      ∀ n, n < 64 → 0x10 ≤ (b.toNat - 0xF0) * 64 + n → (b.toNat - 0xF0) * 64 + n < 0x110 →
        low.toNat ≤ n + 0x80 ∧ n + 0x80 ≤ high.toNat := by
  simp only [PartialChar.ofLead?, beq_iff_eq]
  rw [if_neg (by omega), if_neg (by omega), if_neg (by omega), if_neg (by omega),
    if_neg (by omega)]
  split
  · next hb => exact ⟨0x90, 0xBF, by rw [hb], fun n hn => by simp [hb]; omega⟩
  · split
    · exact ⟨0x80, 0xBF, rfl, fun n hn => by simp; omega⟩
    · next hb =>
      have hb : b.toNat = 0xF4 := by omega
      exact ⟨0x80, 0x8F, by simp [hb], fun n hn => by simp [hb]; omega⟩

end Encoded

/-- **The bytes of a character are decoded to it.** -/
theorem foldl_utf8EncodeChar (c : Char) (done : List Char) :
    (String.utf8EncodeChar c).foldl stepByte (done, none) = (c :: done, none) := by
  have hof {n : Nat} (hn : n = c.toNat) : Char.ofNat n = c := by rw [hn, Char.ofNat_toNat]
  have hvalid : c.toNat < 0xD800 ∨ 0xDFFF < c.toNat ∧ c.toNat < 0x110000 := c.valid
  have hbyte {n : Nat} (hn : n < 256) : (UInt8.ofNat n).toNat = n := by
    rw [UInt8.toNat_ofNat', Nat.mod_eq_of_lt hn]
  have hval : c.val.toNat = c.toNat := rfl
  -- the four lengths of an encoded character, and for each the states that its bytes lead through
  simp only [String.utf8EncodeChar, hval]
  generalize c.toNat = v at *
  split
  · next hv =>
    have hb := hbyte (n := v) (by omega)
    have hlt : UInt8.ofNat v < 0x80 := by
      rw [UInt8.lt_iff_toNat_lt, hb]
      exact Nat.lt_succ_of_le hv
    rw [List.foldl_cons, List.foldl_nil, stepByte, startChar, if_pos hlt, hb, hof rfl]
  -- the bytes behind the first one have six bits each
  have hnext (n : Nat) : (UInt8.ofNat (n % 64 + 128)).toNat = n % 64 + 128 := hbyte (by omega)
  have hlow (n : Nat) : (0x80 : UInt8).toNat ≤ (UInt8.ofNat (n % 64 + 128)).toNat :=
    (Nat.le_add_left 128 _).trans (hnext n).ge
  have hhigh (n : Nat) : (UInt8.ofNat (n % 64 + 128)).toNat ≤ (0xBF : UInt8).toNat :=
    (hnext n).le.trans (Nat.add_le_add_right (Nat.le_of_lt_succ (Nat.mod_lt n (by decide))) 128)
  have hlast := hnext v
  have hsecond := hnext (v / 64)
  have hthird := hnext (v / 4096)
  split
  · have hlead := hbyte (n := v / 64 % 32 + 192) (by omega)
    simp only [List.foldl_cons, List.foldl_nil]
    rw [stepByte_lead (by omega) (ofLead?_two (by omega) (by omega)),
      stepByte_last (hlow v) (hhigh v), hof (by omega)]
  split
  · have hlead := hbyte (n := v / 4096 % 16 + 224) (by omega)
    obtain ⟨low, high, hp, hbounds⟩ := ofLead?_three
      (b := UInt8.ofNat (v / 4096 % 16 + 224)) (by omega) (by omega)
    obtain ⟨hl, hh⟩ := hbounds (v / 64 % 64) (by omega) (by omega) (by omega)
    simp only [List.foldl_cons, List.foldl_nil]
    rw [stepByte_lead (by omega) hp, stepByte_next (by omega) (by omega),
      stepByte_last (hlow v) (hhigh v), hof (by omega)]
  · have hlead := hbyte (n := v / 262144 % 8 + 240) (by omega)
    obtain ⟨low, high, hp, hbounds⟩ := ofLead?_four
      (b := UInt8.ofNat (v / 262144 % 8 + 240)) (by omega) (by omega)
    obtain ⟨hl, hh⟩ := hbounds (v / 4096 % 64) (by omega) (by omega) (by omega)
    simp only [List.foldl_cons, List.foldl_nil]
    rw [stepByte_lead (by omega) hp, stepByte_next (by omega) (by omega),
      stepByte_next (hlow (v / 64)) (hhigh (v / 64)), stepByte_last (hlow v) (hhigh v),
      hof (by omega)]

/-- Decoding the bytes of a text adds its characters and leaves nothing pending, whatever was
decoded before. -/
theorem foldl_bytesOf (s done : List Char) :
    (bytesOf s).foldl stepByte (done, none) = (s.reverse ++ done, none) := by
  -- character by character; what is decoded already only grows
  induction s generalizing done with
  | nil => rfl
  | cons c s ih =>
    rw [bytesOf, List.flatMap_cons, List.foldl_append, foldl_utf8EncodeChar]
    exact (ih (c :: done)).trans (by simp)

/-- The bytes of a text in front of others are decoded to the text. -/
theorem charsOfBytes_bytesOf_append (s : List Char) (bytes : List UInt8) :
    charsOfBytes (bytesOf s ++ bytes) = s ++ charsOfBytes bytes := by
  rw [charsOfBytes_eq, List.foldl_append, foldl_bytesOf, shown_foldl]
  simp

/-- **The bytes of a text give the text back.** -/
@[simp] theorem charsOfBytes_bytesOf (s : List Char) : charsOfBytes (bytesOf s) = s := by
  rw [charsOfBytes_eq, foldl_bytesOf, shown]
  simp

/-- **The bytes of the text that is decoded are others**, unless they are those of some text. -/
theorem bytesOf_charsOfBytes_iff {bytes : List UInt8} :
    bytesOf (charsOfBytes bytes) = bytes ↔ IsUtf8 bytes := by
  constructor
  · exact fun h => ⟨_, h.symm⟩
  · rintro ⟨s, rfl⟩
    rw [charsOfBytes_bytesOf]

/-- Decoding by the core library and decoding byte by byte agree: the first is used for the bytes of
a text, the second for all others. -/
theorem lossyText_eq (bytes : ByteArray) :
    lossyText bytes = String.ofList (charsOfBytes bytes.data.toList) := by
  rw [lossyText]
  split
  · next text htext =>
    obtain rfl := fromUTF8?_eq_some_iff.mp htext
    have hbytes := toList_data_toUTF8 text.toList
    rw [String.ofList_toList] at hbytes
    rw [hbytes, charsOfBytes_bytesOf, String.ofList_toList]
  · rfl

/-! ## Marks in bytes -/

/-- An ASCII character has one byte. -/
theorem bytesOf_cons_of_ascii {c : Char} (hc : c.toNat < 0x80) (s : List Char) :
    bytesOf (c :: s) = UInt8.ofNat c.toNat :: bytesOf s := by
  have hval : c.val.toNat ≤ 0x7F := Nat.le_of_lt_succ hc
  rw [bytesOf, List.flatMap_cons, String.utf8EncodeChar]
  simp only [if_pos hval]
  rfl

/-- Bytes may be cut at a mark of ASCII characters before they are decoded. -/
theorem charsOfBytes_append_mark {mark : List Char} (hmark : ∀ c ∈ mark, c.toNat < 0x80)
    (hne : mark ≠ []) (u v : List UInt8) :
    charsOfBytes (u ++ bytesOf mark ++ v) = charsOfBytes u ++ mark ++ charsOfBytes v := by
  obtain ⟨c, mark, rfl⟩ := List.exists_cons_of_ne_nil hne
  have hc := hmark c (by simp)
  rw [bytesOf_cons_of_ascii hc, List.append_assoc, List.cons_append,
    charsOfBytes_append_cons _ _ (by rwa [toNat_byte hc]), charsOfBytes_bytesOf_append,
    toNat_byte hc, Char.ofNat_toNat]
  simp

/-- A text of ASCII characters that is shown first has its bytes first. -/
theorem exists_of_charsOfBytes_eq_append {mark y : List Char} (hmark : ∀ c ∈ mark, c.toNat < 0x80)
    {bytes : List UInt8} (h : charsOfBytes bytes = mark ++ y) :
    ∃ v, bytes = bytesOf mark ++ v ∧ charsOfBytes v = y := by
  -- a mark is decoded from the left, one byte for each of its characters
  induction mark generalizing bytes with
  | nil => exact ⟨bytes, rfl, h⟩
  | cons c mark ih =>
    have hc := hmark c (by simp)
    obtain ⟨u, v, rfl, hu, hv⟩ := exists_of_charsOfBytes_eq hc (x := []) h
    obtain rfl := charsOfBytes_eq_nil hu
    obtain ⟨w, rfl, hw⟩ := ih (fun d hd => hmark d (by simp [hd])) hv
    exact ⟨w, by rw [bytesOf_cons_of_ascii hc]; rfl, hw⟩

/-- **A mark stands in the text where its bytes stand.** -/
theorem infix_charsOfBytes_iff {mark : List Char} (hmark : ∀ c ∈ mark, c.toNat < 0x80)
    (hne : mark ≠ []) {bytes : List UInt8} :
    mark <:+: charsOfBytes bytes ↔ bytesOf mark <:+: bytes := by
  obtain ⟨c, mark, rfl⟩ := List.exists_cons_of_ne_nil hne
  constructor
  · rintro ⟨x, y, h⟩
    rw [List.append_assoc, List.cons_append] at h
    have hc := hmark c (by simp)
    -- the first character of the mark has its byte, and behind it are the others
    obtain ⟨u, v, rfl, -, hv⟩ := exists_of_charsOfBytes_eq hc h.symm
    obtain ⟨v, rfl, -⟩ :=
      exists_of_charsOfBytes_eq_append (fun d hd => hmark d (by simp [hd])) hv
    exact ⟨u, v, by rw [bytesOf_cons_of_ascii hc]; simp⟩
  · rintro ⟨u, v, rfl⟩
    exact ⟨charsOfBytes u, charsOfBytes v, (charsOfBytes_append_mark hmark hne u v).symm⟩

end Timetable.Text
