/-!
Texts out of bytes.

Well-formed UTF-8 is the text that it encodes. Other bytes can still be shown:
each longest stretch that begins a character but does not complete it, and each
byte that begins none, is replaced by the replacement character.
-/

set_option autoImplicit false

namespace Timetable.Text

/-- A character of which some bytes have been read: the bits so far, the number of bytes owed,
and the bounds on the next one. -/
structure PartialChar where
  value : Nat
  owed : Nat
  low : UInt8
  high : UInt8

/-- What stands for bytes that encode nothing. -/
def replacement : Char := '\uFFFD'

/-- The character that a leading byte begins, if it begins one of several bytes. -/
def PartialChar.ofLead? (b : UInt8) : Option PartialChar :=
  let n := b.toNat
  if n < 0xC2 then none
  else if n < 0xE0 then some ⟨n - 0xC0, 1, 0x80, 0xBF⟩
  -- the bounds leave out characters that fewer bytes encode,
  else if n == 0xE0 then some ⟨0, 2, 0xA0, 0xBF⟩
  -- surrogates,
  else if n == 0xED then some ⟨0xD, 2, 0x80, 0x9F⟩
  else if n < 0xF0 then some ⟨n - 0xE0, 2, 0x80, 0xBF⟩
  else if n == 0xF0 then some ⟨0, 3, 0x90, 0xBF⟩
  else if n < 0xF4 then some ⟨n - 0xF0, 3, 0x80, 0xBF⟩
  -- and what is beyond the last character
  else if n == 0xF4 then some ⟨4, 3, 0x80, 0x8F⟩
  else none

/-- Takes a byte that begins a character: what is decoded now, last in front, and what is
pending. -/
def startChar (done : List Char) (b : UInt8) : List Char × Option PartialChar :=
  if b < 0x80 then (Char.ofNat b.toNat :: done, none)
  else
    match PartialChar.ofLead? b with
    | some p => (done, some p)
    | none => (replacement :: done, none)

/-- Takes one more byte of a text. -/
def stepByte (state : List Char × Option PartialChar) (b : UInt8) :
    List Char × Option PartialChar :=
  match state with
  | (done, none) => startChar done b
  | (done, some p) =>
    if p.low ≤ b && b ≤ p.high then
      let value := p.value * 64 + (b.toNat - 0x80)
      if p.owed == 1 then (Char.ofNat value :: done, none)
      else (done, some ⟨value, p.owed - 1, 0x80, 0xBF⟩)
    -- the byte that does not fit may begin a character itself
    else startChar (replacement :: done) b

/-- The characters of a byte sequence, faulty stretches replaced. -/
def charsOfBytes (bytes : List UInt8) : List Char :=
  match bytes.foldl stepByte ([], none) with
  | (done, none) => done.reverse
  -- the last character has not been completed
  | (done, some _) => (replacement :: done).reverse

/-- The text of a byte array, faulty stretches replaced. -/
def lossyText (bytes : ByteArray) : String :=
  match String.fromUTF8? bytes with
  | some s => s
  | none => String.ofList (charsOfBytes bytes.data.toList)

end Timetable.Text
