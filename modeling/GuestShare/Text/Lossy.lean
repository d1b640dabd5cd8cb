import GuestShare.Bytes

/-!
# Text out of any bytes

Host names and link targets may be any bytes. To show them as text, every part that cannot be the
beginning of a character becomes the replacement character: the longest beginning of a character
that is broken off, or else a single byte.

* `Text.Partial`: a character of which some bytes are still missing.
* `Text.ofBytes`: the text.
-/

namespace GuestShare

namespace Text

/-- What stands for bytes that are no text. -/
def replacement : Char := '\ufffd'

/-- A character of which some bytes are still missing. -/
structure Partial where
  /-- The bytes that are missing. -/
  missing : Nat
  /-- The next byte lies between these two. -/
  low : UInt8
  high : UInt8
  /-- The bits so far. -/
  bits : Nat

/-- What the first byte of a character says: the character itself, or what is missing. -/
def first (b : UInt8) : Option (Char ⊕ Partial) :=
  let n := b.toNat
  if n < 0x80 then some (.inl (Char.ofNat n))
  else if n < 0xc2 then none
  else if n < 0xe0 then some (.inr ⟨1, 0x80, 0xbf, n - 0xc0⟩)
  else if n = 0xe0 then some (.inr ⟨2, 0xa0, 0xbf, 0⟩)
  else if n = 0xed then some (.inr ⟨2, 0x80, 0x9f, 0xd⟩)
  else if n < 0xf0 then some (.inr ⟨2, 0x80, 0xbf, n - 0xe0⟩)
  else if n = 0xf0 then some (.inr ⟨3, 0x90, 0xbf, 0⟩)
  else if n < 0xf4 then some (.inr ⟨3, 0x80, 0xbf, n - 0xf0⟩)
  else if n = 0xf4 then some (.inr ⟨3, 0x80, 0x8f, 4⟩)
  else none

/-- The text so far, and the character that is not complete. -/
structure Reading where
  text : String
  part : Option Partial

/-- One byte at the beginning of a character. -/
def Reading.begin (text : String) (b : UInt8) : Reading :=
  match first b with
  | some (.inl c) => ⟨text.push c, none⟩
  | some (.inr p) => ⟨text, some p⟩
  | none => ⟨text.push replacement, none⟩

/-- One byte more. -/
def Reading.step (r : Reading) (b : UInt8) : Reading :=
  match r.part with
  | none => begin r.text b
  | some p =>
    if p.low ≤ b ∧ b ≤ p.high then
      let bits := 64 * p.bits + (b.toNat - 0x80)
      if p.missing ≤ 1 then ⟨r.text.push (Char.ofNat bits), none⟩
      else ⟨r.text, some ⟨p.missing - 1, 0x80, 0xbf, bits⟩⟩
    else begin (r.text.push replacement) b

/-- The text at the end. -/
def Reading.finish (r : Reading) : String :=
  if r.part.isSome then r.text.push replacement else r.text

/-- The text that some bytes show as. -/
def ofBytes (bs : Bytes) : String := (bs.foldl Reading.step ⟨"", none⟩).finish

/-- The text that an absolute path shows as. -/
def ofNames (names : List Bytes) : String :=
  if names.isEmpty then "/" else String.join (names.map fun name => "/" ++ ofBytes name)

end Text

end GuestShare
