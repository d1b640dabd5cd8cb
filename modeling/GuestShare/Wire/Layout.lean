import GuestShare.Wire.Reader

/-!
# Layouts

A layout says how the values of one type stand in a message: how they are written and how they
are read again. Messages are built from the layouts of their fields.

* `Layout.u8` … `Layout.blob`: the fields.
* `Layout.pair`, `Layout.map`: one layout after another, and the same layout under another type.
* `Layout.orElse`: a last field that older peers leave out.
* `Layout.counted`, `Layout.packed`: lists behind a number of items, or behind a number of bytes.
-/

namespace GuestShare

/-- How values of one type are written and read. -/
structure Layout (α : Type) where
  /-- The bytes of a value. -/
  write : α → Except WireError Bytes
  /-- A value off the front of the bytes. -/
  read : Reader α

namespace Layout

variable {α β : Type}

/-- Nothing at all. -/
def unit : Layout Unit := ⟨fun _ => .ok [], pure ()⟩

/-- One byte. -/
def u8 : Layout UInt8 := ⟨fun x => .ok [x], Reader.u8⟩

/-- A 16-bit word. -/
def u16 : Layout UInt16 := ⟨fun x => .ok (Bytes.ofU16 x), Reader.u16⟩

/-- A 32-bit word. -/
def u32 : Layout UInt32 := ⟨fun x => .ok (Bytes.ofU32 x), Reader.u32⟩

/-- A 64-bit word. -/
def u64 : Layout UInt64 := ⟨fun x => .ok (Bytes.ofU64 x), Reader.u64⟩

/-- Bytes behind a 16-bit length. -/
def writeShort (bs : Bytes) : Except WireError Bytes :=
  if bs.length < UInt16.size then .ok (Bytes.ofU16 (UInt16.ofNat bs.length) ++ bs)
  else .error (.tooLong bs.length)

/-- Bytes behind a 32-bit length. -/
def writeLong (bs : Bytes) : Except WireError Bytes :=
  if bs.length < UInt32.size then .ok (Bytes.ofU32 (UInt32.ofNat bs.length) ++ bs)
  else .error (.tooLong bs.length)

/-- A text behind its 16-bit length. -/
def text : Layout String := ⟨fun s => writeShort (Bytes.ofText s), Reader.text⟩

/-- Any bytes behind their 32-bit length. -/
def blob : Layout Bytes := ⟨writeLong, Reader.blob⟩

/-- First the one, then the other. -/
def pair (l : Layout α) (m : Layout β) : Layout (α × β) where
  write p := do
    let front ← l.write p.1
    let back ← m.write p.2
    return front ++ back
  read := do
    let a ← l.read
    let b ← m.read
    return (a, b)

/-- The same bytes for another type. -/
def map (l : Layout α) (make : α → β) (parts : β → α) : Layout β where
  write b := l.write (parts b)
  read := make <$> l.read

/-- A last field of at least `size` bytes. Where fewer bytes are left it reads as `missing`. -/
def orElse (l : Layout α) (size : Nat) (missing : α) : Layout α where
  write := l.write
  read := do
    if ← Reader.hasLeft size then l.read else return missing

/-- The bytes of all items of a list. -/
def writeAll (l : Layout α) (as : List α) : Except WireError Bytes :=
  List.flatten <$> as.mapM l.write

/-- A list of at most `limit` items behind their 16-bit number. -/
def counted (l : Layout α) (limit : Nat) : Layout (List α) where
  write as := do
    if limit < as.length then throw .walkTooLong
    let items ← writeAll l as
    return Bytes.ofU16 (UInt16.ofNat as.length) ++ items
  read := do
    let n ← Reader.u16
    if limit < n.toNat then Reader.fail .walkTooLong else l.read.times n.toNat

/-- A list behind the 32-bit number of its bytes; `size` says how many an item has. -/
def packed (l : Layout α) (size : α → Nat) : Layout (List α) where
  write as := do
    let total := totalSize size as
    if UInt32.size ≤ total then throw (.tooLong total)
    let items ← writeAll l as
    return Bytes.ofU32 (UInt32.ofNat total) ++ items
  read := do
    let bs ← Reader.blob
    Reader.within bs l.read.untilEnd

end Layout

end GuestShare
