import GuestShare.Wire.Qid

/-!
# Single fields

Messages are written field by field. This module has the fields one by one, for tools that look
at a message below the level of requests and replies.

* `Field`, `Field.Kind`: a value of a field, and what one has to know to read it.
* `Field.append`: write one field behind what is written already; a field that does not fit
  leaves the bytes as they were.
* `Field.Kind.read`: read one field.
-/

namespace GuestShare

/-- One field with its value. -/
inductive Field
  | u8 (value : UInt8)
  | u16 (value : UInt16)
  | u32 (value : UInt32)
  | u64 (value : UInt64)
  | text (value : String)
  | qid (value : Qid)
  | blob (value : Bytes)
  /-- Bytes without a length of their own. -/
  | bytes (value : Bytes)
deriving Repr, DecidableEq

namespace Field

/-- What one has to know to read a field. -/
inductive Kind
  | u8 | u16 | u32 | u64 | text | qid | blob
  | bytes (length : Nat)
deriving Repr, DecidableEq

/-- The kind that reads a field again. -/
def kind : Field → Kind
  | .u8 _ => .u8
  | .u16 _ => .u16
  | .u32 _ => .u32
  | .u64 _ => .u64
  | .text _ => .text
  | .qid _ => .qid
  | .blob _ => .blob
  | .bytes bs => .bytes bs.length

/-- The bytes of a field. -/
def write : Field → Except WireError Bytes
  | .u8 x => Layout.u8.write x
  | .u16 x => Layout.u16.write x
  | .u32 x => Layout.u32.write x
  | .u64 x => Layout.u64.write x
  | .text s => Layout.text.write s
  | .qid q => Qid.layout.write q
  | .blob bs => Layout.blob.write bs
  | .bytes bs => .ok bs

/-- Write a field behind `out`. A field that cannot be written leaves `out` as it is. -/
def append (out : Bytes) (f : Field) : Except WireError Unit × Bytes :=
  match f.write with
  | .ok bs => (.ok (), out ++ bs)
  | .error e => (.error e, out)

/-- Read a field. -/
def Kind.read : Kind → Reader Field
  | .u8 => Field.u8 <$> Layout.u8.read
  | .u16 => Field.u16 <$> Layout.u16.read
  | .u32 => Field.u32 <$> Layout.u32.read
  | .u64 => Field.u64 <$> Layout.u64.read
  | .text => Field.text <$> Layout.text.read
  | .qid => Field.qid <$> Qid.layout.read
  | .blob => Field.blob <$> Layout.blob.read
  | .bytes n => Field.bytes <$> Reader.take n

/-- Write fields one after another: what each step gave with the bytes after it. -/
def appendAll (out : Bytes) : List Field → List (Except WireError Unit × Bytes)
  | [] => []
  | f :: fs =>
    let step := append out f
    step :: appendAll step.2 fs

/-- Read fields one after another: what each step gave with the bytes left after it. A step that
fails does not stop the later ones. -/
def Kind.readAll (bs : Bytes) : List Kind → List (Except WireError Field × Bytes)
  | [] => []
  | k :: ks =>
    let step := k.read.run bs
    step :: Kind.readAll step.2 ks

end Field

end GuestShare
