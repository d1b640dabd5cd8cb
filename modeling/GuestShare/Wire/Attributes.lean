import GuestShare.Wire.Qid

/-!
# Attribute blocks

* `SetAttr`: attributes to set; a mask says which.
* `Attr`: attributes as they are reported.
* `DirEntry`: one entry of a directory listing.
-/

namespace GuestShare

/-! ## Setting attributes -/

/-- Attributes to set. Only those count whose bit is in `valid`. -/
structure SetAttr where
  valid : UInt32
  mode : UInt32
  uid : UInt32
  gid : UInt32
  size : UInt64
  atimeSec : UInt64
  atimeNsec : UInt64
  mtimeSec : UInt64
  mtimeNsec : UInt64
deriving Repr, DecidableEq, Inhabited

namespace SetAttr

/-- The permission bits. -/
def modeBit : UInt32 := 0x1

/-- The owner. -/
def uidBit : UInt32 := 0x2

/-- The group. -/
def gidBit : UInt32 := 0x4

/-- The length of the contents. -/
def sizeBit : UInt32 := 0x8

/-- The access time. -/
def atimeBit : UInt32 := 0x10

/-- The modification time. -/
def mtimeBit : UInt32 := 0x20

/-- The access time is the one given, not the present. -/
def atimeSetBit : UInt32 := 0x80

/-- The modification time is the one given, not the present. -/
def mtimeSetBit : UInt32 := 0x100

/-- Whether a bit is in the mask. -/
def has (a : SetAttr) (bit : UInt32) : Bool := a.valid &&& bit != 0

open Layout in
/-- The mask, then the attributes. -/
def layout : Layout SetAttr :=
  (u32.pair <| u32.pair <| u32.pair <| u32.pair <| u64.pair <| u64.pair <| u64.pair <|
    u64.pair u64).map
    (fun (v, m, u, g, s, as, an, ms, mn) => ⟨v, m, u, g, s, as, an, ms, mn⟩)
    (fun a => (a.valid, a.mode, a.uid, a.gid, a.size, a.atimeSec, a.atimeNsec, a.mtimeSec,
      a.mtimeNsec))

end SetAttr

/-! ## Reported attributes -/

/-- The attributes of a node. -/
structure Attr where
  valid : UInt64
  qid : Qid
  mode : UInt32
  uid : UInt32
  gid : UInt32
  nlink : UInt64
  rdev : UInt64
  size : UInt64
  blksize : UInt64
  blocks : UInt64
  atimeSec : UInt64
  atimeNsec : UInt64
  mtimeSec : UInt64
  mtimeNsec : UInt64
  ctimeSec : UInt64
  ctimeNsec : UInt64
  btimeSec : UInt64
  btimeNsec : UInt64
  gen : UInt64
  dataVersion : UInt64
deriving Repr, DecidableEq, Inhabited

open Layout in
/-- The attributes in the order of the structure. -/
def Attr.layout : Layout Attr :=
  (u64.pair <| Qid.layout.pair <| u32.pair <| u32.pair <| u32.pair <| u64.pair <| u64.pair <|
    u64.pair <| u64.pair <| u64.pair <| u64.pair <| u64.pair <| u64.pair <| u64.pair <|
    u64.pair <| u64.pair <| u64.pair <| u64.pair <| u64.pair u64).map
    (fun (v, q, m, u, g, n, r, s, bs, b, as, an, ms, mn, cs, cn, ts, tn, e, d) =>
      ⟨v, q, m, u, g, n, r, s, bs, b, as, an, ms, mn, cs, cn, ts, tn, e, d⟩)
    (fun a => (a.valid, a.qid, a.mode, a.uid, a.gid, a.nlink, a.rdev, a.size, a.blksize, a.blocks,
      a.atimeSec, a.atimeNsec, a.mtimeSec, a.mtimeNsec, a.ctimeSec, a.ctimeNsec, a.btimeSec,
      a.btimeNsec, a.gen, a.dataVersion))

/-! ## Directory entries -/

/-- One entry of a directory listing. -/
structure DirEntry where
  qid : Qid
  /-- Where a listing goes on behind this entry. -/
  offset : UInt64
  /-- The kind of the node, as listings number them. -/
  kind : UInt8
  name : String
deriving Repr, DecidableEq

namespace DirEntry

/-- The bytes of an entry in a listing. -/
def size (e : DirEntry) : Nat := Qid.size + 8 + 1 + 2 + (Bytes.ofText e.name).length

open Layout in
/-- Qid, offset, kind, name. -/
def layout : Layout DirEntry :=
  (Qid.layout.pair <| u64.pair <| u8.pair text).map (fun (q, o, k, n) => ⟨q, o, k, n⟩)
    (fun e => (e.qid, e.offset, e.kind, e.name))

end DirEntry

end GuestShare
