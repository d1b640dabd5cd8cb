import GuestShare.Wire.Layout

/-!
# Qids

A qid names a node for as long as the node lives: its kind, its version and its number.

* `Qid.isDirectory`, `Qid.isSymlink`: the two bits of the kind that clients look at.
* `Qid.layout`: thirteen bytes.
-/

namespace GuestShare

/-- The identity of a node. -/
structure Qid where
  /-- The kind bits. -/
  kind : UInt8
  /-- Changes whenever the node changes. -/
  version : UInt32
  /-- The number of the node. -/
  number : UInt64
deriving Repr, DecidableEq, Inhabited

namespace Qid

/-- The kind of a directory. -/
def directory : UInt8 := 0x80

/-- The kind of a symbolic link. -/
def symlink : UInt8 := 0x02

/-- The kind of anything else. -/
def file : UInt8 := 0x00

/-- Whether the kind has the directory bit. -/
def isDirectory (q : Qid) : Bool := q.kind &&& directory != 0

/-- Whether the kind has the link bit. -/
def isSymlink (q : Qid) : Bool := q.kind &&& symlink != 0

/-- The bytes of a qid in a message. -/
def size : Nat := 13

/-- Kind, version, number. -/
def layout : Layout Qid :=
  (Layout.u8.pair (Layout.u32.pair Layout.u64)).map (fun (k, v, n) => ⟨k, v, n⟩)
    (fun q => (q.kind, q.version, q.number))

end Qid

end GuestShare
