import GuestShare.Share.State

/-!
# Nodes as the client sees them

What the client sees of a node is what the host says of it, overlaid by its records.

* `Node`: a node of the export with its kind.
* `Node.qid`, `Node.attr`, `Node.entryType`: what is reported of it. All three tell the same kind.
* `Share.linkText`: where a node leads, if it is a link.
-/

namespace GuestShare

namespace NodeKind

/-- The kind of a node by what it is on the host. -/
def ofBody : Body → NodeKind
  | .file _ => file
  | .directory _ => directory
  | .link _ => symlink
  | .fifo => fifo
  | .socket => socket

/-- The bits of a mode that tell the kind. -/
def typeBits : NodeKind → UInt32
  | file => 0o100000
  | directory => 0o040000
  | symlink => 0o120000
  | charDevice => 0o020000
  | blockDevice => 0o060000
  | fifo => 0o010000
  | socket => 0o140000

/-- The bits of a mode that tell a kind, all together. -/
def typeMask : UInt32 := 0o170000

/-- The kind of a node to make, by its mode. Directories and links are made in other ways. -/
def ofMode? (mode : UInt32) : Option NodeKind :=
  let bits := mode &&& typeMask
  if bits = 0 then some file
  else [file, charDevice, blockDevice, fifo, socket].find? (·.typeBits == bits)

/-- The kind as qids tell it. -/
def qidKind : NodeKind → UInt8
  | directory => Qid.directory
  | symlink => Qid.symlink
  | _ => Qid.file

/-- The kind as directory listings number it. -/
def entryType : NodeKind → UInt8
  | fifo => 1
  | charDevice => 2
  | directory => 4
  | blockDevice => 6
  | file => 8
  | symlink => 10
  | socket => 12

end NodeKind

/-- The seconds of a time, as records and qids hold them. -/
def Instant.short (t : Instant) : UInt32 := UInt32.ofNat t.seconds

/-- The number of a device. -/
def Device.number (d : Device) : UInt64 :=
  let major := d.major.toUInt64
  let minor := d.minor.toUInt64
  ((major &&& 0xfffff000) <<< 32) ||| ((major &&& 0xfff) <<< 8) |||
    ((minor &&& 0xffffff00) <<< 12) ||| (minor &&& 0xff)

/-- A node of the export. -/
structure Node where
  path : GuestPath
  ino : Ino
  inode : Inode
  kind : NodeKind

namespace Node

/-- The key of the node's records. -/
def key (n : Node) : String := n.path.key

/-- Whether the client sees a directory. -/
def isDirectory (n : Node) : Bool := n.kind = .directory

/-- The identity of a node. It changes its version when it is modified. -/
def qid (n : Node) : Qid := ⟨n.kind.qidKind, n.inode.modified.short, UInt64.ofNat n.ino⟩

/-- The kind of a node as listings number it. -/
def entryType (n : Node) : UInt8 := n.kind.entryType

/-- The record that stands for a node without one: the host's bits, the first user. -/
def defaultPermission (n : Node) : Permissions :=
  .ofMode n.inode.mode 0 0 n.inode.modified.short

/-- The parts of an attribute block that are filled in. -/
def attrMask : UInt64 := 0x1fff

/-- The unit in which nodes are read best. -/
def blockSize : UInt64 := 4096

/-- The number of bytes of a node. -/
def size (n : Node) (s : Store) : Nat :=
  match n.kind, s.symlink n.key with
  | .symlink, some target => (Bytes.ofText target).length
  | _, _ => n.inode.body.size

/-- The attributes of a node. -/
def attr (n : Node) (s : Store) (h : Host) : Attr where
  valid := attrMask
  qid := n.qid
  mode := n.kind.typeBits |||
    (match s.permission n.key with
      | some r => r.mode.toUInt32
      | none => n.inode.mode &&& permissionMask)
  uid := ((s.permission n.key).map Permissions.uid).getD 0
  gid := ((s.permission n.key).map Permissions.gid).getD 0
  nlink := UInt64.ofNat (h.linkCount n.ino)
  rdev := ((s.device n.key).map Device.number).getD 0
  size := UInt64.ofNat (n.size s)
  blksize := blockSize
  blocks := UInt64.ofNat ((n.size s + 511) / 512)
  atimeSec := UInt64.ofNat n.inode.accessed.seconds
  atimeNsec := UInt64.ofNat n.inode.accessed.nanos
  mtimeSec := UInt64.ofNat n.inode.modified.seconds
  mtimeNsec := UInt64.ofNat n.inode.modified.nanos
  ctimeSec := UInt64.ofNat (h.changed n.ino).seconds
  ctimeNsec := UInt64.ofNat (h.changed n.ino).nanos
  btimeSec := 0
  btimeNsec := 0
  gen := 0
  dataVersion := 0

end Node

namespace Share

/-- Look at a node of the host. -/
def inspect (s : Share) (p : GuestPath) : Except ShareError (Ino × Inode) :=
  (s.host.inspect (s.hostPath p)).mapError (.ofLookup (s.hostNames p))

/-- The node at a path, which has been looked at. -/
def nodeOf (s : Share) (p : GuestPath) (i : Ino) (n : Inode) : Node :=
  ⟨p, i, n, (s.store.kind p.key).getD (.ofBody n.body)⟩

/-- The node at a path. -/
def node (s : Share) (p : GuestPath) : Except ShareError Node := do
  let (i, n) ← s.inspect p
  return s.nodeOf p i n

/-- The target of the node at a path if it is a link, by its record or by the host. -/
def linkText (s : Share) (p : GuestPath) : Except ShareError (Option String) := do
  match s.store.symlink p.key with
  | some target => return some target
  | none =>
    let (_, n) ← s.inspect p
    match n.body with
    | .link target => return some (Text.ofBytes target)
    | _ => return none

/-- The fid of a number and its path, if that is a directory. -/
def directory (s : Share) (id : FidId) : Except ShareError Fid := do
  let fid ← s.fids.find id
  let n ← s.node fid.path
  if n.isDirectory then return fid else throw .notDirectory

end Share

end GuestShare
