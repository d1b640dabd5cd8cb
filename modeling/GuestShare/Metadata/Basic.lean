import GuestShare.Bytes

/-!
# Records

What the guest may set on a node and the host cannot hold is kept in four kinds of records.

* `Permissions`, `NodeKind`, `Device`: the records; the fourth is the target of a link.
* `Payload`: how a record is written in a file and read from one.
* `Category`: the four kinds, with the names of their files.
* **`NodeKind.ofByte_byte`**, **`NodeKind.ofName_name`**: bytes and names stand for the kinds.
-/

namespace GuestShare

/-! ## Permissions -/

/-- Permission bits, owners and the time of modification. -/
structure Permissions where
  mode : UInt16
  uid : UInt32
  gid : UInt32
  mtime : UInt32
deriving Repr, DecidableEq, Inhabited

/-- The permission bits of a mode. -/
def permissionMask : UInt32 := 0o7777

/-- The record of a mode, of which only the permission bits are kept. -/
def Permissions.ofMode (mode uid gid mtime : UInt32) : Permissions :=
  ⟨(mode &&& permissionMask).toUInt16, uid, gid, mtime⟩

/-! ## Kinds of nodes -/

/-- What a node is for the guest. -/
inductive NodeKind
  | file
  | directory
  | symlink
  | charDevice
  | blockDevice
  | fifo
  | socket
deriving Repr, DecidableEq

namespace NodeKind

/-- Every kind, by byte. -/
def all : List NodeKind := [file, directory, symlink, charDevice, blockDevice, fifo, socket]

/-- The byte that stands for a kind. -/
def byte : NodeKind → UInt8
  | file => 0
  | directory => 1
  | symlink => 2
  | charDevice => 3
  | blockDevice => 4
  | fifo => 5
  | socket => 6

/-- The kind that a byte stands for. Any other byte stands for a file. -/
def ofByte (b : UInt8) : NodeKind := (all.find? (·.byte == b)).getD file

/-- The name of a kind. -/
def name : NodeKind → String
  | file => "file"
  | directory => "dir"
  | symlink => "symlink"
  | charDevice => "chardev"
  | blockDevice => "blockdev"
  | fifo => "fifo"
  | socket => "socket"

/-- The kind of a name. Any other name is that of a file. -/
def ofName (s : String) : NodeKind := (all.find? (·.name == s)).getD file

/-- **A byte stands for one kind.** -/
theorem ofByte_byte (k : NodeKind) : ofByte k.byte = k := by cases k <;> rfl

/-- **A name stands for one kind.** -/
theorem ofName_name (k : NodeKind) : ofName k.name = k := by cases k <;> decide

end NodeKind

/-! ## Devices -/

/-- The two kinds of devices. -/
inductive DeviceKind
  | char
  | block
deriving Repr, DecidableEq

/-- The numbers of a device. -/
structure Device where
  kind : DeviceKind
  major : UInt16
  minor : UInt16
deriving Repr, DecidableEq

/-! ## Records as bytes -/

/-- How a record is written and read. What lies behind the bytes of a record is ignored. -/
structure Payload (α : Type) where
  write : α → Bytes
  read? : Bytes → Option α

namespace Payload

/-- Mode, owner, group, time. -/
def permission : Payload Permissions where
  write r := Bytes.ofU16 r.mode ++ Bytes.ofU32 r.uid ++ Bytes.ofU32 r.gid ++ Bytes.ofU32 r.mtime
  read? bs :=
    if bs.length < 14 then none
    else some ⟨Bytes.toU16 (bs.take 2), Bytes.toU32 ((bs.drop 2).take 4),
      Bytes.toU32 ((bs.drop 6).take 4), Bytes.toU32 ((bs.drop 10).take 4)⟩

/-- The text of the target. -/
def target : Payload String where
  write := Bytes.ofText
  read? := Bytes.toText?

/-- One byte. -/
def kind : Payload NodeKind where
  write k := [k.byte]
  read? bs := bs.head?.map NodeKind.ofByte

/-- Zero for a character device, then the numbers. -/
def device : Payload Device where
  write r := (match r.kind with | .char => 0 | .block => 1) :: Bytes.ofU16 r.major ++
    Bytes.ofU16 r.minor
  read? bs :=
    if bs.length < 5 then none
    else some ⟨if bs.head? = some 0 then .char else .block, Bytes.toU16 ((bs.drop 1).take 2),
      Bytes.toU16 ((bs.drop 3).take 2)⟩

end Payload

/-! ## Categories -/

/-- A kind of records. -/
inductive Category
  | permissions
  | symlinks
  | types
  | devices
deriving Repr, DecidableEq

namespace Category

/-- Every category, in the order in which they are written. -/
def all : List Category := [permissions, symlinks, types, devices]

/-- The name of a category. -/
def name : Category → String
  | permissions => "permissions"
  | symlinks => "symlinks"
  | types => "types"
  | devices => "devices"

/-- The file of a category. -/
def fileName (c : Category) : String := c.name ++ ".bin"

/-- The file that held the category before. It is read if the file itself is missing. -/
def olderFileName (c : Category) : String := c.name ++ ".json"

end Category

end GuestShare
