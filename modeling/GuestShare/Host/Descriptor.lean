import GuestShare.Host.Resolve

/-!
# Open files

A descriptor holds a node, whatever becomes of the node's names.

* `OpenHow`, `Host.openAt`: how to open a file, and opening it.
* `Descriptor.read`, `Descriptor.write`, `Descriptor.setLength`, `Descriptor.setTimes`,
  `Descriptor.sync`: what can be done with it.
* `Host.fileBytes`, `Host.listDir`: whole contents by path.
-/

namespace GuestShare

/-- What to do if there is no such file, or if there is one. -/
inductive Creation
  | never
  | ifMissing
  | mustBeNew
deriving Repr, DecidableEq

/-- How to open a file. -/
structure OpenHow where
  read : Bool
  write : Bool
  /-- Every write goes to the end. -/
  append : Bool
  /-- Start with no contents. -/
  truncate : Bool
  creation : Creation
  atEnd : AtEnd
deriving Repr, DecidableEq

/-- An open file. -/
structure Descriptor where
  ino : Ino
  readable : Bool
  writable : Bool
  append : Bool
deriving Repr, DecidableEq

namespace OpenHow

/-- Open an existing file for reading. -/
def reading : OpenHow := ⟨true, false, false, false, .never, .follow⟩

/-- Open an existing file for writing. -/
def writing : OpenHow := ⟨false, true, false, false, .never, .follow⟩

/-- Open a new file for writing. -/
def fresh : OpenHow := ⟨false, true, false, false, .mustBeNew, .follow⟩

/-- Whether opening may change something. -/
def changes (how : OpenHow) : Bool :=
  how.write || how.append || how.truncate || how.creation ≠ .never

/-- The descriptor of a node opened in this way. -/
def descriptor (how : OpenHow) (i : Ino) : Descriptor :=
  ⟨i, how.read, how.write || how.append, how.append⟩

end OpenHow

namespace Host

/-- Open the node of a number. -/
def openNode (h : Host) (i : Ino) (how : OpenHow) : Except HostError (Descriptor × Host) :=
  match h.body? i with
  | none => .error .notFound
  | some (.link _) => .error .tooManyLinks
  | some .socket => .error .noDevice
  | some (.directory _) =>
    if how.changes then .error .isDirectory else .ok (how.descriptor i, h)
  | some .fifo => .ok (how.descriptor i, h)
  | some (.file _) =>
    .ok (how.descriptor i, if how.truncate then h.setBody i (.file .empty) else h)

/-- Open a file. -/
def openAt (h : Host) (p : Path) (how : OpenHow) : Except HostError (Descriptor × Host) := do
  if how.creation ≠ .never && p.closed then throw .isDirectory
  let atEnd := if how.creation = .mustBeNew then .keep else how.atEnd
  match ← h.locate atEnd p with
  | .node place =>
    if how.creation = .mustBeNew then throw .alreadyExists
    h.openNode place.ino how
  | .vacant dir name =>
    if how.creation = .never then throw .notFound
    let (i, h') := h.create dir.ino name (.file .empty) fileMode
    return (how.descriptor i, h')

end Host

namespace Descriptor

/-- Read at most `count` bytes from `offset` on. -/
def read (d : Descriptor) (offset count : Nat) (h : Host) : Except HostError Bytes :=
  if count = 0 then .ok []
  else if !d.readable then .error .badDescriptor
  else if Host.limit ≤ offset + count then .error .invalid
  else match h.body? d.ino with
    | some (.file c) => .ok (c.slice offset count)
    | some (.directory _) => .error .isDirectory
    | _ => .error .noSeek

/-- Write bytes at `offset`, or at the end. Writing no bytes does nothing. -/
def write (d : Descriptor) (offset : Nat) (bs : Bytes) (h : Host) : Except HostError Host :=
  if bs.isEmpty then .ok h
  else if !d.writable then .error .badDescriptor
  else if Host.limit ≤ offset + bs.length then .error .invalid
  else match h.body? d.ino with
    | some (.file c) =>
      .ok (h.setBody d.ino (.file (c.overwrite (if d.append then c.length else offset) bs)))
    | some (.directory _) => .error .isDirectory
    | _ => .error .noSeek

/-- Cut or extend the contents to `length` bytes. -/
def setLength (d : Descriptor) (length : Nat) (h : Host) : Except HostError Host :=
  if Host.limit ≤ length then .error .tooLarge
  else if !d.writable then .error .invalid
  else match h.body? d.ino with
    | some (.file c) => .ok (h.setBody d.ino (.file (c.resize length)))
    | _ => .error .invalid

/-- Set the times that are given. -/
def setTimes (d : Descriptor) (accessed modified : Option Instant) (h : Host) : Host :=
  h.modify d.ino fun n =>
    { n with accessed := accessed.getD n.accessed, modified := modified.getD n.modified }

/-- Bring the contents to the disk. -/
def sync (d : Descriptor) (h : Host) : Except HostError Unit :=
  match h.body? d.ino with
  | some (.file _) | some (.directory _) => .ok ()
  | _ => .error .invalid

/-- All the bytes. -/
def readAll (d : Descriptor) (h : Host) : Except HostError Bytes :=
  match h.body? d.ino with
  | some (.file c) => .ok c.toList
  | some (.directory _) => .error .isDirectory
  | _ => .error .noSeek

end Descriptor

namespace Host

/-- The bytes of a file. -/
def fileBytes (h : Host) (p : Path) : Except HostError Bytes := do
  let (d, h) ← h.openAt p .reading
  d.readAll h

/-- The names in a directory, sorted. -/
def listDir (h : Host) (p : Path) : Except HostError (List Name) := do
  let es ← h.entriesAt (← h.find .follow p)
  return es.keys

end Host

end GuestShare
