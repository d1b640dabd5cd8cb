import GuestShare.Host.Entry
import GuestShare.Host.Descriptor

/-!
# Trees and chores

What the owner of the host does with whole trees and single nodes.

* `Host.below`: every entry below a directory, with the names that lead to it.
* `Host.removeTree`: removing a directory with everything in it.
* `Host.stamp`: one time of modification for everything below a directory.
* `Chore`, `Chore.perform`: what the owner can do. A chore that makes something makes the missing
  directories above it first.
-/

namespace GuestShare

namespace Host

/-- Every entry below a directory, at most `depth` directories deep. -/
def belowWithin (h : Host) : (depth : Nat) → Ino → List (List Name × Ino)
  | 0, _ => []
  | depth + 1, i =>
    match h.entries? i with
    | none => []
    | some es =>
      es.toList.flatMap fun (name, j) =>
        ([name], j) :: (h.belowWithin depth j).map fun (names, k) => (name :: names, k)

/-- Every entry below a directory. No way down is longer than there are nodes. -/
def below (h : Host) (i : Ino) : List (List Name × Ino) := h.belowWithin h.nodes.size i

/-- The relative path of some names, as bytes. -/
def joinNames (names : List Name) : Bytes := List.intercalate [Name.slash] names

/-- Every entry below a directory, sorted by path. -/
def listing (h : Host) (i : Ino) : List (Bytes × Ino) :=
  ((h.below i).map fun (names, j) => (joinNames names, j)).mergeSort
    fun a b => (compare a.1 b.1).isLE

/-- Remove a directory with everything in it, or a link. -/
def removeTree (h : Host) (p : Path) : Except HostError Host := do
  let (place, name) ← h.occupant p
  if (h.target? place.ino).isSome then return h.unbind place.up.ino name
  let _ ← h.entriesAt place
  let emptied := (h.below place.ino).foldl (fun h (_, j) => h.modifyEntries j fun _ => ∅) h
  return (emptied.modifyEntries place.ino fun _ => ∅).unbind place.up.ino name

/-- Give everything below a directory, but for some nodes, one time of modification. -/
def stamp (h : Host) (i : Ino) (spared : List Ino) (time : Instant) : Host :=
  (h.below i).foldl (fun h (_, j) =>
    if spared.contains j then h else h.modify j fun n => { n with modified := time }) h

/-- Set the permission bits of the node at the end of a path. -/
def setMode (h : Host) (p : Path) (mode : UInt32) : Except HostError Host := do
  let place ← h.find .follow p
  return h.modify place.ino fun n => { n with mode }

/-- Set the time of modification of the node at the end of a path. -/
def setModified (h : Host) (p : Path) (time : Instant) : Except HostError Host := do
  let place ← h.find .keep p
  return h.modify place.ino fun n => { n with modified := time }

/-- Give a file new contents, in place. -/
def overwriteFile (h : Host) (p : Path) (bs : Bytes) : Except HostError Host := do
  let (d, h) ← h.openAt p ⟨false, true, false, true, .ifMissing, .follow⟩
  d.write 0 bs h

end Host

/-- What the owner of the host can do. -/
inductive Chore
  | dir (mode : UInt32)
  | file (data : Bytes) (mode : UInt32)
  | link (target : Bytes)
  | name (existing : Path)
  | fifo
  | socket
  | unlink
  | removeDir
  | removeTree
  | rename (new : Path)
  | chmod (mode : UInt32)
  /-- Nothing but look whether it is there. -/
  | look

namespace Chore

/-- Whether it makes something. -/
def makes : Chore → Bool
  | dir _ | file .. | link _ | name _ | fifo | socket => true
  | _ => false

/-- The chore itself. -/
def act (c : Chore) (p : Path) (h : Host) : Except HostError Host :=
  match c with
  | dir mode =>
    match Host.makeDirs p h with
    | (.ok (), h) => h.setMode p mode
    | (.error e, _) => .error e
  | file data mode => do (← h.overwriteFile p data).setMode p mode
  | link target => h.makeLink p target
  | name existing => h.makeName existing p
  | fifo => h.makeFifo p
  | socket => h.makeSocket p
  | unlink => h.unlink p
  | removeDir => h.removeDir p
  | removeTree => h.removeTree p
  | rename new => h.rename p new
  | chmod mode => h.setMode p mode
  | look => do
    let _ ← h.find .keep p
    return h

/-- Do a chore at a path. If it fails, directories made for it stay. -/
def perform (c : Chore) (p : Path) (h : Host) : Except HostError Unit × Host :=
  match if c.makes then Host.makeParents p h else (.ok (), h) with
  | (.error e, h) => (.error e, h)
  | (.ok (), h) =>
    match c.act p h with
    | .ok h' => (.ok (), h')
    | .error e => (.error e, h)

end Chore

end GuestShare
