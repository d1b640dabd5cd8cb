import GuestShare.Share.Walk

/-!
# Renaming and removing

The records of a node go where the node goes, and go away with it.

* `Share.renameat`: a node moved; the fids at and below it move along.
* `Share.unlinkat`, `Share.remove`: a node removed. `remove` lets go of the fid in any case.
-/

namespace GuestShare

/-- The flag that a directory is to be removed. -/
def removeDirFlag : UInt32 := 0x200

namespace Share

/-- Move a node. -/
def renameat (s : Share) (oldId : FidId) (oldName : String) (newId : FidId) (newName : String) :
    Answer := do
  let oldDir ← s.directory oldId
  let newDir ← s.directory newId
  let old ← entryPath oldDir.path oldName
  let new ← entryPath newDir.path newName
  let _ ← s.inspect old
  let h ← (s.host.rename (s.hostPath old) (s.hostPath new)).mapError ShareError.host
  return (.renameat, { s with
    host := h
    store := s.store.rename old.key new.key
    fids := s.fids.relocate old new })

/-- Remove a node with its records. -/
def removeAt (s : Share) (p : GuestPath) (mustBeDir : Bool) : Except ShareError Share := do
  let (_, n) ← s.inspect p
  let h ←
    if n.body.isDirectory then (s.host.removeDir (s.hostPath p)).mapError ShareError.host
    else if mustBeDir then throw .notDirectory
    else (s.host.unlink (s.hostPath p)).mapError ShareError.host
  return { s with host := h, store := s.store.delete p.key }

/-- Remove a node by its name. -/
def unlinkat (s : Share) (id : FidId) (name : String) (flags : UInt32) : Answer := do
  let dir ← s.directory id
  let path ← entryPath dir.path name
  return (.unlinkat, ← s.removeAt path (flags &&& removeDirFlag ≠ 0))

/-- Let go of a fid. -/
def dropFid (s : Share) (id : FidId) : Share := { s with fids := s.fids.erase id }

/-- Remove the node of a fid, and let go of the fid. -/
def remove (s : Share) (id : FidId) : Except ShareError Reply × Share :=
  match s.fids.find id with
  | .error e => (.error e, s)
  | .ok fid =>
    let s := s.dropFid id
    if fid.path.isEmpty then (.error (.refused .removeRoot), s)
    else
      match s.removeAt fid.path false with
      | .ok s => (.ok .remove, s)
      | .error e => (.error e, s)

end Share

end GuestShare
