import GuestShare.Share.Node

/-!
# Reading and writing

* `Share.readdir`: entries of a listing, from a position on and as many as fit.
* `Share.read`, `Share.write`, `Share.fsync`: the contents of open files. The text of a link can be
  read like a file that is open.
-/

namespace GuestShare

namespace Share

/-! ## Directories -/

/-- The entries of some names at a position in a listing, as many as fit into `budget` bytes. Names
that are gone are left out. -/
def entriesFrom (s : Share) (dir : GuestPath) :
    (budget : Nat) → (position : Nat) → List String → List DirEntry
  | _, _, [] => []
  | budget, position, name :: names =>
    match s.node (dir ++ [name]) with
    | .error _ => entriesFrom s dir budget (position + 1) names
    | .ok n =>
      let e : DirEntry := ⟨n.qid, UInt64.ofNat (position + 1), n.entryType, name⟩
      if budget < e.size then []
      else e :: entriesFrom s dir (budget - e.size) (position + 1) names

/-- Entries of a listing. -/
def readdir (s : Share) (id : FidId) (offset : UInt64) (count : UInt32) : Answer := do
  let fid ← s.fids.find id
  match fid.handle with
  | .dir names =>
    let entries := s.entriesFrom fid.path (s.budget count) offset.toNat (names.drop offset.toNat)
    return (.readdir entries, s)
  | _ => throw .notDirectory

/-! ## Files -/

/-- Read the contents of a file, or the text of a link. -/
def read (s : Share) (id : FidId) (offset : UInt64) (count : UInt32) : Answer := do
  let count := s.budget count
  let fid ← s.fids.find id
  match fid.handle with
  | .file d => return (.read (← (d.read offset.toNat count s.host).mapError ShareError.host), s)
  | .dir _ => throw .isDirectory
  | .unopened =>
    match ← s.linkText fid.path with
    | some target => return (.read (((Bytes.ofText target).drop offset.toNat).take count), s)
    | none =>
      if s.host.leadsToDirectory (s.hostPath fid.path) then throw .isDirectory
      throw (.notOpen id)

/-- Write to the file that a fid holds open. -/
def writeFile (s : Share) (id : FidId) (offset : UInt64) (data : Bytes) :
    Except ShareError (Unit × Share) := do
  let fid ← s.fids.find id
  match fid.handle with
  | .file d =>
    let h ← (d.write offset.toNat data s.host).mapError ShareError.host
    return ((), { s with host := h })
  | .dir _ => throw .isDirectory
  | .unopened => throw (.notOpen id)

/-- Write the contents of a file, and tell how many bytes that were. -/
def write (s : Share) (id : FidId) (offset : UInt64) (data : Bytes) :
    Except ShareError Reply × Share :=
  s.settleThen (s.writeFile id offset data) fun () s =>
    if UInt32.size ≤ data.length then .error (.refused .longWrite)
    else .ok (.write (UInt32.ofNat data.length), s)

/-- Bring an open file to the disk. -/
def fsync (s : Share) (id : FidId) : Answer := do
  let fid ← s.fids.find id
  match fid.handle with
  | .file d => (d.sync s.host).mapError ShareError.host
  | _ => pure ()
  return (.fsync, s)

end Share

end GuestShare
