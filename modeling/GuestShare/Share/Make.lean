import GuestShare.Share.Open

/-!
# Making nodes

Directories are made on the host. Of anything else the host gets an empty file in its place, and
the records say what it is.

* `Share.makePlace`: the empty file.
* `Share.newLink`, `Share.newNode`, `Share.newDir`: the nodes, with their records.
* `Share.symlink`, `Share.mknod`, `Share.mkdir`: the requests.
* `deviceOf`: the device that a request describes, if its numbers fit.
-/

namespace GuestShare

/-- A number of a device. -/
def deviceNumber (n : UInt32) (refusal : UInt32 → Refusal) : Except ShareError UInt16 :=
  if n.toNat < UInt16.size then .ok n.toUInt16 else .error (.refused (refusal n))

/-- The device that a node of some kind is. -/
def deviceOf (kind : NodeKind) (major minor : UInt32) : Except ShareError (Option Device) :=
  let record (k : DeviceKind) : Except ShareError (Option Device) := do
    let major ← deviceNumber major .major
    let minor ← deviceNumber minor .minor
    return some ⟨k, major, minor⟩
  match kind with
  | .charDevice => record .char
  | .blockDevice => record .block
  | _ => .ok none

namespace Share

/-- Put an empty file in the place of a new node. -/
def makePlace (s : Share) (p : GuestPath) : Except ShareError Host := do
  let (_, h) ← (s.host.openAt (s.hostPath p) .fresh).mapError ShareError.host
  return h

/-- The permission bits of a link. -/
def linkMode : UInt32 := 0o777

/-- Make a link with its records, and tell its path. -/
def newLink (s : Share) (id : FidId) (name target : String) (gid : UInt32) :
    Except ShareError (GuestPath × Share) := do
  let dir ← s.directory id
  let path ← entryPath dir.path name
  let h ← s.makePlace path
  let store := recordNew s.store path.key .symlink linkMode dir.uid gid h.clock
  return (path, { s with host := h, store := store.setSymlink path.key target })

/-- Make a file, a device, a pipe or a socket with its records, and tell its path. -/
def newNode (s : Share) (id : FidId) (name : String) (mode major minor gid : UInt32) :
    Except ShareError (GuestPath × Share) := do
  let some kind := NodeKind.ofMode? mode | throw (.refused (.nodeType mode))
  let device ← deviceOf kind major minor
  let dir ← s.directory id
  let path ← entryPath dir.path name
  let h ← s.makePlace path
  let store := recordNew s.store path.key kind mode dir.uid gid h.clock
  let store := match device with
    | some d => store.setDevice path.key d
    | none => store
  return (path, { s with host := h, store })

/-- Make a directory with its records, and tell its path. -/
def newDir (s : Share) (id : FidId) (name : String) (mode gid : UInt32) :
    Except ShareError (GuestPath × Share) := do
  let dir ← s.directory id
  let path ← entryPath dir.path name
  let h ← (s.host.makeDir (s.hostPath path)).mapError ShareError.host
  let store := recordNew s.store path.key .directory mode dir.uid gid h.clock
  return (path, { s with host := h, store })

/-- Answer with what a new node is identified by. -/
def describe (reply : Qid → Reply) (p : GuestPath) (s : Share) : Answer := do
  let n ← s.node p
  return (reply n.qid, s)

/-- Make a link. -/
def symlink (s : Share) (id : FidId) (name target : String) (gid : UInt32) :
    Except ShareError Reply × Share :=
  s.settleThen (s.newLink id name target gid) (describe .symlink)

/-- Make a file, a device, a pipe or a socket. -/
def mknod (s : Share) (id : FidId) (name : String) (mode major minor gid : UInt32) :
    Except ShareError Reply × Share :=
  s.settleThen (s.newNode id name mode major minor gid) (describe .mknod)

/-- Make a directory. -/
def mkdir (s : Share) (id : FidId) (name : String) (mode gid : UInt32) :
    Except ShareError Reply × Share :=
  s.settleThen (s.newDir id name mode gid) (describe .mkdir)

end Share

end GuestShare
