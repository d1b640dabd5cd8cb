import GuestShare.Share.Walk

/-!
# Opening

A regular file is opened on the host, a directory is listed once and for all, and anything else is
opened in name only.

* `Access`: what a client wants to do with a file, by the flags of either dialect.
* `Share.openNode`, `Share.openFor`, `Share.lopen`, `Share.open`: opening a fid.
* `Share.newFile`, `Share.lcreate`: creating a file and opening it.
-/

namespace GuestShare

/-- What a client wants to do with a file. -/
structure Access where
  read : Bool
  write : Bool
  truncate : Bool
  append : Bool
deriving Repr, DecidableEq

namespace Access

/-- The access that a word of flags asks for. -/
def ofFlags (flags : UInt32) : Access :=
  let mode := flags &&& 0o3
  ⟨mode ≠ 1, mode = 1 || mode = 2, flags &&& 0o1000 ≠ 0, flags &&& 0o2000 ≠ 0⟩

/-- The access that a mode of the older dialect asks for. -/
def ofMode (mode : UInt8) : Access :=
  let access := mode &&& 0x3
  ⟨access ≠ 1, access = 1 || access = 2, mode &&& 0x10 ≠ 0, false⟩

/-- How to open an existing file. One that is appended to is not emptied on opening. -/
def how (a : Access) : OpenHow :=
  ⟨a.read, a.write && !a.append, a.write && a.append, a.write && a.truncate && !a.append, .never,
    .follow⟩

/-- How to create a file. It can always be read and written. -/
def howToCreate (a : Access) (exclusive : Bool) : OpenHow :=
  ⟨true, true, false, a.truncate, if exclusive then .mustBeNew else .ifMissing, .keep⟩

/-- Empty a file that has been opened to be appended to, if it shall be emptied. -/
def emptyOpened (a : Access) (handle : FidHandle) (h : Host) : Except HostError Host :=
  match handle with
  | .file d => if a.write && a.truncate && a.append then d.setLength 0 h else .ok h
  | _ => .ok h

end Access

/-- The flag that a file to create must not exist. -/
def exclusiveFlag : UInt32 := 0o200

namespace Share

/-- The names in a directory that are text, sorted. -/
def listing (s : Share) (p : GuestPath) : Except ShareError (List String) := do
  let names ← (s.host.listDir (s.hostPath p)).mapError .host
  return names.filterMap Bytes.toText?

/-- Open the node of a fid, and tell the node and what its fid is to be. -/
def openNode (s : Share) (id : FidId) (a : Access) : Except ShareError ((Fid × Node) × Share) := do
  let fid ← s.fids.find id
  let n ← s.node fid.path
  let (handle, h) ← match n.kind with
    | .directory => pure (FidHandle.dir (← s.listing fid.path), s.host)
    | .symlink => pure (FidHandle.unopened, s.host)
    | _ =>
      if n.inode.body.isFile then do
        let (d, h) ← (s.host.openAt (s.hostPath fid.path) a.how).mapError ShareError.host
        pure (FidHandle.file d, h)
      else pure (FidHandle.unopened, s.host)
  return (({ fid with handle }, n), { s with host := h })

/-- Open a fid. -/
def openFor (s : Share) (id : FidId) (a : Access) (reply : Qid → UInt32 → Reply) :
    Except ShareError Reply × Share :=
  s.settleThen (s.openNode id a) fun (fid, n) s => do
    let h ← (a.emptyOpened fid.handle s.host).mapError ShareError.host
    return (reply n.qid s.iounit, { s with host := h }.bindFid id fid)

/-- Open a fid by flags. -/
def lopen (s : Share) (id : FidId) (flags : UInt32) : Except ShareError Reply × Share :=
  s.openFor id (.ofFlags flags) .lopen

/-- Open a fid by a mode of the older dialect. -/
def «open» (s : Share) (id : FidId) (mode : UInt8) : Except ShareError Reply × Share :=
  s.openFor id (.ofMode mode) .open

/-- Whether a path is that of a link of the host. -/
def isHostLink (s : Share) (p : GuestPath) : Bool :=
  match s.inspect p with
  | .ok (_, n) => n.body.isLink
  | .error _ => false

/-- The records of a new node, which replace all there were. -/
def recordNew (s : Store) (key : String) (kind : NodeKind) (mode uid gid : UInt32) (now : Instant) :
    Store :=
  ((s.delete key).setPermission key (.ofMode mode uid gid now.short)).setKind key kind

/-- Create a file in a directory, with its records, and tell what its fid is to be. -/
def newFile (s : Share) (id : FidId) (name : String) (flags mode gid : UInt32) :
    Except ShareError (Fid × Share) := do
  let dir ← s.directory id
  let path ← entryPath dir.path name
  if s.isHostLink path then throw (.noPath (.behindLink path.key))
  let how := (Access.ofFlags flags).howToCreate (flags &&& exclusiveFlag ≠ 0)
  let (d, h) ← (s.host.openAt (s.hostPath path) how).mapError ShareError.host
  let store := recordNew s.store path.key .file mode dir.uid gid h.clock
  return ({ dir with path, handle := .file d }, { s with host := h, store })

/-- Create a file in a directory and open it. The fid of the directory goes to the file. -/
def lcreate (s : Share) (id : FidId) (name : String) (flags mode gid : UInt32) :
    Except ShareError Reply × Share :=
  s.settleThen (s.newFile id name flags mode gid) fun fid s => do
    let n ← s.node fid.path
    return (.lcreate n.qid s.iounit, s.bindFid id fid)

end Share

end GuestShare
