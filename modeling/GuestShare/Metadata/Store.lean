import GuestShare.Host.Entry
import GuestShare.Host.Descriptor
import GuestShare.Metadata.CategoryFile
import GuestShare.Metadata.JsonFile

/-!
# The metadata store

The store has a ledger for each category and a directory on the host where the ledgers are kept.

* `Store.load`: the store as the files of a directory have it. Loading never fails; a file that
  cannot be used counts as empty.
* `Store.setPermission` … `Store.rename`: changes, which stay in memory.
* `Store.flush`: every changed ledger written. The first one that cannot be written, and those
  after it, stay pending.
-/

namespace GuestShare

/-- The records of an export. -/
structure Store where
  /-- The path of the directory, as it was given. -/
  dir : String
  permissions : Ledger Permissions
  symlinks : Ledger String
  kinds : Ledger NodeKind
  devices : Ledger Device

namespace Store

/-- The path of the directory. An empty path stands for the working directory. -/
def dirPath (dir : String) : Path :=
  let p := Path.ofText dir
  if p.isEmpty then ⟨false, [.here], false⟩ else p

/-! ## Loading -/

/-- The records of a category as its files have them. -/
def loadRecords {α : Type} (p : Payload α) (older : JsonValue → Option (List (String × α)))
    (c : Category) (dir : Path) (h : Host) : Records α :=
  match h.fileBytes (dir.child (Name.ofText c.fileName)) with
  | .ok bs => (CategoryFile.decode p bs).getD ∅
  | .error .notFound =>
    match h.fileBytes (dir.child (Name.ofText c.olderFileName)) with
    | .ok bs =>
      match (Bytes.toText? bs).bind JsonValue.parse |>.bind older with
      | some rs => Std.ExtTreeMap.empty.insertMany rs
      | none => ∅
    | .error _ => ∅
  | .error _ => ∅

/-- The store as the files of a directory have it. -/
def load (dir : String) (h : Host) : Store where
  dir := dir
  permissions := ⟨loadRecords .permission JsonFile.permissions .permissions (dirPath dir) h, false⟩
  symlinks := ⟨loadRecords .target JsonFile.symlinks .symlinks (dirPath dir) h, false⟩
  kinds := ⟨loadRecords .kind JsonFile.types .types (dirPath dir) h, false⟩
  devices := ⟨loadRecords .device JsonFile.devices .devices (dirPath dir) h, false⟩

/-! ## Records -/

/-- The permission record under a key. -/
def permission (s : Store) (key : String) : Option Permissions := s.permissions.records[key]?

/-- The target of a link. -/
def symlink (s : Store) (key : String) : Option String := s.symlinks.records[key]?

/-- The kind of a node. -/
def kind (s : Store) (key : String) : Option NodeKind := s.kinds.records[key]?

/-- The numbers of a device. -/
def device (s : Store) (key : String) : Option Device := s.devices.records[key]?

/-- Set a permission record. -/
def setPermission (s : Store) (key : String) (r : Permissions) : Store :=
  { s with permissions := s.permissions.set key r }

/-- Set the kind of a node. -/
def setKind (s : Store) (key : String) (k : NodeKind) : Store :=
  { s with kinds := s.kinds.set key k }

/-- Make a node a link. -/
def setSymlink (s : Store) (key target : String) : Store :=
  { s with symlinks := s.symlinks.set key target, kinds := s.kinds.set key .symlink }

/-- Set the numbers of a device. -/
def setDevice (s : Store) (key : String) (r : Device) : Store :=
  { s with devices := s.devices.set key r }

/-- Drop every record under a key. -/
def delete (s : Store) (key : String) : Store where
  dir := s.dir
  permissions := s.permissions.delete key
  symlinks := s.symlinks.delete key
  kinds := s.kinds.delete key
  devices := s.devices.delete key

/-- Move every record at or below a key to the same place under another one. -/
def rename (s : Store) (old new : String) : Store where
  dir := s.dir
  permissions := s.permissions.rename old new
  symlinks := s.symlinks.rename old new
  kinds := s.kinds.rename old new
  devices := s.devices.rename old new

/-! ## Flushing -/

/-- Whether a category has changed since it was last written. -/
def isPending (s : Store) : Category → Bool
  | .permissions => s.permissions.pending
  | .symlinks => s.symlinks.pending
  | .types => s.kinds.pending
  | .devices => s.devices.pending

/-- Whether anything has changed since it was last written. -/
def hasPending (s : Store) : Bool := Category.all.any s.isPending

/-- The store with a category counted as written. -/
def settle (s : Store) : Category → Store
  | .permissions => { s with permissions.pending := false }
  | .symlinks => { s with symlinks.pending := false }
  | .types => { s with kinds.pending := false }
  | .devices => { s with devices.pending := false }

/-- The file of a category. -/
def encode (s : Store) (c : Category) : Except StoreError Bytes :=
  match c with
  | .permissions => CategoryFile.encode .permission c s.permissions.records
  | .symlinks => CategoryFile.encode .target c s.symlinks.records
  | .types => CategoryFile.encode .kind c s.kinds.records
  | .devices => CategoryFile.encode .device c s.devices.records

/-- The permission bits of a category file. -/
def categoryFileMode : UInt32 := 0o600

/-- Write a category. -/
def writeCategory (s : Store) (c : Category) (h : Host) : Except StoreError Unit × Host :=
  match s.encode c with
  | .error e => (.error e, h)
  | .ok bs =>
    match Host.replaceFile (dirPath s.dir) (Name.ofText c.fileName) bs categoryFileMode h with
    | (.ok (), h) => (.ok (), h)
    | (.error _, h) => (.error .io, h)

/-- Write the pending ones of some categories, up to the first that cannot be written. -/
def flushEach : List Category → Store → Host → Except StoreError Unit × Store × Host
  | [], s, h => (.ok (), s, h)
  | c :: cs, s, h =>
    if s.isPending c then
      match s.writeCategory c h with
      | (.ok (), h) => flushEach cs (s.settle c) h
      | (.error e, h) => (.error e, s, h)
    else flushEach cs s h

/-- Write every category that has changed. -/
def flush (s : Store) (h : Host) : Except StoreError Unit × Store × Host :=
  if s.hasPending then
    match Host.makeDirs (dirPath s.dir) h with
    | (.ok (), h) => flushEach Category.all s h
    | (.error _, h) => (.error .io, s, h)
  else (.ok (), s, h)

end Store

end GuestShare
