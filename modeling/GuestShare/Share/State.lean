import GuestShare.Metadata.Store
import GuestShare.Share.Error

/-!
# A share

A share exports one directory of the host. What the client sees of it hangs together by paths below
that directory, which also are the keys of the records.

* `GuestPath`, `GuestPath.key`: the paths.
* `Fid`: what a client holds of a node.
* `Share`: the state of the server and of its host.
* `Share.start`: a share of a directory, which is made if it is missing.
* `Share.reset`: all fids let go.
* `Share.settle`, `Share.settleThen`: what is left of a request that fails.
-/

namespace GuestShare

/-- A path below the exported directory. -/
abbrev GuestPath := List String

/-- The key of the records of a path. -/
def GuestPath.key (p : GuestPath) : String := if p.isEmpty then "." else "/".intercalate p

/-! ## Fids -/

/-- How far a fid has been opened. -/
inductive FidHandle
  | unopened
  | file (d : Descriptor)
  /-- The names that the directory had when it was opened. -/
  | dir (names : List String)
deriving Repr, DecidableEq

/-- What a client holds of a node. -/
structure Fid where
  path : GuestPath
  /-- The owner of what is created through it. -/
  uid : UInt32
  handle : FidHandle
deriving Repr, DecidableEq

/-- The fids of a client. -/
abbrev Fids := Std.ExtTreeMap FidId Fid

namespace Fids

/-- The fid of a number. -/
def find (t : Fids) (id : FidId) : Except ShareError Fid :=
  match t[id]? with
  | some fid => .ok fid
  | none => .error (.unknownFid id)

/-- Every fid at or below one path taken to the same place under another. -/
def relocate (t : Fids) (old new : GuestPath) : Fids :=
  t.map fun _ fid =>
    match behind? old fid.path with
    | some rest => { fid with path := new ++ rest }
    | none => fid

end Fids

/-! ## Shares -/

/-- A share and its host. -/
structure Share where
  host : Host
  /-- The exported directory. -/
  root : List Name
  store : Store
  fids : Fids
  iounit : UInt32
  /-- The largest message. -/
  msize : UInt32

/-- What to share. -/
structure ShareOptions where
  root : String
  metadataDir : String
  iounit : UInt32
deriving Repr, DecidableEq

/-- What a request comes to. -/
abbrev Answer := Except ShareError (Reply × Share)

namespace Share

/-- The largest message before the client says otherwise. -/
def defaultMsize : UInt32 := 524288

/-- The bytes of a read reply before its data. -/
def readOverhead : UInt32 := 11

/-- The unit for reading and writing, unless told otherwise. -/
def defaultIounit : UInt32 := 8192

/-- The names of a path on the host. -/
def hostNames (s : Share) (p : GuestPath) : List Name := s.root ++ p.map Name.ofText

/-- A path on the host. -/
def hostPath (s : Share) (p : GuestPath) : Path := Path.ofNames (s.hostNames p)

/-- A share of a directory, which is made if it is missing. -/
def start (o : ShareOptions) (h : Host) : Except ShareError Share × Host :=
  match Host.makeDirs (Path.ofText o.root) h with
  | (.error e, h) => (.error (.host e), h)
  | (.ok (), h) =>
    match h.canonical (Path.ofText o.root) with
    | .error e => (.error (.host e), h)
    | .ok root => (.ok ⟨h, root, Store.load o.metadataDir h, ∅, o.iounit, defaultMsize⟩, h)

/-- Let go of all fids, as for a new client. -/
def reset (s : Share) : Share := { s with fids := ∅, msize := defaultMsize }

/-- How many fids there are. -/
def fidCount (s : Share) : Nat := s.fids.size

/-- The most bytes that a reply may carry if the client asks for `count`. -/
def budget (s : Share) (count : UInt32) : Nat :=
  min count.toNat (s.msize.toNat - readOverhead.toNat)

/-- Bind a fid. -/
def bindFid (s : Share) (id : FidId) (fid : Fid) : Share :=
  { s with fids := s.fids.insert id fid }

/-- The reply and the share after something that leaves no trace if it fails. -/
def settle (s : Share) : Answer → Except ShareError Reply × Share
  | .ok (reply, s') => (.ok reply, s')
  | .error e => (.error e, s)

/-- The reply and the share after two such things, one after the other. If the second one fails,
what the first one did stays. -/
def settleThen {α : Type} (s : Share) (first : Except ShareError (α × Share))
    (second : α → Share → Answer) : Except ShareError Reply × Share :=
  match first with
  | .ok (a, s') => s'.settle (second a s')
  | .error e => (.error e, s)

end Share

end GuestShare
