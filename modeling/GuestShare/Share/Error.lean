import GuestShare.Host.Basic
import GuestShare.Metadata.CategoryFile
import GuestShare.Text.Lossy
import GuestShare.Text.Quoted
import GuestShare.Wire.Message

/-!
# Why a request fails

* `Refusal`: what a request may not ask for.
* `Missing`: what is not there.
* `ShareError`: every cause, with its wording `ShareError.message` and the number
  `ShareError.errno` by which the client is told.
-/

namespace GuestShare

/-- What a request may not ask for. -/
inductive Refusal
  | unsupported (code : UInt8)
  | nodeType (mode : UInt32)
  | major (n : UInt32)
  | minor (n : UInt32)
  | invalidName (name : String)
  | removeRoot
  | timeRange
  | longWrite
deriving Repr, DecidableEq

/-- What is not there. -/
inductive Missing
  /-- A node of the host. -/
  | node (names : List Name)
  /-- The first step of a walk. -/
  | step (names : List String)
  /-- A file to create: its name is taken by a link of the host, which is not followed. -/
  | behindLink (key : String)
deriving Repr, DecidableEq

/-- Why a request fails. -/
inductive ShareError
  | refused (r : Refusal)
  | unknownFid (fid : FidId)
  | noPath (m : Missing)
  | host (e : HostError)
  | isDirectory
  | notDirectory
  | notSymlink
  | notOpen (fid : FidId)
  | store (e : StoreError)
deriving Repr, DecidableEq

/-- The wording of a refusal. -/
def Refusal.message : Refusal → String
  | unsupported code => s!"unsupported message type {code}"
  | nodeType mode => "mknod type " ++ Text.octal mode.toNat
  | major n => s!"major {n}"
  | minor n => s!"minor {n}"
  | invalidName name => "invalid name " ++ Text.quoted name
  | removeRoot => "refusing to remove the export root"
  | timeRange => "timestamp out of range"
  | longWrite => "write larger than a frame"

/-- The wording of what is missing. -/
def Missing.message : Missing → String
  | node names => Text.ofNames names
  | step names => "/".intercalate names
  | behindLink key => key ++ " is a host symlink"

namespace ShareError

/-- The wording of an error. -/
def message : ShareError → String
  | refused r => "protocol error: " ++ r.message
  | unknownFid fid => s!"unknown fid {fid}"
  | noPath m => "no such path: " ++ m.message
  | host e => "host i/o" ++ (e.detail?.map (": " ++ ·)).getD ""
  | isDirectory => "is a directory"
  | notDirectory => "not a directory"
  | notSymlink => "not a symlink"
  | notOpen fid => s!"fid {fid} is not open"
  | store e => "metadata store: " ++ e.message

/-- The number of an argument that is not valid. -/
def invalidArgument : UInt32 := 22

/-- The number of an error. -/
def errno : ShareError → UInt32
  | unknownFid _ | noPath _ => 2
  | host _ | notOpen _ | store _ => 5
  | notDirectory => 20
  | isDirectory => 21
  | refused _ | notSymlink => invalidArgument

/-- The error of looking for a node in vain. -/
def ofLookup (names : List Name) : HostError → ShareError
  | .notFound => noPath (.node names)
  | e => host e

end ShareError

end GuestShare
