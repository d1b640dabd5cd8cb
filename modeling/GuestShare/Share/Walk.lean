import GuestShare.Share.Node

/-!
# Attaching and walking

A walk goes from a node to others name by name. A step is taken only if the path exists on the host
and really lies in the export, links followed. Its path stays as the client spelled it.

* `isPlainName`, `isEntryName`: names that a walk may use, and names that entries may have.
* `Share.step`, `Share.steps`: one step, and as many as can be taken.
* `Share.version`, `Share.attach`, `Share.walk`: the requests.
-/

namespace GuestShare

/-- Whether a name may be a step of a walk. -/
def isPlainName (name : String) : Bool :=
  !name.isEmpty && !name.contains '/' && !name.contains '\x00'

/-- Whether an entry may have this name. -/
def isEntryName (name : String) : Bool := isPlainName name && name ≠ "." && name ≠ ".."

/-- Where a name leads from a path. There is no way up from the root. -/
def GuestPath.next (p : GuestPath) (name : String) : GuestPath :=
  if name = "." then p
  else if name = ".." then p.dropLast
  else p ++ [name]

/-- The version of the protocol. -/
def protocolVersion : String := "9P2000.L"

namespace Share

/-- Whether a path leads to a node in the export, links followed. -/
def staysInside (s : Share) (p : GuestPath) : Bool :=
  match s.host.canonical (s.hostPath p) with
  | .ok names => s.root.isPrefixOf names
  | .error _ => false

/-- One step of a walk. -/
def step (s : Share) (p : GuestPath) (name : String) : Option Node :=
  if !isPlainName name then none
  else
    let p := p.next name
    match s.node p with
    | .error _ => none
    | .ok n => if s.staysInside p then some n else none

/-- The nodes of a walk, as far as it gets. -/
def steps (s : Share) : GuestPath → List String → List Node
  | _, [] => []
  | p, name :: names =>
    match s.step p name with
    | none => []
    | some n => n :: steps s n.path names

/-- The path of an entry of a directory, whether it is there or not. -/
def entryPath (dir : GuestPath) (name : String) : Except ShareError GuestPath :=
  if isEntryName name then .ok (dir ++ [name]) else .error (.refused (.invalidName name))

/-- Begin anew. -/
def version (s : Share) (msize : UInt32) : Answer :=
  .ok (.version msize protocolVersion, { s.reset with msize := max msize (readOverhead + 1) })

/-- Bind a fid to the root. -/
def bindRoot (s : Share) (id : FidId) (uid : UInt32) : Answer := do
  let n ← s.node []
  return (.attach n.qid, s.bindFid id ⟨[], if uid = noId then 0 else uid, .unopened⟩)

/-- Bind a fid to the root, which is made again if it is gone. What has been made of it stays. -/
def attach (s : Share) (id : FidId) (uid : UInt32) : Except ShareError Reply × Share :=
  match Host.makeDirs (Path.ofNames s.root) s.host with
  | (.error e, h) => (.error (.host e), { s with host := h })
  | (.ok (), h) =>
    let s := { s with host := h }
    s.settle (s.bindRoot id uid)

/-- Bind a fid to the node at the end of a walk, if the walk gets there. -/
def walk (s : Share) (id newId : FidId) (names : List String) : Answer := do
  let source ← s.fids.find id
  let nodes := s.steps source.path names
  if names.isEmpty then
    return (.walk [], s.bindFid newId { source with handle := .unopened })
  match nodes.getLast? with
  | none => throw (.noPath (.step names))
  | some last =>
    let reply := Reply.walk (nodes.map Node.qid)
    if nodes.length = names.length then
      return (reply, s.bindFid newId { source with path := last.path, handle := .unopened })
    return (reply, s)

end Share

end GuestShare
