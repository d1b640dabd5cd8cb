import GuestShare.Host.Resolve

/-!
# Making, removing and renaming entries

Every change of a directory's entries sets the directory's time of modification.

* `Host.makeDir`, `Host.makeDirs`: a directory, or a directory with all that are missing above it.
* `Host.makeLink`, `Host.makeFifo`, `Host.makeSocket`, `Host.makeName`: other nodes, and a further
  name for a node.
* `Host.unlink`, `Host.removeDir`: removing an entry.
* `Host.rename`: moving an entry. If both names are names of one node, nothing happens.
* `Host.replaceFile`: a file put in the place of another in one go.
-/

namespace GuestShare

namespace Host

/-! ## Making -/

/-- Make a directory. -/
def makeDir (h : Host) (p : Path) : Except HostError Host := do
  let (dir, name) ← h.vacancy p
  return (h.create dir name (.directory ∅) dirMode).2

/-- Make the first of some directories that can be made, each lying in the next one, and tell
which ones before it are missing. -/
def makeFirst : List Path → Host → Except HostError (List Path × Host)
  | [], h => .ok ([], h)
  | p :: above, h =>
    match h.makeDir p with
    | .ok h' => .ok ([], h')
    | .error .notFound => do
      let (missing, h') ← makeFirst above h
      return (missing ++ [p], h')
    | .error e => if e = .alreadyExists && h.leadsToDirectory p then .ok ([], h) else .error e

/-- Make directories, one after the other. What is a directory already may stay. -/
def makeEach : List Path → Host → Except HostError Unit × Host
  | [], h => (.ok (), h)
  | p :: rest, h =>
    match h.makeDir p with
    | .ok h' => makeEach rest h'
    | .error e =>
      if e = .alreadyExists && h.leadsToDirectory p then makeEach rest h else (.error e, h)

/-- Make a directory and those above it, as far as they are missing. If one cannot be made, those
above it stay. -/
def makeDirs (p : Path) (h : Host) : Except HostError Unit × Host :=
  match makeFirst p.ancestors h with
  | .ok (missing, h') => makeEach missing h'
  | .error e => (.error e, h)

/-- Make the directories above the end of a path. -/
def makeParents (p : Path) (h : Host) : Except HostError Unit × Host :=
  match p.ancestors with
  | _ :: above :: _ => makeDirs above h
  | _ => (.ok (), h)

/-- Make a node that a path with a slash at its end cannot speak of. -/
def makeNode (h : Host) (p : Path) (body : Body) (mode : UInt32) : Except HostError Host := do
  let (dir, name) ← h.vacancy p
  if p.closed then throw .notFound
  return (h.create dir name body mode).2

/-- Make a symbolic link. -/
def makeLink (h : Host) (p : Path) (target : Bytes) : Except HostError Host := do
  if target.isEmpty then throw .notFound
  h.makeNode p (.link target) 0o777

/-- Make a named pipe. -/
def makeFifo (h : Host) (p : Path) : Except HostError Host := h.makeNode p .fifo fileMode

/-- Make a socket that nobody listens on. -/
def makeSocket (h : Host) (p : Path) : Except HostError Host := h.makeNode p .socket fileMode

/-- Give a node that is no directory one more name. -/
def makeName (h : Host) (old new : Path) : Except HostError Host := do
  let place ← h.find .keep old
  let (dir, name) ← h.vacancy new
  if new.closed then throw .notFound
  if h.isDirectory place.ino then throw .isDirectory
  return h.bind dir name place.ino

/-! ## Removing -/

/-- Remove an entry that is no directory. -/
def unlink (h : Host) (p : Path) : Except HostError Host := do
  let (place, name) ← h.occupant p
  if h.isDirectory place.ino then throw .isDirectory
  if p.closed then throw .notDirectory
  return h.unbind place.up.ino name

/-- Remove an empty directory. -/
def removeDir (h : Host) (p : Path) : Except HostError Host := do
  let (place, name) ← h.occupant p
  let entries ← h.entriesAt place
  if !entries.isEmpty then throw .notEmpty
  return h.unbind place.up.ino name

/-! ## Renaming -/

/-- Whether a node may take the place of another: a directory that of an empty directory, anything
else that of anything but a directory. -/
def mayReplace (h : Host) (i j : Ino) : Except HostError Unit :=
  match h.entries? i, h.entries? j with
  | some _, some es => if es.isEmpty then .ok () else .error .notEmpty
  | some _, none => .error .notDirectory
  | none, some _ => .error .isDirectory
  | none, none => .ok ()

/-- Move the entry of a node into a directory under a new name. -/
def move (h : Host) (place : Place) (name : Name) (dir : Place) (newName : Name) :
    Except HostError Host := do
  if h.isDirectory place.ino && dir.passes place.ino then throw .invalid
  return (h.unbind place.up.ino name).bind dir.ino newName place.ino

/-- Move an entry. -/
def rename (h : Host) (old new : Path) : Except HostError Host := do
  let (place, name) ← h.occupant old
  let spot ← h.slot new
  if (old.closed || new.closed) && !h.isDirectory place.ino then throw .notDirectory
  match spot with
  | .vacant dir newName => h.move place name dir newName
  | .node there =>
    if there.ino = place.ino then return h
    match there.trail with
    | [] => throw .invalid
    | (newName, _) :: _ =>
      h.mayReplace place.ino there.ino
      h.move place name there.up newName

/-- Put a new file with the given bytes in the place of an entry of a directory. It is written
beside that entry first and then takes its name, so the directory is changed even if the entry is a
directory, which stays. -/
def replaceFile (dir : Path) (name : Name) (bs : Bytes) (mode : UInt32) (h : Host) :
    Except HostError Unit × Host :=
  match h.find .follow dir with
  | .error e => (.error e, h)
  | .ok place =>
    match h.lookup place name with
    | .error e => (.error e, h)
    | .ok there =>
      if (there.map h.isDirectory).getD false then
        (.error .isDirectory, h.modifyEntries place.ino id)
      else (.ok (), (h.create place.ino name (.file (.ofBytes bs)) mode).2)

end Host

end GuestShare
