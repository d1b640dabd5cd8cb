import GuestShare.Host.Basic

/-!
# Where a path leads

The host goes a path step by step. A link on the way is followed: its target is gone first, from
the directory that the link is in, and then the rest of the path. At most forty links are followed.

* `AtEnd`: what happens to a link at the end of the path.
* `Spot`: where a path ends, at a node or at a name that a directory does not have yet.
* `Host.locate`, `Host.find`: where a path leads.
* `Host.canonical`: the absolute path without links, "." or ".." of the same node.
* `Host.slot`: the directory entry that a path speaks of, for changing it.
-/

namespace GuestShare

/-- What happens to a link at the end of a path. -/
inductive AtEnd
  | keep
  | follow
deriving Repr, DecidableEq

/-- Where a path ends. -/
inductive Spot
  | node (place : Place)
  /-- The directory has no such entry. -/
  | vacant (dir : Place) (name : Name)
deriving Repr, DecidableEq

namespace Host

/-- The most links on one way. -/
def maxLinks : Nat := 40

/-- The entries of the directory at a place. -/
def entriesAt (h : Host) (p : Place) : Except HostError Entries :=
  match h.entries? p.ino with
  | some es => .ok es
  | none => .error .notDirectory

/-- The node that a directory has under a name. -/
def lookup (h : Host) (p : Place) (name : Name) : Except HostError (Option Ino) := do
  let es ← h.entriesAt p
  if Name.maxLength < name.length then throw .nameTooLong
  return es[name]?

/-- Go the steps from a place. `expand` goes on behind a link that has to be followed. -/
def walkSteps (h : Host) (atEnd : AtEnd) (expand : Place → List Step → Except HostError Spot) :
    Place → List Step → Except HostError Spot
  | p, [] => .ok (.node p)
  | p, .here :: rest => do
    let _ ← h.entriesAt p
    walkSteps h atEnd expand p rest
  | p, .up :: rest => do
    let _ ← h.entriesAt p
    walkSteps h atEnd expand p.up rest
  | p, .down name :: rest => do
    match ← h.lookup p name with
    | none => if rest.isEmpty then return .vacant p name else throw .notFound
    | some i =>
      match h.target? i with
      | none => walkSteps h atEnd expand (p.down name i) rest
      | some target =>
        if rest.isEmpty && atEnd = .keep then return .node (p.down name i)
        let aim := Path.parse target
        expand (if aim.absolute then Place.root else p) (aim.toSteps ++ rest)

/-- Go the steps from a place, with at most `links` links on the way. -/
def walk (h : Host) (atEnd : AtEnd) : (links : Nat) → Place → List Step → Except HostError Spot
  | 0 => h.walkSteps atEnd fun _ _ => .error .tooManyLinks
  | links + 1 => h.walkSteps atEnd (walk h atEnd links)

/-- Where a path ends. -/
def locate (h : Host) (atEnd : AtEnd) (p : Path) : Except HostError Spot :=
  if p.isEmpty then .error .notFound
  else if p.steps.any Step.hasNul then .error .nulByte
  else h.walk atEnd maxLinks (if p.absolute then Place.root else h.workDir) p.toSteps

/-- The place that a path leads to. -/
def find (h : Host) (atEnd : AtEnd) (p : Path) : Except HostError Place := do
  match ← h.locate atEnd p with
  | .node place => return place
  | .vacant .. => throw .notFound

/-- The node that a path leads to, links at its end not followed. -/
def inspect (h : Host) (p : Path) : Except HostError (Ino × Inode) := do
  let place ← h.find .keep p
  match h.node? place.ino with
  | some n => return (place.ino, n)
  | none => throw .notFound

/-- The names from the root to the node that a path leads to. -/
def canonical (h : Host) (p : Path) : Except HostError (List Name) :=
  Place.names <$> h.find .follow p

/-- Whether a path leads to a directory. -/
def leadsToDirectory (h : Host) (p : Path) : Bool :=
  match h.find .follow p with
  | .ok place => h.isDirectory place.ino
  | .error _ => false

/-- The directory entry that a path speaks of, for changing it. A path that ends with "." or ".."
speaks of none, nor does the root. -/
def slot (h : Host) (p : Path) : Except HostError Spot :=
  match p.steps.getLast? with
  | some (.down _) => h.locate .keep p.opened
  | _ => do
    if p.isEmpty then throw .notFound
    let _ ← h.find .follow p.before
    throw .alreadyExists

/-- The place for a new entry. -/
def vacancy (h : Host) (p : Path) : Except HostError (Ino × Name) := do
  match ← h.slot p with
  | .node _ => throw .alreadyExists
  | .vacant dir name => return (dir.ino, name)

/-- An existing entry: its place and its name. -/
def occupant (h : Host) (p : Path) : Except HostError (Place × Name) := do
  match ← h.slot p with
  | .vacant .. => throw .notFound
  | .node place =>
    match place.trail with
    | [] => throw .invalid
    | (name, _) :: _ => return (place, name)

end Host

end GuestShare
