import GuestShare.Host.Contents
import GuestShare.Host.Path
import Std.Data.ExtTreeMap

/-!
# The host

The host keeps its files in nodes. A directory is a node that gives names to nodes; a node may have
many names, or none while it is only held open. A node's number is never given out again.

* `Inode`: a node, that is its body, its permission bits and its times.
* `Host`: all nodes, with the root as number 0, the clock and the working directory. Beside the
  nodes it keeps the time of each one's last change, which a change of its names is too.
* `Place`: a directory entry with all the directories above it.
* `Host.modify`, `Host.alloc`: changes to single nodes.
* `Host.bind`, `Host.unbind`: changes of their names.
* `Host.linkCount`: how many names a node has.
-/

namespace GuestShare

/-- The number of a node. -/
abbrev Ino := Nat

/-- A point in time, counted from the epoch. -/
structure Instant where
  seconds : Nat
  nanos : Nat
deriving Repr, DecidableEq, Inhabited

/-- The nanoseconds of a second. -/
def Instant.nanosPerSecond : Nat := 1000000000

/-- Offsets, lengths and seconds lie below this, which is the bound of signed words of 64 bits. -/
def Host.limit : Nat := 0x8000000000000000

/-- Why the host refuses something. -/
inductive HostError
  | notFound
  | alreadyExists
  | notDirectory
  | isDirectory
  | notEmpty
  | nameTooLong
  | tooManyLinks
  | invalid
  /-- A name with a NUL byte in it. -/
  | nulByte
  /-- A length that no file may have. -/
  | tooLarge
  | badDescriptor
  | noDevice
  | noSeek
deriving Repr, DecidableEq

/-- What is told of a refusal beyond the fact. -/
def HostError.detail? : HostError → Option String
  | nulByte => some "file name contained an unexpected NUL byte"
  | tooLarge => some "number too large to fit in target type"
  | _ => none

/-- The entries of a directory. -/
abbrev Entries := Std.ExtTreeMap Name Ino

/-- What a node is. -/
inductive Body
  | file (contents : Contents)
  | directory (entries : Entries)
  | link (target : Bytes)
  | fifo
  | socket

/-- A node. -/
structure Inode where
  body : Body
  /-- The permission bits. -/
  mode : UInt32
  accessed : Instant
  modified : Instant

/-- A place in the tree: the names from there up to the root, each with the node it names. -/
structure Place where
  trail : List (Name × Ino)
deriving Repr, DecidableEq

/-- The host. -/
structure Host where
  nodes : Array Inode
  /-- When a node or one of its names was last changed. -/
  changed : Ino → Instant
  clock : Instant
  workDir : Place

namespace Place

/-- The root of the host. -/
def root : Place := ⟨[]⟩

/-- The node at a place. -/
def ino (p : Place) : Ino :=
  match p.trail with
  | [] => 0
  | (_, i) :: _ => i

/-- The directory above a place. The root is above itself. -/
def up (p : Place) : Place := ⟨p.trail.tail⟩

/-- The entry of a name in the directory at a place. -/
def down (p : Place) (name : Name) (i : Ino) : Place := ⟨(name, i) :: p.trail⟩

/-- The names that lead from the root to a place. -/
def names (p : Place) : List Name := (p.trail.map Prod.fst).reverse

/-- The absolute path of a place. -/
def path (p : Place) : Path := Path.ofNames p.names

/-- Whether a node is at the place or above it. -/
def passes (p : Place) (i : Ino) : Bool := i = 0 || p.trail.any (·.2 = i)

end Place

namespace Body

/-- The number of bytes that a node reports. -/
def size : Body → Nat
  | file contents => contents.length
  | directory _ => 4096
  | link target => target.length
  | fifo | socket => 0

/-- Whether it is a directory. -/
def isDirectory : Body → Bool
  | directory _ => true
  | _ => false

/-- Whether it is a regular file. -/
def isFile : Body → Bool
  | file _ => true
  | _ => false

/-- Whether it is a symbolic link. -/
def isLink : Body → Bool
  | link _ => true
  | _ => false

end Body

namespace Host

/-- The permission bits of a new file. -/
def fileMode : UInt32 := 0o644

/-- The permission bits of a new directory. -/
def dirMode : UInt32 := 0o755

/-- A host with nothing but a root. -/
def empty (clock : Instant) : Host :=
  ⟨#[⟨.directory ∅, dirMode, clock, clock⟩], fun _ => clock, clock, Place.root⟩

/-- The node of a number. -/
def node? (h : Host) (i : Ino) : Option Inode := h.nodes[i]?

/-- What a node is. -/
def body? (h : Host) (i : Ino) : Option Body := (h.node? i).map Inode.body

/-- The entries of a directory. -/
def entries? (h : Host) (i : Ino) : Option Entries :=
  match h.body? i with
  | some (.directory es) => some es
  | _ => none

/-- The target of a link. -/
def target? (h : Host) (i : Ino) : Option Bytes :=
  match h.body? i with
  | some (.link t) => some t
  | _ => none

/-- Whether a node is a directory. -/
def isDirectory (h : Host) (i : Ino) : Bool := (h.entries? i).isSome

/-! ## Changes to single nodes -/

/-- A node changes now. -/
def mark (h : Host) (i : Ino) : Host :=
  { h with changed := fun j => if j = i then h.clock else h.changed j }

/-- Change a node. -/
def modify (h : Host) (i : Ino) (f : Inode → Inode) : Host :=
  { h.mark i with nodes := h.nodes.modify i f }

/-- Give a node a new body, now. -/
def setBody (h : Host) (i : Ino) (body : Body) : Host :=
  h.modify i fun n => { n with body, modified := h.clock }

/-- A new node without a name. -/
def alloc (h : Host) (body : Body) (mode : UInt32) : Ino × Host :=
  let i := h.nodes.size
  (i, { h.mark i with nodes := h.nodes.push ⟨body, mode, h.clock, h.clock⟩ })

/-- Change the entries of a directory, now. -/
def modifyEntries (h : Host) (dir : Ino) (f : Entries → Entries) : Host :=
  match h.entries? dir with
  | some es => h.setBody dir (.directory (f es))
  | none => h

/-- The node that a directory gives a name to, if there is one, changes now. -/
def markNamed (h : Host) (dir : Ino) (name : Name) : Host :=
  match (h.entries? dir).bind (·[name]?) with
  | some i => h.mark i
  | none => h

/-- Give a node a name in a directory. A node that had the name loses it. -/
def bind (h : Host) (dir : Ino) (name : Name) (i : Ino) : Host :=
  ((h.markNamed dir name).mark i).modifyEntries dir (·.insert name i)

/-- Take a name out of a directory. -/
def unbind (h : Host) (dir : Ino) (name : Name) : Host :=
  (h.markNamed dir name).modifyEntries dir (·.erase name)

/-- Make a new node with a name in a directory. -/
def create (h : Host) (dir : Ino) (name : Name) (body : Body) (mode : UInt32) : Ino × Host :=
  let (i, h') := h.alloc body mode
  (i, h'.bind dir name i)

/-! ## Link counts -/

/-- How many entries of a directory name the node. -/
def Entries.count (es : Entries) (i : Ino) : Nat :=
  es.foldl (fun n _ j => if j = i then n + 1 else n) 0

/-- How many names a node has. -/
def nameCount (h : Host) (i : Ino) : Nat :=
  h.nodes.foldl (fun n node =>
    match node.body with
    | .directory es => n + Entries.count es i
    | _ => n) 0

/-- The link count of a node: its names, or for a directory two and one for each directory in it. -/
def linkCount (h : Host) (i : Ino) : Nat :=
  match h.entries? i with
  | some es => 2 + es.foldl (fun n _ j => if h.isDirectory j then n + 1 else n) 0
  | none => h.nameCount i

end Host

end GuestShare
