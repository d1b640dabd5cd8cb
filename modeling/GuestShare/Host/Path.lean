import GuestShare.Bytes

/-!
# Paths of the host

A path is a text of names between slashes. The host reads it from left to right, as steps.

* `Name`: the name of a directory entry, any bytes.
* `Step`, `Path`: a path taken apart.
* `Path.parse`: the path that a text spells.
* `Path.ofNames`: the absolute path of some names.
* `Path.ancestors`: the path, then the paths of the directories that it passes.
-/

namespace GuestShare

/-- The name of a directory entry. -/
abbrev Name := Bytes

namespace Name

/-- The byte of a slash. -/
def slash : UInt8 := 47

/-- The byte of a dot. -/
def dot : UInt8 := 46

/-- The byte that no name may hold. -/
def nul : UInt8 := 0

/-- The longest name that a directory takes. -/
def maxLength : Nat := 255

/-- The name that a text spells. -/
def ofText (s : String) : Name := Bytes.ofText s

end Name

/-- One step of a path. -/
inductive Step
  | here
  | up
  | down (name : Name)
deriving Repr, DecidableEq

/-- A path. -/
structure Path where
  /-- It starts at the root, not at the working directory. -/
  absolute : Bool
  steps : List Step
  /-- It ends with a slash, so it can only lead to a directory. -/
  closed : Bool
deriving Repr, DecidableEq, Inhabited

/-- The step that a piece of a path stands for, if it is not empty. -/
def Step.ofPiece? (piece : Bytes) : Option Step :=
  if piece.isEmpty then none
  else if piece = [Name.dot] then some .here
  else if piece = [Name.dot, Name.dot] then some .up
  else some (.down piece)

/-- Whether the step goes down to a name with a NUL byte in it. -/
def Step.hasNul : Step → Bool
  | .down name => name.contains Name.nul
  | _ => false

namespace Path

/-- The pieces of a text between slashes. -/
def pieces (bs : Bytes) : List Bytes :=
  bs.foldr (fun b ps =>
    if b = Name.slash then [] :: ps
    else match ps with
      | [] => [[b]]
      | p :: ps => (b :: p) :: ps) [[]]

/-- The path that a text spells. -/
def parse (bs : Bytes) : Path :=
  let steps := (pieces bs).filterMap Step.ofPiece?
  ⟨bs.head? = some Name.slash, steps, bs.getLast? = some Name.slash && !steps.isEmpty⟩

/-- The path that a text spells. -/
def ofText (s : String) : Path := parse (Bytes.ofText s)

/-- The absolute path of some names. -/
def ofNames (names : List Name) : Path := ⟨true, names.map .down, false⟩

/-- The empty path, which leads nowhere. -/
def isEmpty (p : Path) : Bool := !p.absolute && p.steps.isEmpty && !p.closed

/-- The path without the slash at its end. -/
def opened (p : Path) : Path := { p with closed := false }

/-- The path of a name in the directory at `p`. -/
def child (p : Path) (name : Name) : Path := ⟨p.absolute, p.steps ++ [.down name], false⟩

/-- The path of what lies before the last step, which must be a directory. -/
def before (p : Path) : Path := ⟨p.absolute, p.steps.dropLast, true⟩

/-- The steps to go. A slash at the end asks for a directory, as a last step "here" does. -/
def toSteps (p : Path) : List Step := if p.closed then p.steps ++ [.here] else p.steps

/-- The steps without those that stay "here", but for the first one of a relative path. -/
def moves (p : Path) : List Step :=
  match p.absolute, p.steps with
  | false, .here :: rest => .here :: rest.filter (· ≠ .here)
  | _, steps => steps.filter (· ≠ .here)

/-- The path, then its proper beginnings, the longest first. The empty path and the root have
no beginnings and are not their own. -/
def ancestors (p : Path) : List Path :=
  match p.moves with
  | [] => []
  | moves =>
    p :: ((List.range moves.length).reverse.filter (· ≠ 0)).map
      fun n => ⟨p.absolute, moves.take n, false⟩

end Path

end GuestShare
