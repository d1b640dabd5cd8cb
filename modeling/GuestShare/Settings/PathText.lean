import GuestShare.Host.Path

/-!
# Paths in settings

Paths in settings stay as they were written, so they are cut and joined as texts.

* `PathText.parent`: the path of the directory of a file.
* `PathText.join`: a path taken from a directory.
* `Path.lexical`: the names that a path spells if there are no links.
-/

namespace GuestShare

namespace PathText

/-- The pieces of a text between slashes. -/
def pieces (cs : List Char) : List (List Char) :=
  cs.foldr (fun c ps =>
    if c = '/' then [] :: ps
    else match ps with
      | [] => [[c]]
      | p :: ps => (c :: p) :: ps) [[]]

/-- Whether a piece leads nowhere. -/
def isIdle (piece : List Char) : Bool := piece.isEmpty || piece = ['.']

/-- The beginning that is never cut off: the slash of an absolute path, or a first ".". -/
def anchor : List Char → List Char × List Char
  | '/' :: rest => (['/'], rest)
  | ['.'] => (['.'], [])
  | '.' :: '/' :: rest => (['.'], '/' :: rest)
  | cs => ([], cs)

/-- The path of the directory that a path is in. -/
def parent (s : String) : String :=
  let (head, body) := anchor s.toList
  match (pieces body).reverse.dropWhile isIdle with
  | [] => ""
  | _ :: above =>
    let rest := (above.dropWhile isIdle).reverse
    String.ofList (head ++ List.intercalate ['/'] rest)

/-- A path taken from a directory, unless it is absolute. -/
def join (base path : String) : String :=
  if path.toList.head? = some '/' then path
  else if base.isEmpty || base.toList.getLast? = some '/' then base ++ path
  else base ++ "/" ++ path

end PathText

namespace Path

/-- The names that a path spells from the given ones if there are no links. -/
def lexical (p : Path) (workDir : List Name) : List Name :=
  p.steps.foldl (fun names step =>
    match step with
    | .here => names
    | .up => names.dropLast
    | .down name => names ++ [name]) (if p.absolute then [] else workDir)

end Path

end GuestShare
