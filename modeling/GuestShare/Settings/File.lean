import GuestShare.Text.Digits

/-!
# Configuration files

A configuration file has a key and a value on each line, in the notation of TOML. Values are strings
and whole numbers; tables, lists and other kinds of values make no settings, so a file with them is
not well formed.

* `ConfigValue`: the values.
* `ConfigFile.parse`: the keys and values of a file, in order.
* `ConfigFile.scanBasic` … `ConfigFile.scanMultiLiteral`: the four kinds of strings.
-/

namespace GuestShare

/-- A value in a configuration file. -/
inductive ConfigValue
  | text (s : String)
  | number (n : Nat)
deriving Repr, DecidableEq

namespace ConfigFile

/-! ## Characters -/

/-- Whether a character is blank within a line. -/
def isBlank (c : Char) : Bool := c = ' ' || c = '\t'

/-- Whether a character may stand in a string or a comment. -/
def isShown (c : Char) : Bool := c = '\t' || (' ' ≤ c && c ≠ '\x7f')

/-- Whether a character may stand in a key without quotes. -/
def isKeyChar (c : Char) : Bool := c.isAlphanum || c = '_' || c = '-'

/-- What follows the blanks at the front. -/
def skipBlanks (cs : List Char) : List Char := cs.dropWhile isBlank

/-- What follows a line break at the front, if there is one. -/
def skipBreak? : List Char → Option (List Char)
  | '\n' :: rest | '\r' :: '\n' :: rest => some rest
  | _ => none

/-! ## Strings -/

/-- The character that a backslash and a letter stand for. -/
def escaped? : Char → Option Char
  | '"' => some '"'
  | '\\' => some '\\'
  | 'b' => some '\x08'
  | 'f' => some '\x0c'
  | 'n' => some '\n'
  | 'r' => some '\r'
  | 't' => some '\t'
  | _ => none

/-- The character of a number in hexadecimal digits. -/
def charOfHex? (ds : List Char) : Option Char := do
  let n ← Text.number? 16 ds
  if n.isValidChar then some (Char.ofNat n) else none

/-- A string on one line, behind its opening quote, and what follows it. -/
def scanBasic (done : List Char) : List Char → Option (String × List Char)
  | '"' :: rest => some (String.ofList done.reverse, rest)
  | '\\' :: 'u' :: a :: b :: c :: d :: rest =>
    match charOfHex? [a, b, c, d] with
    | some c => scanBasic (c :: done) rest
    | none => none
  | '\\' :: 'U' :: a :: b :: c :: d :: e :: f :: g :: h :: rest =>
    match charOfHex? [a, b, c, d, e, f, g, h] with
    | some c => scanBasic (c :: done) rest
    | none => none
  | '\\' :: e :: rest =>
    match escaped? e with
    | some c => scanBasic (c :: done) rest
    | none => none
  | c :: rest => if isShown c && c ≠ '\\' then scanBasic (c :: done) rest else none
  | [] => none

/-- A string on one line without escapes, behind its opening quote, and what follows it. -/
def scanLiteral (done : List Char) : List Char → Option (String × List Char)
  | '\'' :: rest => some (String.ofList done.reverse, rest)
  | c :: rest => if isShown c then scanLiteral (c :: done) rest else none
  | [] => none

/-- Where a string on many lines goes on after a backslash at the end of a line. -/
inductive Gap
  /-- There is no such gap. -/
  | none
  /-- The line has not ended yet. -/
  | onLine
  /-- All blanks and line breaks are left out. -/
  | below
deriving DecidableEq

/-- A string on many lines, behind its opening quotes, and what follows it. Up to two quotes may
stand before the closing ones. A line break counts as one character. -/
def scanMultiBasic (gap : Gap) (done : List Char) : List Char → Option (String × List Char)
  | '\n' :: rest =>
    if gap = .none then scanMultiBasic .none ('\n' :: done) rest
    else scanMultiBasic .below done rest
  | '\r' :: '\n' :: rest =>
    if gap = .none then scanMultiBasic .none ('\n' :: done) rest
    else scanMultiBasic .below done rest
  | '"' :: '"' :: '"' :: '"' :: '"' :: rest =>
    if gap = .onLine then .none else some (String.ofList ('"' :: '"' :: done).reverse, rest)
  | '"' :: '"' :: '"' :: '"' :: rest =>
    if gap = .onLine then .none else some (String.ofList ('"' :: done).reverse, rest)
  | '"' :: '"' :: '"' :: rest =>
    if gap = .onLine then .none else some (String.ofList done.reverse, rest)
  | '\\' :: 'u' :: a :: b :: c :: d :: rest =>
    match if gap = .onLine then .none else charOfHex? [a, b, c, d] with
    | some c => scanMultiBasic .none (c :: done) rest
    | .none => .none
  | '\\' :: 'U' :: a :: b :: c :: d :: e :: f :: g :: h :: rest =>
    match if gap = .onLine then .none else charOfHex? [a, b, c, d, e, f, g, h] with
    | some c => scanMultiBasic .none (c :: done) rest
    | .none => .none
  | '\\' :: e :: rest =>
    if gap = .onLine then .none
    else if isBlank e then scanMultiBasic .onLine done rest
    else if e = '\n' then scanMultiBasic .below done rest
    else if e = '\r' && rest.head? = some '\n' then scanMultiBasic .onLine done rest
    else match escaped? e with
      | some c => scanMultiBasic .none (c :: done) rest
      | .none => .none
  | c :: rest =>
    if gap ≠ .none && isBlank c then scanMultiBasic gap done rest
    else if gap ≠ .onLine && isShown c && c ≠ '\\' then scanMultiBasic .none (c :: done) rest
    else .none
  | [] => .none

/-- A string on many lines without escapes, behind its opening quotes, and what follows it. -/
def scanMultiLiteral (done : List Char) : List Char → Option (String × List Char)
  | '\'' :: '\'' :: '\'' :: '\'' :: '\'' :: rest =>
    some (String.ofList ('\'' :: '\'' :: done).reverse, rest)
  | '\'' :: '\'' :: '\'' :: '\'' :: rest => some (String.ofList ('\'' :: done).reverse, rest)
  | '\'' :: '\'' :: '\'' :: rest => some (String.ofList done.reverse, rest)
  | '\r' :: '\n' :: rest => scanMultiLiteral ('\n' :: done) rest
  | c :: rest => if isShown c || c = '\n' then scanMultiLiteral (c :: done) rest else none
  | [] => none

/-! ## Numbers -/

/-- The characters between underscores. -/
def groups (cs : List Char) : List (List Char) :=
  cs.foldr (fun c gs =>
    if c = '_' then [] :: gs
    else match gs with
      | [] => [[c]]
      | g :: gs => (c :: g) :: gs) [[]]

/-- A number whose digits may be parted by single underscores. -/
def grouped? (base : Nat) (cs : List Char) : Option Nat :=
  let gs := groups cs
  if gs.any List.isEmpty then none else Text.number? base gs.flatten

/-- A decimal number. No zero stands before another digit. -/
def decimal? (cs : List Char) : Option Nat :=
  if cs.head? = some '0' && cs.length ≠ 1 then none else grouped? 10 cs

/-- A whole number that is not negative. -/
def natural? : List Char → Option Nat
  | '0' :: 'x' :: ds => grouped? 16 ds
  | '0' :: 'o' :: ds => grouped? 8 ds
  | '0' :: 'b' :: ds => grouped? 2 ds
  | '+' :: ds => decimal? ds
  | '-' :: ds => (decimal? ds).filter (· = 0)
  | ds => decimal? ds

/-- Whether a character may stand in a number. -/
def isNumberChar (c : Char) : Bool := c.isAlphanum || c = '_' || c = '+' || c = '-' || c = '.'

/-! ## Lines -/

/-- The value at the front, and what follows. A line break right behind the opening quotes of a
string on many lines is left out. -/
def scanValue (cs : List Char) : Option (ConfigValue × List Char) :=
  let text := fun (r : Option (String × List Char)) =>
    r.map fun (s, rest) => (ConfigValue.text s, rest)
  let inner := fun (rest : List Char) => (skipBreak? rest).getD rest
  match cs with
  | '"' :: '"' :: '"' :: rest => text (scanMultiBasic .none [] (inner rest))
  | '"' :: rest => text (scanBasic [] rest)
  | '\'' :: '\'' :: '\'' :: rest => text (scanMultiLiteral [] (inner rest))
  | '\'' :: rest => text (scanLiteral [] rest)
  | cs => do
    let (ds, rest) := cs.span isNumberChar
    return (.number (← natural? ds), rest)

/-- The key at the front, and what follows. -/
def scanKey : List Char → Option (String × List Char)
  | '"' :: rest => scanBasic [] rest
  | '\'' :: rest => scanLiteral [] rest
  | cs =>
    let (key, rest) := cs.span isKeyChar
    if key.isEmpty then none else some (String.ofList key, rest)

/-- What follows the rest of a line, which may be a comment. -/
def skipLine (cs : List Char) : Option (List Char) :=
  let rest := match skipBlanks cs with
    | '#' :: comment => comment.dropWhile isShown
    | cs => cs
  if rest.isEmpty then some [] else skipBreak? rest

/-- The key and the value of a line, and what follows the line. -/
def scanEntry (cs : List Char) : Option ((String × ConfigValue) × List Char) := do
  let (key, rest) ← scanKey cs
  match skipBlanks rest with
  | '=' :: rest =>
    let (value, rest) ← scanValue (skipBlanks rest)
    return ((key, value), ← skipLine rest)
  | _ => none

/-- The keys and values of at most `limit` lines, behind those already found. -/
def scanLines : (limit : Nat) → (done : List (String × ConfigValue)) → List Char →
    Option (List (String × ConfigValue))
  | 0, done, cs => if cs.isEmpty then some done.reverse else none
  | limit + 1, done, cs =>
    match skipBlanks cs with
    | [] => some done.reverse
    | cs =>
      match skipLine cs with
      | some rest => scanLines limit done rest
      | none =>
        match scanEntry cs with
        | some (entry, rest) => scanLines limit (entry :: done) rest
        | none => none

/-- The characters of a text, without a byte order mark. -/
def body (s : String) : List Char :=
  match s.toList with
  | '\ufeff' :: rest => rest
  | cs => cs

/-- The keys and values of a file. Every line takes at least one character. -/
def parse (s : String) : Option (List (String × ConfigValue)) :=
  let cs := body s
  scanLines (cs.length + 1) [] cs

end ConfigFile

end GuestShare
