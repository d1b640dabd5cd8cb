import GuestShare.Text.Digits

/-!
# JSON tokens

A JSON text is cut into tokens before it is read. The reader takes only natural numbers as numbers;
any other number is known to be well formed, but its value is dropped.

* `JsonToken`: the tokens.
* `JsonToken.scan`: the tokens of a text.
* `JsonToken.unescape`: the text of a string. Escapes name UTF-16 units, so two of them may have to
  be read together, and one alone may name no character.
-/

namespace GuestShare

/-- A token. -/
inductive JsonToken
  | openBrace
  | closeBrace
  | openBracket
  | closeBracket
  | colon
  | comma
  | null
  | bool (b : Bool)
  /-- A number, with its value if it is written as a natural number. -/
  | number (value : Option Nat)
  /-- A string, with its text if all of it is text. -/
  | text (value : Option String)
deriving Repr, DecidableEq

namespace JsonToken

/-! ## Strings -/

/-- A part of a string. -/
inductive Piece
  | char (c : Char)
  /-- An escaped UTF-16 unit. -/
  | unit (n : Nat)
deriving Repr, DecidableEq

/-- The character that a backslash and a letter stand for. -/
def escaped? : Char → Option Char
  | '"' => some '"'
  | '\\' => some '\\'
  | '/' => some '/'
  | 'b' => some '\x08'
  | 'f' => some '\x0c'
  | 'n' => some '\n'
  | 'r' => some '\r'
  | 't' => some '\t'
  | _ => none

/-- Whether a unit is the first of two. -/
def isHigh (n : Nat) : Bool := 0xd800 ≤ n && n < 0xdc00

/-- Whether a unit is the second of two. -/
def isLow (n : Nat) : Bool := 0xdc00 ≤ n && n < 0xe000

/-- The character of two units. -/
def pairedChar (high low : Nat) : Char :=
  Char.ofNat (0x10000 + 0x400 * (high - 0xd800) + (low - 0xdc00))

/-- The characters of a string, behind those already found. -/
def unescapeOnto (done : List Char) : List Piece → Option (List Char)
  | [] => some done.reverse
  | .char c :: rest => unescapeOnto (c :: done) rest
  | .unit high :: .unit low :: rest =>
    if isHigh high then
      if isLow low then unescapeOnto (pairedChar high low :: done) rest else none
    else if isLow high then none
    else unescapeOnto (Char.ofNat high :: done) (.unit low :: rest)
  | .unit n :: rest =>
    if isHigh n || isLow n then none else unescapeOnto (Char.ofNat n :: done) rest

/-- The text of a string, if all of it is text. -/
def unescape (ps : List Piece) : Option String := (unescapeOnto [] ps).map String.ofList

/-- The pieces of a string up to its closing quote, and what follows. -/
def scanString (done : List Piece) : List Char → Option (List Piece × List Char)
  | '"' :: rest => some (done.reverse, rest)
  | '\\' :: 'u' :: a :: b :: c :: d :: rest =>
    match Text.number? 16 [a, b, c, d] with
    | some n => scanString (.unit n :: done) rest
    | none => none
  | '\\' :: e :: rest =>
    match escaped? e with
    | some c => scanString (.char c :: done) rest
    | none => none
  | c :: rest => if c.toNat < 0x20 || c = '\\' then none else scanString (.char c :: done) rest
  | [] => none

/-! ## Numbers -/

/-- The digits at the front, and what follows. -/
def spanDigits (cs : List Char) : List Char × List Char := cs.span Char.isDigit

/-- What follows at least one digit. -/
def skipDigits (cs : List Char) : Option (List Char) :=
  match spanDigits cs with
  | ([], _) => none
  | (_, rest) => some rest

/-- What follows a fraction, if there is one. -/
def skipFraction : List Char → Option (List Char)
  | '.' :: rest => skipDigits rest
  | cs => some cs

/-- What follows an exponent, if there is one. -/
def skipExponent : List Char → Option (List Char)
  | 'e' :: '+' :: rest | 'e' :: '-' :: rest | 'E' :: '+' :: rest | 'E' :: '-' :: rest =>
    skipDigits rest
  | 'e' :: rest | 'E' :: rest => skipDigits rest
  | cs => some cs

/-- A number without a sign, and what follows. No zero stands before another digit. -/
def scanUnsigned (cs : List Char) : Option (Option Nat × List Char) := do
  let (whole, rest) := spanDigits cs
  if whole.isEmpty || (whole.head? = some '0' && whole.length ≠ 1) then none
  let tail ← skipExponent (← skipFraction rest)
  return (if tail.length = rest.length then Text.number? 10 whole else none, tail)

/-- A number, and what follows. -/
def scanNumber : List Char → Option (Option Nat × List Char)
  | '-' :: rest => do
    let (_, tail) ← scanUnsigned rest
    return (none, tail)
  | cs => scanUnsigned cs

/-! ## All tokens -/

/-- The token that a text starts with, and what follows. -/
def next : List Char → Option (JsonToken × List Char)
  | '\x7b' :: rest => some (openBrace, rest)
  | '\x7d' :: rest => some (closeBrace, rest)
  | '[' :: rest => some (openBracket, rest)
  | ']' :: rest => some (closeBracket, rest)
  | ':' :: rest => some (colon, rest)
  | ',' :: rest => some (comma, rest)
  | 'n' :: 'u' :: 'l' :: 'l' :: rest => some (null, rest)
  | 't' :: 'r' :: 'u' :: 'e' :: rest => some (bool true, rest)
  | 'f' :: 'a' :: 'l' :: 's' :: 'e' :: rest => some (bool false, rest)
  | '"' :: rest => (scanString [] rest).map fun (ps, rest) => (text (unescape ps), rest)
  | cs => (scanNumber cs).map fun (n, rest) => (number n, rest)

/-- Whether a character may stand between tokens. -/
def isSpace (c : Char) : Bool := c = ' ' || c = '\n' || c = '\t' || c = '\r'

/-- At most `limit` tokens of a text, behind those already found. -/
def scanWithin : (limit : Nat) → (done : List JsonToken) → List Char → Option (List JsonToken)
  | limit, done, cs =>
    match cs.dropWhile isSpace, limit with
    | [], _ => some done.reverse
    | _, 0 => none
    | cs, limit + 1 =>
      match next cs with
      | none => none
      | some (t, rest) => scanWithin limit (t :: done) rest

/-- The tokens of a text. Every token takes at least one character. -/
def scan (cs : List Char) : Option (List JsonToken) := scanWithin cs.length [] cs

end JsonToken

end GuestShare
