import GuestShare.Json.Token

/-!
# JSON values

A value is built from its tokens one by one. What is begun and not yet closed is kept on a stack.

* `JsonValue`: the values.
* `JsonValue.Builder`, `JsonValue.Builder.step`: a value under construction, and one token more.
* `JsonValue.parse`: the value that a text spells.
-/

namespace GuestShare

/-- A JSON value. -/
inductive JsonValue
  | null
  | bool (b : Bool)
  /-- A number, with its value if it is written as a natural number. -/
  | number (value : Option Nat)
  /-- A string, with its text if all of it is text. -/
  | text (value : Option String)
  | array (items : List JsonValue)
  /-- The fields in order. A key may come up more than once. -/
  | object (fields : List (Option String × JsonValue))

namespace JsonValue

/-- An array or object that is not closed yet, the last item first. -/
inductive Frame
  | array (items : List JsonValue)
  | object (fields : List (Option String × JsonValue)) (key : Option String)

/-- What may come next. -/
inductive Expect
  /-- A value, or the end of an array that has just begun. -/
  | value (orEnd : Bool)
  /-- A key, or the end of an object that has just begun, with the fields so far. -/
  | key (fields : List (Option String × JsonValue)) (orEnd : Bool)
  | colon
  /-- A comma, or the end of what the value is in. -/
  | behind (value : JsonValue)

/-- A value under construction. -/
structure Builder where
  stack : List Frame
  expect : Expect

namespace Builder

/-- Nothing has been read. -/
def start : Builder := ⟨[], .value false⟩

/-- A value has been read that is not an array or object. -/
def leaf (stack : List Frame) (v : JsonValue) : Option Builder := some ⟨stack, .behind v⟩

/-- A value was due, and this token has come. -/
def stepValue (stack : List Frame) (orEnd : Bool) : JsonToken → Option Builder
  | .null => leaf stack .null
  | .bool b => leaf stack (.bool b)
  | .number n => leaf stack (.number n)
  | .text s => leaf stack (.text s)
  | .openBracket => some ⟨.array [] :: stack, .value true⟩
  | .openBrace => some ⟨stack, .key [] true⟩
  | .closeBracket =>
    match stack, orEnd with
    | .array _ :: stack, true => leaf stack (.array [])
    | _, _ => none
  | _ => none

/-- A value stands there, and this token has come. -/
def stepBehind (v : JsonValue) : List Frame → JsonToken → Option Builder
  | .array items :: stack, .comma => some ⟨.array (v :: items) :: stack, .value false⟩
  | .array items :: stack, .closeBracket => leaf stack (.array (v :: items).reverse)
  | .object fields k :: stack, .comma => some ⟨stack, .key ((k, v) :: fields) false⟩
  | .object fields k :: stack, .closeBrace => leaf stack (.object ((k, v) :: fields).reverse)
  | _, _ => none

/-- One token more. -/
def step (b : Builder) (t : JsonToken) : Option Builder :=
  match b.expect, t with
  | .value orEnd, t => stepValue b.stack orEnd t
  | .behind v, t => stepBehind v b.stack t
  | .colon, .colon => some ⟨b.stack, .value false⟩
  | .key fields _, .text k => some ⟨.object fields k :: b.stack, .colon⟩
  | .key _ true, .closeBrace => leaf b.stack (.object [])
  | _, _ => none

/-- The value, if it is complete. -/
def value? (b : Builder) : Option JsonValue :=
  match b.stack, b.expect with
  | [], .behind v => some v
  | _, _ => none

end Builder

/-- The value that some tokens spell. -/
def ofTokens? (ts : List JsonToken) : Option JsonValue := do
  (← ts.foldlM Builder.step Builder.start).value?

/-- The value that a text spells. -/
def parse (s : String) : Option JsonValue := do ofTokens? (← JsonToken.scan s.toList)

/-- The fields of an object whose keys are text. -/
def fields? : JsonValue → Option (List (String × JsonValue))
  | object fields => fields.mapM fun (k, v) => k.map fun k => (k, v)
  | _ => none

/-- The text of a string. -/
def text? : JsonValue → Option String
  | text s => s
  | _ => none

/-- A natural number below a bound. -/
def natBelow? (bound : Nat) : JsonValue → Option Nat
  | number (some n) => if n < bound then some n else none
  | _ => none

end JsonValue

end GuestShare
