/-!
# Quoted text

Names in messages stand between quotes, and what would not show is escaped.

* `Text.quoted`: a text between quotes.
-/

namespace GuestShare

namespace Text

/-- The hexadecimal digits of a number. -/
def hexDigits (n : Nat) : String := String.ofList (Nat.toDigits 16 n)

/-- A character between quotes. -/
def quotedChar (c : Char) : String :=
  if c = '\x00' then "\\0"
  else if c = '\t' then "\\t"
  else if c = '\n' then "\\n"
  else if c = '\r' then "\\r"
  else if c = '"' then "\\\""
  else if c = '\\' then "\\\\"
  else if c.toNat < 0x20 || c.toNat = 0x7f then "\\u\x7b" ++ hexDigits c.toNat ++ "\x7d"
  else c.toString

/-- A text between quotes. -/
def quoted (s : String) : String := "\"" ++ String.join (s.toList.map quotedChar) ++ "\""

/-- A number in octal digits, marked as such. -/
def octal (n : Nat) : String := "0o" ++ String.ofList (Nat.toDigits 8 n)

end Text

end GuestShare
