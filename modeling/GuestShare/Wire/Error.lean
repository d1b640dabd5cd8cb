/-!
# Why a message cannot be written or read

* `WireError`: the causes.
* `WireError.message`: their wording.
-/

namespace GuestShare

/-- Why a message cannot be written or read. -/
inductive WireError
  /-- The bytes end inside a field or inside the header. -/
  | truncated
  /-- No reply has this message code. -/
  | unsupported (code : UInt8)
  /-- A text field is not UTF-8. -/
  | invalidText
  /-- The declared size is less than a header, or more than the bytes at hand. -/
  | lengthMismatch (declared : UInt32) (actual : Nat)
  /-- More names, or more qids, than one walk may have. -/
  | walkTooLong
  /-- A field, or the whole frame, has more bytes than its length field can count. -/
  | tooLong (length : Nat)
deriving Repr, DecidableEq

/-- The wording of a wire error. -/
def WireError.message : WireError → String
  | .truncated => "truncated frame"
  | .unsupported code => s!"unsupported message type {code}"
  | .invalidText => "invalid utf8 in string field"
  | .lengthMismatch declared actual => s!"length mismatch: declared {declared} actual {actual}"
  | .walkTooLong => "invalid path component"
  | .tooLong length => s!"field of {length} bytes exceeds its length prefix"

end GuestShare
