import GuestShare.Wire.Message

/-!
# Frames

A frame is a message with its header: the size of the whole frame in four bytes, the code of the
message in one, its tag in two.

* `Header.read?`: the header, checked against the bytes at hand.
* `Frame.ofRequest`, `Frame.toRequest`: requests as frames. A code that is no request's reads as
  `Request.unknown`, so that it can still be answered.
* `Frame.ofReply`, `Frame.toReply`: replies as frames.
-/

namespace GuestShare

/-- The bytes of a header. -/
def headerSize : Nat := 7

/-- The header of a frame. -/
structure Header where
  /-- The bytes of the whole frame. -/
  size : UInt32
  /-- The code of the message. -/
  code : UInt8
  tag : UInt16
deriving Repr, DecidableEq

/-- Size, code, tag. -/
def Header.layout : Layout Header :=
  (Layout.u32.pair (Layout.u8.pair Layout.u16)).map (fun (s, c, t) => ⟨s, c, t⟩)
    (fun h => (h.size, h.code, h.tag))

namespace Frame

/-- The header of a frame and the payload that its size declares. Bytes behind that are ignored. -/
def split (bs : Bytes) : Except WireError (Header × Bytes) := do
  let h ← (Header.layout.read.run bs).1
  if h.size.toNat < headerSize then throw (.lengthMismatch h.size bs.length)
  let frame := bs.take h.size.toNat
  if frame.length < h.size.toNat then throw (.lengthMismatch h.size bs.length)
  return (h, frame.drop headerSize)

/-- The header of a frame. -/
def header (bs : Bytes) : Except WireError Header := Prod.fst <$> split bs

/-- The frame of a message with this payload. -/
def make (code : UInt8) (tag : UInt16) (payload : Bytes) : Except WireError Bytes := do
  let size := headerSize + payload.length
  if UInt32.size ≤ size then throw (.tooLong size)
  let head ← Header.layout.write ⟨UInt32.ofNat size, code, tag⟩
  return head ++ payload

/-- The frame of a request. -/
def ofRequest (r : Tagged Request) : Except WireError Bytes :=
  match r.body.split with
  | .inl code => make code r.tag []
  | .inr ⟨op, args⟩ => do make op.code r.tag (← (Request.layout op).write args)

/-- The request in a frame. -/
def toRequest (bs : Bytes) : Except WireError (Tagged Request) := do
  let (h, payload) ← split bs
  match Operation.ofCode? h.code with
  | none => return ⟨h.tag, .unknown h.code⟩
  | some op =>
    let args ← ((Request.layout op).read.run payload).1
    return ⟨h.tag, Request.join op args⟩

/-- The frame of a reply. -/
def ofReply (r : Tagged Reply) : Except WireError Bytes :=
  match r.body.split with
  | .inl code => do make MessageType.errorCode r.tag (← Layout.u32.write code)
  | .inr ⟨op, args⟩ => do make op.replyCode r.tag (← (Reply.layout op).write args)

/-- The reply in a frame. -/
def toReply (bs : Bytes) : Except WireError (Tagged Reply) := do
  let (h, payload) ← split bs
  if h.code = MessageType.errorCode then
    let code ← (Layout.u32.read.run payload).1
    return ⟨h.tag, .error code⟩
  match Operation.ofReplyCode? h.code with
  | none => throw (.unsupported h.code)
  | some op =>
    let args ← ((Reply.layout op).read.run payload).1
    return ⟨h.tag, Reply.join op args⟩

end Frame

end GuestShare
