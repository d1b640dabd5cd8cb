import GuestShare.Wire.Frame

/-!
# Frames out of a byte stream

A stream hands out its bytes in chunks of any length and may fail in between. A frame begins with
its own size, so frames can be told apart however the stream is cut.

* `Chunk`, `Source`: what a stream hands out.
* `Source.fill`: exactly as many bytes as are asked for.
* `Source.next`: the next frame.
* `Source.frames`: all frames, and how the stream ends.
* **`Source.size_of_next`**: a frame takes bytes away from the stream.
-/

namespace GuestShare

/-- Why a stream hands out nothing. -/
inductive StreamFailure
  /-- Nothing is wrong; it has to be asked again. -/
  | interrupted
  | connectionReset
  | other
deriving Repr, DecidableEq

/-- What a stream hands out at a time. -/
inductive Chunk
  | data (bs : Bytes)
  | fail (f : StreamFailure)
deriving Repr, DecidableEq

/-- What a stream will hand out. -/
abbrev Source := List Chunk

/-- Why there are no more frames. -/
inductive StreamError
  /-- The stream ended inside a frame. -/
  | unexpectedEnd
  /-- The size of a frame is less than a header or more than a frame may have. -/
  | sizeOutOfRange (size : UInt32)
  | failed (f : StreamFailure)
  /-- The stream does not take any more bytes. -/
  | brokenPipe
deriving Repr, DecidableEq

/-- The wording of an error, as far as it is not the host's. -/
def StreamError.message? : StreamError → Option String
  | sizeOutOfRange size => some s!"frame size {size} out of range"
  | _ => none

/-- The most bytes of a frame from a stream. -/
def maxFrameSize : UInt32 := 16 * 1024 * 1024

/-- The bytes of the size of a frame. -/
def sizeWidth : Nat := 4

namespace Source

/-- What comes of asking for some bytes. -/
inductive Fill
  | complete (bs : Bytes) (rest : Source)
  /-- The stream ended before, or right away. -/
  | ended (anything : Bool)
  | failed (f : StreamFailure)
deriving Repr

/-- The bytes in a source. -/
def size : Source → Nat
  | [] => 0
  | .data bs :: rest => bs.length + size rest
  | .fail _ :: rest => size rest

/-- Exactly `n` bytes more behind those already there. -/
def fill (n : Nat) (got : Bytes) : Source → Fill
  | [] => if n = 0 then .complete got [] else .ended (!got.isEmpty)
  | .data bs :: rest =>
    let (now, later) := bs.splitAt n
    if now.length = n then .complete (got ++ now) (.data later :: rest)
    else fill (n - now.length) (got ++ now) rest
  | .fail f :: rest =>
    if n = 0 then .complete got (.fail f :: rest)
    else if f = .interrupted then fill n got rest
    else .failed f

/-- What comes of asking for a frame. -/
inductive Next
  | frame (bs : Bytes) (rest : Source)
  | closed
  | failed (e : StreamError)
deriving Repr

/-- The next frame. -/
def next (source : Source) : Next :=
  match fill sizeWidth [] source with
  | .ended anything => if anything then .failed .unexpectedEnd else .closed
  | .failed f => .failed (.failed f)
  | .complete head rest =>
    let size := Bytes.toU32 head
    if size.toNat < headerSize || maxFrameSize < size then .failed (.sizeOutOfRange size)
    else
      match fill (size.toNat - sizeWidth) head rest with
      | .complete bs rest => .frame bs rest
      | .ended _ => .failed .unexpectedEnd
      | .failed f => .failed (.failed f)

theorem size_of_fill {n : Nat} {got bs : Bytes} {source rest : Source}
    (h : fill n got source = .complete bs rest) : n + rest.size = source.size := by
  induction source generalizing n got with
  | nil =>
    rw [fill] at h
    split at h
    next hn =>
      cases h
      simp [hn, size]
    · cases h
  | cons chunk source ih =>
    cases chunk with
    | data cs =>
      simp only [fill, List.splitAt_eq] at h
      split at h
      next hn =>
        cases h
        simp only [size, List.length_drop]
        simp only [List.length_take] at hn
        omega
      next hn =>
        have := ih h
        simp only [List.length_take] at this hn
        simp only [size]
        omega
    | fail f =>
      simp only [fill] at h
      split at h
      next hn =>
        cases h
        simp [hn]
      · split at h
        · simpa [size] using ih h
        · cases h

/-- **A frame takes bytes away from the stream.** -/
theorem size_of_next {source rest : Source} {bs : Bytes} (h : source.next = .frame bs rest) :
    rest.size < source.size := by
  unfold next at h
  split at h
  · split at h <;> cases h
  · cases h
  next head rest' hhead =>
    simp only at h
    split at h
    · cases h
    · split at h
      next bs' rest'' hbody =>
        cases h
        have h1 := size_of_fill hhead
        have h2 := size_of_fill hbody
        have : 0 < sizeWidth := by decide
        omega
      · cases h
      · cases h

/-- The frames of a stream, and the error that ends it, if it does not end behind a frame. -/
def frames (source : Source) : List Bytes × Option StreamError :=
  match _ : source.next with
  | .closed => ([], none)
  | .failed e => ([], some e)
  | .frame bs rest =>
    let (more, ending) := frames rest
    (bs :: more, ending)
termination_by source.size
decreasing_by exact size_of_next ‹_›

end Source

end GuestShare
