import GuestShare.Stream.Source
import GuestShare.Share.Serve

/-!
# Serving a byte stream

Frames are answered one by one. A stream that is full, or broken, ends the service in the middle of
a reply; frames behind that are not looked at.

* `Sink`: what a stream takes, and how much more it will take.
* `Share.serveFrames`: frames answered into a sink.
* `Share.serveStream`: a stream served to its end.
-/

namespace GuestShare

/-- The side of a stream that takes bytes. -/
structure Sink where
  /-- The replies so far, the last one first. -/
  parts : List Bytes
  /-- How many more bytes are taken; without a number there is no limit. -/
  room : Option Nat
deriving Repr, DecidableEq

namespace Sink

/-- Nothing has been written. -/
def empty (room : Option Nat) : Sink := ⟨[], room⟩

/-- The bytes that were taken. -/
def written (k : Sink) : Bytes := k.parts.reverse.flatten

/-- Write bytes as far as they are taken, and tell whether all were. -/
def write (k : Sink) (bs : Bytes) : Bool × Sink :=
  match k.room with
  | none => (true, { k with parts := bs :: k.parts })
  | some room =>
    let now := bs.take room
    (now.length = bs.length, ⟨now :: k.parts, some (room - now.length)⟩)

end Sink

/-- What comes of serving a stream. -/
structure Served where
  share : Share
  sink : Sink
  notices : List Notice
  /-- The number of frames, or why the service ended before the stream did. -/
  result : Except StreamError Nat

namespace Share

/-- Answer frames. -/
def serveFrames : List Bytes → (handled : Nat) → Share → Sink → Served
  | [], handled, s, sink => ⟨s, sink, [], .ok handled⟩
  | frame :: frames, handled, s, sink =>
    let (reply, notices, s) := s.respond frame
    let (whole, sink) := match reply with
      | some bs => sink.write bs
      | none => (true, sink)
    if whole then
      let served := serveFrames frames (handled + 1) s sink
      { served with notices := notices ++ served.notices }
    else ⟨s, sink, notices, .error .brokenPipe⟩

/-- Serve a stream to its end. -/
def serveStream (s : Share) (source : Source) (sink : Sink) : Served :=
  let (frames, ending) := source.frames
  let served := serveFrames frames 0 s sink
  match served.result, ending with
  | .ok _, some e => { served with result := .error e }
  | _, _ => served

end Share

end GuestShare
