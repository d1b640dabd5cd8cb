import GuestShare.Stream.Serve
import GuestShare.Host.Entry

/-!
# Serving a socket

Connections are served one after the other, each beginning without fids. What is in the way of the
socket is removed first.

* `Host.listen`: a socket to listen on.
* `Share.serveClient`, `Share.serveConnection`: one connection from beginning to end.
* `Share.serveConnections`: connections one after the other.
* `SocketError`: why there is no socket.
-/

namespace GuestShare

/-- Why there is no socket to listen on. -/
inductive SocketError
  | stale (path : String)
  | binding (path : String)
deriving Repr, DecidableEq

/-- The wording of an error. -/
def SocketError.message : SocketError → String
  | stale path => "removing stale socket " ++ path
  | binding path => "binding " ++ path

namespace Host

/-- Socket paths have fewer bytes than this. -/
def socketPathLimit : Nat := 108

/-- Remove what is at a path, unless nothing is. -/
def clear (h : Host) (p : Path) : Except HostError Host :=
  match h.find .keep p with
  | .ok _ => h.unlink p
  | .error _ => .ok h

/-- Make a socket to listen on. -/
def bindSocket (h : Host) (path : String) : Except HostError Host := do
  let p := Path.ofText path
  if socketPathLimit ≤ path.utf8ByteSize || p.closed then throw .invalid
  let (dir, name) ← h.vacancy p
  return (h.create dir name .socket dirMode).2

/-- Make a socket to listen on in the place of what is there. What is removed for a socket that
cannot be made stays removed. -/
def listen (h : Host) (path : String) : Except SocketError Unit × Host :=
  match h.clear (Path.ofText path) with
  | .error _ => (.error (.stale path), h)
  | .ok h =>
    match h.bindSocket path with
    | .error _ => (.error (.binding path), h)
    | .ok h => (.ok (), h)

end Host

/-- What a client sends, and how many bytes it takes. -/
structure Connection where
  source : Source
  room : Option Nat

namespace Share

/-- Serve one connection, be it broken off or not. -/
def serveClient (s : Share) (c : Connection) : Served :=
  let served := s.reset.serveStream c.source (.empty c.room)
  { served with share := served.share.reset }

/-- Serve one connection of a client that takes every reply. -/
def serveConnection (s : Share) (source : Source) : Served := s.serveClient ⟨source, none⟩

/-- Serve connections, and tell what came of each. -/
def serveConnections (s : Share) : List Connection → List Served × Share
  | [] => ([], s)
  | c :: cs =>
    let served := s.serveClient c
    let (more, s) := served.share.serveConnections cs
    (served :: more, s)

end Share

end GuestShare
