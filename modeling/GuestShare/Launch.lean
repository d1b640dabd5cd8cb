import GuestShare.Settings.Arguments
import GuestShare.Stream.Socket

/-!
# Launching a share

* `Launch`: what comes of a launch: whether a share was started, whether it listens, and what
  stopped it.
* `Launch.run`: a launch with the given arguments.
* `Launch.exitCode`: the code of a launch that was stopped.
-/

namespace GuestShare

/-- What stops a launch. -/
inductive LaunchError
  /-- The arguments are not well formed. -/
  | usage
  | arguments (e : ArgumentsError)
  | noSocket
  /-- The directory cannot be exported. -/
  | exporting (root : String)
  | socket (e : SocketError)
deriving Repr, DecidableEq

/-- The wording of an error. -/
def LaunchError.message : LaunchError → String
  | usage => "the arguments are not well formed"
  | arguments e => e.message
  | noSocket => "no socket configured; pass --socket or set `socket`"
  | exporting root => "exporting " ++ root
  | socket e => e.message

/-- What comes of a launch. -/
structure Launch where
  /-- The settings and the share, once it has been started. -/
  started : Option (Settings × Share)
  error : Option LaunchError
  host : Host

namespace Launch

/-- A launch that ends before a share is started. -/
def stop (e : LaunchError) (h : Host) : Launch := ⟨none, some e, h⟩

/-- A launch with some settings. -/
def withSettings (c : Settings) (h : Host) : Launch :=
  match c.socket with
  | none => stop .noSocket h
  | some socket =>
    match Share.start c.options h with
    | (.error _, h) => stop (.exporting c.root) h
    | (.ok s, h) =>
      match h.listen socket with
      | (.error e, h) => ⟨some (c, { s with host := h }), some (.socket e), h⟩
      | (.ok (), h) => ⟨some (c, { s with host := h }), none, h⟩

/-- A launch with some arguments. -/
def run (args : List String) (h : Host) : Launch :=
  match Arguments.parse? args with
  | none => stop .usage h
  | some a =>
    match a.resolve h with
    | .error e => stop (.arguments e) h
    | .ok c => withSettings c h

/-- The code with which a launch ends. -/
def exitCode (l : Launch) : UInt8 :=
  match l.error with
  | none => 0
  | some .usage => 2
  | some _ => 1

/-- What the log says of a share that was started. -/
def exportingLine (c : Settings) (s : Share) : String :=
  s!"{Text.ofNames s.root} (metadata in {c.metadataDir}, iounit {c.iounit})"

/-- What the log says when a share is ready. -/
def readyLine (c : Settings) : String := s!"iounit {c.iounit}"

end Launch

end GuestShare
