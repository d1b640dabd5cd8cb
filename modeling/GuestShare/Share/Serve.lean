import GuestShare.Share.Make
import GuestShare.Share.Attributes
import GuestShare.Share.Transfer
import GuestShare.Share.Move
import GuestShare.Wire.Frame

/-!
# Serving frames

A frame is read, its request carried out, the changed records written, and the reply is made a
frame. If records cannot be written, a request that went well is answered by that failure.

* `Share.perform`: a request carried out.
* `Share.answer`: a request carried out and the records written.
* `Share.respond`: a frame in, at most one frame out. Whoever does not even send a header gets no
  answer.
* `Notice`: what the log says of failures.
-/

namespace GuestShare

/-- What the log says of a failure. -/
inductive Notice
  | failed (request : String) (tag : UInt16) (e : ShareError)
  | malformed (code : UInt8) (tag : UInt16) (e : WireError)
  | undecodable (e : WireError)
  | unencodable (tag : UInt16) (e : WireError)
  | flushFailed (e : StoreError)
deriving Repr, DecidableEq

/-- The wording of a notice. -/
def Notice.message : Notice → String
  | failed request tag e => s!"{request} tag {tag} failed: {e.message} (errno {e.errno})"
  | malformed code tag e => s!"type {code} tag {tag} malformed: {e.message}; replying EINVAL"
  | undecodable e => s!"dropping undecodable request: {e.message}"
  | unencodable tag e => s!"dropping reply for tag {tag}: {e.message}"
  | flushFailed e => s!"metadata flush failed: {e.message}"

namespace Share

/-- Carry out a request. -/
def perform (s : Share) : Request → Except ShareError Reply × Share
  | .version msize _ => s.settle (s.version msize)
  | .attach fid _ _ _ uid => s.attach fid uid
  | .flush _ => (.ok .flush, s)
  | .walk fid newFid names => s.settle (s.walk fid newFid names)
  | .lopen fid flags => s.lopen fid flags
  | .open fid mode => s.open fid mode
  | .lcreate fid name flags mode gid => s.lcreate fid name flags mode gid
  | .symlink fid name target gid => s.symlink fid name target gid
  | .mknod dfid name mode major minor gid => s.mknod dfid name mode major minor gid
  | .readlink fid => s.settle (s.readlink fid)
  | .getattr fid _ => s.settle (s.getattr fid)
  | .setattr fid attr => s.setattr fid attr
  | .readdir fid offset count => s.settle (s.readdir fid offset count)
  | .fsync fid _ => s.settle (s.fsync fid)
  | .mkdir dfid name mode gid => s.mkdir dfid name mode gid
  | .renameat oldDir oldName newDir newName =>
    s.settle (s.renameat oldDir oldName newDir newName)
  | .unlinkat dirFid name flags => s.settle (s.unlinkat dirFid name flags)
  | .read fid offset count => s.settle (s.read fid offset count)
  | .write fid offset data => s.write fid offset data
  | .clunk fid => (.ok .clunk, s.dropFid fid)
  | .remove fid => s.remove fid
  | .unknown code => (.error (.refused (.unsupported code)), s)

/-- Write the records that have changed. -/
def flushRecords (s : Share) : Except StoreError Unit × Share :=
  let (result, store, h) := s.store.flush s.host
  (result, { s with host := h, store })

/-- Carry out a request and write the records. -/
def answer (s : Share) (r : Request) : Except ShareError Reply × List Notice × Share :=
  let (result, s) := s.perform r
  match s.flushRecords with
  | (.ok (), s) => (result, [], s)
  | (.error e, s) => (result.bind fun _ => .error (.store e), [.flushFailed e], s)

/-- The frame of a reply, if it can be written. -/
def encode (tag : UInt16) (body : Reply) : Option Bytes × List Notice :=
  match Frame.ofReply ⟨tag, body⟩ with
  | .ok bs => (some bs, [])
  | .error e => (none, [.unencodable tag e])

/-- What comes of a frame: the frame to send back, if any, what the log says, and the share. -/
def respond (s : Share) (frame : Bytes) : Option Bytes × List Notice × Share :=
  match Frame.toRequest frame with
  | .error e =>
    match Frame.header frame with
    | .error _ => (none, [.undecodable e], s)
    | .ok header =>
      let (reply, notices) := encode header.tag (.error ShareError.invalidArgument)
      (reply, .malformed header.code header.tag e :: notices, s)
  | .ok request =>
    match s.answer request.body with
    | (.ok body, notices, s) =>
      let (reply, more) := encode request.tag body
      (reply, notices ++ more, s)
    | (.error e, notices, s) =>
      let (reply, more) := encode request.tag (.error e.errno)
      (reply, notices ++ .failed request.body.name request.tag e :: more, s)

end Share

end GuestShare
