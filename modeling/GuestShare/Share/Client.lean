import GuestShare.Share.Serve

/-!
# A client in the same process

A client sends requests one after the other, each under the next tag, and reads their replies. Its
calls leave to the caller what matters of a request, and give what the caller wants of the reply.

* `Client`: what a client remembers, the next tag and the largest message.
* `Client.exchange`, `Client.send`: one request sent and its reply read.
* `ClientError`: why a request has no reply of its own kind.
* `Call`, `Call.request`, `Call.Value`: the calls of each operation, what they send and what they
  give.
* `Client.ask`: a call made.
* `CallError`: why a call gives nothing.
-/

namespace GuestShare

/-- Why a client gets nothing from a request. -/
inductive ClientError
  /-- The server said so. -/
  | remote (errno : UInt32)
  /-- The server did not answer. -/
  | dropped
  | codec (e : WireError)
deriving Repr, DecidableEq

/-- What a client remembers. -/
structure Client where
  nextTag : UInt16
  msize : UInt32
deriving Repr, DecidableEq

namespace ClientError

/-- The wording of an error. -/
def message : ClientError → String
  | remote errno => s!"server returned errno {errno}"
  | dropped => "request dropped without reply"
  | codec e => "codec error: " ++ e.message

/-- The number of an error. -/
def errno : ClientError → UInt32
  | remote errno => errno
  | dropped | codec _ => ShareError.invalidArgument

end ClientError

namespace Client

/-- A new client. -/
def new : Client := ⟨1, Share.defaultMsize⟩

/-- The tag that is no tag. -/
def noTag : UInt16 := 0xffff

/-- The tag after another one. -/
def tagAfter (tag : UInt16) : UInt16 := if tag + 1 = noTag then 1 else tag + 1

/-- The client after taking its next tag. -/
def advance (c : Client) : Client := { c with nextTag := tagAfter c.nextTag }

/-- The reply in a frame, and its tag. -/
def receive : Option Bytes → Except ClientError (Tagged Reply)
  | none => .error .dropped
  | some frame => (Frame.toReply frame).mapError .codec

/-- The reply, unless it is an error. -/
def accept : Tagged Reply → Except ClientError Reply
  | ⟨_, .error errno⟩ => .error (.remote errno)
  | ⟨_, reply⟩ => .ok reply

/-- Send a request under the next tag and read what comes back. The client relies on its being
under the same tag. -/
def exchange (c : Client) (r : Request) (s : Share) :
    Except ClientError (Tagged Reply) × List Notice × Client × Share :=
  match Frame.ofRequest ⟨c.nextTag, r⟩ with
  | .error e => (.error (.codec e), [], c.advance, s)
  | .ok frame =>
    let (reply, notices, s) := s.respond frame
    (receive reply, notices, c.advance, s)

/-- Send a request and read its reply. -/
def send (c : Client) (r : Request) (s : Share) :
    Except ClientError Reply × List Notice × Client × Share :=
  let (received, notices, c, s) := c.exchange r s
  (received.bind accept, notices, c, s)

/-- The client after a reply. -/
def learn (c : Client) : Except ClientError Reply → Client
  | .ok (.version msize v) => if v = protocolVersion then { c with msize } else c
  | _ => c

/-- Send a request of any kind; a reply about the version sets the largest message. -/
def call (c : Client) (r : Request) (s : Share) :
    Except ClientError Reply × List Notice × Client × Share :=
  let (reply, notices, c, s) := c.send r s
  (reply, notices, c.learn reply, s)

end Client

/-! ## Calls -/

/-- A call for an operation, with what the caller chooses of the request. -/
inductive Call : Operation → Type
  | version (msize : UInt32) : Call .version
  | attach (fid : FidId) (uid : UInt32) : Call .attach
  | walk (fid newFid : FidId) (names : List String) : Call .walk
  | lopen (fid : FidId) (flags : UInt32) : Call .lopen
  | open (fid : FidId) (mode : UInt8) : Call .open
  | lcreate (fid : FidId) (name : String) (flags mode gid : UInt32) : Call .lcreate
  | symlink (fid : FidId) (name target : String) : Call .symlink
  | mknod (dfid : FidId) (name : String) (mode major minor : UInt32) : Call .mknod
  | mkdir (dfid : FidId) (name : String) (mode : UInt32) : Call .mkdir
  | readlink (fid : FidId) : Call .readlink
  | getattr (fid : FidId) : Call .getattr
  | setattr (fid : FidId) (attr : SetAttr) : Call .setattr
  | readdir (fid : FidId) (offset : UInt64) (count : UInt32) : Call .readdir
  | fsync (fid : FidId) : Call .fsync
  | renameat (oldDir : FidId) (oldName : String) (newDir : FidId) (newName : String) :
      Call .renameat
  | unlinkat (dirFid : FidId) (name : String) (flags : UInt32) : Call .unlinkat
  | read (fid : FidId) (offset : UInt64) (count : UInt32) : Call .read
  | write (fid : FidId) (offset : UInt64) (data : Bytes) : Call .write
  | clunk (fid : FidId) : Call .clunk
  | remove (fid : FidId) : Call .remove

/-- Why a call gives nothing. -/
inductive CallError
  | failed (e : ClientError)
  /-- The server has another version of the protocol. -/
  | otherVersion (version : String)
  /-- The reply is of another operation, which the client takes for impossible. -/
  | otherReply (op : Operation)
deriving Repr, DecidableEq

namespace CallError

/-- The wording of an error. -/
def message : CallError → String
  | failed e => e.message
  | otherVersion version => "protocol error: unexpected version " ++ version
  | otherReply op => op.name ++ " response must be " ++ (MessageType.reply op).name

/-- The number of an error. The impossible has none. -/
def errno? : CallError → Option UInt32
  | failed e => e.errno
  | otherVersion _ => ShareError.invalidArgument
  | otherReply _ => none

end CallError

/-- What a reply carries if it is one of an operation. -/
def Reply.args? (op : Operation) (reply : Reply) : Option (Reply.Args op) :=
  match reply.split with
  | .inl _ => none
  | .inr ⟨op', a⟩ => if h : op' = op then some (h ▸ a) else none

namespace Call

/-- The request of a call. It asks for all attributes, leaves out the names of users, and makes
links, nodes and directories belong to the first group. -/
def request {op : Operation} : Call op → Request
  | version msize => .version msize protocolVersion
  | attach fid uid => .attach fid noId "" "" uid
  | walk fid newFid names => .walk fid newFid names
  | lopen fid flags => .lopen fid flags
  | .open fid mode => .open fid mode
  | lcreate fid name flags mode gid => .lcreate fid name flags mode gid
  | symlink fid name target => .symlink fid name target 0
  | mknod dfid name mode major minor => .mknod dfid name mode major minor 0
  | mkdir dfid name mode => .mkdir dfid name mode 0
  | readlink fid => .readlink fid
  | getattr fid => .getattr fid 0xffffffffffffffff
  | setattr fid attr => .setattr fid attr
  | readdir fid offset count => .readdir fid offset count
  | fsync fid => .fsync fid 0
  | renameat oldDir oldName newDir newName => .renameat oldDir oldName newDir newName
  | unlinkat dirFid name flags => .unlinkat dirFid name flags
  | read fid offset count => .read fid offset count
  | write fid offset data => .write fid offset data
  | clunk fid => .clunk fid
  | remove fid => .remove fid

/-- What the calls of an operation give: all that the reply carries, but for the version and the
unit for reading and writing of a new file. -/
def Value : Operation → Type
  | .version => UInt32
  | .lcreate => Qid
  | op => Reply.Args op

/-- What a call gives of what the reply carries. -/
def value : (op : Operation) → Reply.Args op → Except CallError (Value op)
  | .version, (msize, v) => if v = protocolVersion then .ok msize else .error (.otherVersion v)
  | .lcreate, (qid, _) => .ok qid
  | .attach, a | .flush, a | .walk, a | .lopen, a | .open, a | .symlink, a | .mknod, a
  | .readlink, a | .getattr, a | .setattr, a | .readdir, a | .fsync, a | .mkdir, a
  | .renameat, a | .unlinkat, a | .read, a | .write, a | .clunk, a | .remove, a => .ok a

/-- What a call comes to with its reply. -/
def conclude (op : Operation) : Except ClientError Reply → Except CallError (Value op)
  | .error e => .error (.failed e)
  | .ok reply =>
    match reply.args? op with
    | none => .error (.otherReply op)
    | some a => value op a

end Call

/-- Make a call. -/
def Client.ask (c : Client) {op : Operation} (q : Call op) (s : Share) :
    Except CallError (Call.Value op) × List Notice × Client × Share :=
  let (reply, notices, c, s) := c.call q.request s
  (Call.conclude op reply, notices, c, s)

end GuestShare
