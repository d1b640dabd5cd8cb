import GuestShare.Wire.Operation
import GuestShare.Wire.Attributes

/-!
# Requests and replies

* `Request`, `Reply`: the messages of both sides.
* `Request.Args`, `Request.layout`: what an operation's request carries, and how.
* `Request.split`, `Request.join`: a request taken apart into its operation and what it carries,
  and put together again; likewise `Reply.split` and `Reply.join`.
* `Tagged`: a message under the tag that ties a reply to its request.
-/

namespace GuestShare

/-- The number by which a client refers to a node. -/
abbrev FidId := UInt32

/-- A message and its tag. -/
structure Tagged (α : Type) where
  tag : UInt16
  body : α
deriving Repr, DecidableEq

/-- The most names that one walk may have. -/
def maxWalkNames : Nat := 16

/-- The number that stands for "no user" and "no fid". -/
def noId : UInt32 := 0xffffffff

/-! ## Requests -/

/-- What a client asks for. -/
inductive Request
  | version (msize : UInt32) (version : String)
  | attach (fid afid : FidId) (uname aname : String) (uid : UInt32)
  | flush (oldTag : UInt16)
  | walk (fid newFid : FidId) (names : List String)
  | lopen (fid : FidId) (flags : UInt32)
  | open (fid : FidId) (mode : UInt8)
  | lcreate (fid : FidId) (name : String) (flags mode gid : UInt32)
  | symlink (fid : FidId) (name target : String) (gid : UInt32)
  | mknod (dfid : FidId) (name : String) (mode major minor gid : UInt32)
  | readlink (fid : FidId)
  | getattr (fid : FidId) (mask : UInt64)
  | setattr (fid : FidId) (attr : SetAttr)
  | readdir (fid : FidId) (offset : UInt64) (count : UInt32)
  | fsync (fid : FidId) (datasync : UInt32)
  | mkdir (dfid : FidId) (name : String) (mode gid : UInt32)
  | renameat (oldDir : FidId) (oldName : String) (newDir : FidId) (newName : String)
  | unlinkat (dirFid : FidId) (name : String) (flags : UInt32)
  | read (fid : FidId) (offset : UInt64) (count : UInt32)
  | write (fid : FidId) (offset : UInt64) (data : Bytes)
  | clunk (fid : FidId)
  | remove (fid : FidId)
  /-- A message whose code is no request's. -/
  | unknown (code : UInt8)
deriving Repr, DecidableEq

namespace Request

/-- What the request of an operation carries. -/
def Args : Operation → Type
  | .version => UInt32 × String
  | .attach => FidId × FidId × String × String × UInt32
  | .flush => UInt16
  | .walk => FidId × FidId × List String
  | .lopen => FidId × UInt32
  | .open => FidId × UInt8
  | .lcreate => FidId × String × UInt32 × UInt32 × UInt32
  | .symlink => FidId × String × String × UInt32
  | .mknod => FidId × String × UInt32 × UInt32 × UInt32 × UInt32
  | .readlink => FidId
  | .getattr => FidId × UInt64
  | .setattr => FidId × SetAttr
  | .readdir => FidId × UInt64 × UInt32
  | .fsync => FidId × UInt32
  | .mkdir => FidId × String × UInt32 × UInt32
  | .renameat => FidId × String × FidId × String
  | .unlinkat => FidId × String × UInt32
  | .read => FidId × UInt64 × UInt32
  | .write => FidId × UInt64 × Bytes
  | .clunk => FidId
  | .remove => FidId

open Layout in
/-- How it is laid out. An older `attach` ends before the user, an older `fsync` after the fid. -/
def layout : (op : Operation) → Layout (Args op)
  | .version => u32.pair text
  | .attach => u32.pair <| u32.pair <| text.pair <| text.pair <| u32.orElse 4 noId
  | .flush => u16
  | .walk => u32.pair <| u32.pair <| text.counted maxWalkNames
  | .lopen => u32.pair u32
  | .open => u32.pair u8
  | .lcreate => u32.pair <| text.pair <| u32.pair <| u32.pair u32
  | .symlink => u32.pair <| text.pair <| text.pair u32
  | .mknod => u32.pair <| text.pair <| u32.pair <| u32.pair <| u32.pair u32
  | .readlink => u32
  | .getattr => u32.pair u64
  | .setattr => u32.pair SetAttr.layout
  | .readdir => u32.pair <| u64.pair u32
  | .fsync => u32.pair <| u32.orElse 4 0
  | .mkdir => u32.pair <| text.pair <| u32.pair u32
  | .renameat => u32.pair <| text.pair <| u32.pair text
  | .unlinkat => u32.pair <| text.pair u32
  | .read => u32.pair <| u64.pair u32
  | .write => u32.pair <| u64.pair blob
  | .clunk => u32
  | .remove => u32

/-- The request of an operation. -/
def join : (op : Operation) → Args op → Request
  | .version, (msize, v) => .version msize v
  | .attach, (fid, afid, uname, aname, uid) => .attach fid afid uname aname uid
  | .flush, oldTag => .flush oldTag
  | .walk, (fid, newFid, names) => .walk fid newFid names
  | .lopen, (fid, flags) => .lopen fid flags
  | .open, (fid, mode) => .open fid mode
  | .lcreate, (fid, name, flags, mode, gid) => .lcreate fid name flags mode gid
  | .symlink, (fid, name, target, gid) => .symlink fid name target gid
  | .mknod, (dfid, name, mode, major, minor, gid) => .mknod dfid name mode major minor gid
  | .readlink, fid => .readlink fid
  | .getattr, (fid, mask) => .getattr fid mask
  | .setattr, (fid, attr) => .setattr fid attr
  | .readdir, (fid, offset, count) => .readdir fid offset count
  | .fsync, (fid, datasync) => .fsync fid datasync
  | .mkdir, (dfid, name, mode, gid) => .mkdir dfid name mode gid
  | .renameat, (oldDir, oldName, newDir, newName) => .renameat oldDir oldName newDir newName
  | .unlinkat, (dirFid, name, flags) => .unlinkat dirFid name flags
  | .read, (fid, offset, count) => .read fid offset count
  | .write, (fid, offset, data) => .write fid offset data
  | .clunk, fid => .clunk fid
  | .remove, fid => .remove fid

/-- The operation of a request and what it carries, or the code of an unknown message. -/
def split : Request → UInt8 ⊕ (op : Operation) × Args op
  | .version msize v => .inr ⟨.version, msize, v⟩
  | .attach fid afid uname aname uid => .inr ⟨.attach, fid, afid, uname, aname, uid⟩
  | .flush oldTag => .inr ⟨.flush, oldTag⟩
  | .walk fid newFid names => .inr ⟨.walk, fid, newFid, names⟩
  | .lopen fid flags => .inr ⟨.lopen, fid, flags⟩
  | .open fid mode => .inr ⟨.open, fid, mode⟩
  | .lcreate fid name flags mode gid => .inr ⟨.lcreate, fid, name, flags, mode, gid⟩
  | .symlink fid name target gid => .inr ⟨.symlink, fid, name, target, gid⟩
  | .mknod dfid name mode major minor gid => .inr ⟨.mknod, dfid, name, mode, major, minor, gid⟩
  | .readlink fid => .inr ⟨.readlink, fid⟩
  | .getattr fid mask => .inr ⟨.getattr, fid, mask⟩
  | .setattr fid attr => .inr ⟨.setattr, fid, attr⟩
  | .readdir fid offset count => .inr ⟨.readdir, fid, offset, count⟩
  | .fsync fid datasync => .inr ⟨.fsync, fid, datasync⟩
  | .mkdir dfid name mode gid => .inr ⟨.mkdir, dfid, name, mode, gid⟩
  | .renameat oldDir oldName newDir newName => .inr ⟨.renameat, oldDir, oldName, newDir, newName⟩
  | .unlinkat dirFid name flags => .inr ⟨.unlinkat, dirFid, name, flags⟩
  | .read fid offset count => .inr ⟨.read, fid, offset, count⟩
  | .write fid offset data => .inr ⟨.write, fid, offset, data⟩
  | .clunk fid => .inr ⟨.clunk, fid⟩
  | .remove fid => .inr ⟨.remove, fid⟩
  | .unknown code => .inl code

@[simp] theorem split_join (op : Operation) (a : Args op) : (join op a).split = .inr ⟨op, a⟩ := by
  cases op <;> rfl

theorem eq_join_of_split {r : Request} {op : Operation} {a : Args op}
    (h : r.split = .inr ⟨op, a⟩) : r = join op a := by
  cases r <;> cases h <;> rfl

theorem eq_unknown_of_split {r : Request} {code : UInt8} (h : r.split = .inl code) :
    r = .unknown code := by
  cases r <;> cases h
  rfl

/-- The name of a request in the log. -/
def name (r : Request) : String :=
  match r.split with
  | .inl _ => "unknown"
  | .inr ⟨op, _⟩ => (MessageType.request op).name

end Request

/-! ## Replies -/

/-- What the server answers. -/
inductive Reply
  | version (msize : UInt32) (version : String)
  | attach (qid : Qid)
  | flush
  | walk (qids : List Qid)
  | lopen (qid : Qid) (iounit : UInt32)
  | open (qid : Qid) (iounit : UInt32)
  | lcreate (qid : Qid) (iounit : UInt32)
  | symlink (qid : Qid)
  | mknod (qid : Qid)
  | readlink (target : String)
  | getattr (attr : Attr)
  | setattr
  | readdir (entries : List DirEntry)
  | fsync
  | mkdir (qid : Qid)
  | renameat
  | unlinkat
  | read (data : Bytes)
  | write (count : UInt32)
  | clunk
  | remove
  /-- The request failed, for the reason that the number stands for. -/
  | error (code : UInt32)
deriving Repr, DecidableEq

namespace Reply

/-- What the reply of an operation carries. -/
def Args : Operation → Type
  | .version => UInt32 × String
  | .attach => Qid
  | .flush => Unit
  | .walk => List Qid
  | .lopen => Qid × UInt32
  | .open => Qid × UInt32
  | .lcreate => Qid × UInt32
  | .symlink => Qid
  | .mknod => Qid
  | .readlink => String
  | .getattr => Attr
  | .setattr => Unit
  | .readdir => List DirEntry
  | .fsync => Unit
  | .mkdir => Qid
  | .renameat => Unit
  | .unlinkat => Unit
  | .read => Bytes
  | .write => UInt32
  | .clunk => Unit
  | .remove => Unit

open Layout in
/-- How it is laid out. -/
def layout : (op : Operation) → Layout (Args op)
  | .version => u32.pair text
  | .attach => Qid.layout
  | .flush => unit
  | .walk => Qid.layout.counted 65535
  | .lopen => Qid.layout.pair u32
  | .open => Qid.layout.pair u32
  | .lcreate => Qid.layout.pair u32
  | .symlink => Qid.layout
  | .mknod => Qid.layout
  | .readlink => text
  | .getattr => Attr.layout
  | .setattr => unit
  | .readdir => DirEntry.layout.packed DirEntry.size
  | .fsync => unit
  | .mkdir => Qid.layout
  | .renameat => unit
  | .unlinkat => unit
  | .read => blob
  | .write => u32
  | .clunk => unit
  | .remove => unit

/-- The reply of an operation. -/
def join : (op : Operation) → Args op → Reply
  | .version, (msize, v) => .version msize v
  | .attach, qid => .attach qid
  | .flush, () => .flush
  | .walk, qids => .walk qids
  | .lopen, (qid, iounit) => .lopen qid iounit
  | .open, (qid, iounit) => .open qid iounit
  | .lcreate, (qid, iounit) => .lcreate qid iounit
  | .symlink, qid => .symlink qid
  | .mknod, qid => .mknod qid
  | .readlink, target => .readlink target
  | .getattr, attr => .getattr attr
  | .setattr, () => .setattr
  | .readdir, entries => .readdir entries
  | .fsync, () => .fsync
  | .mkdir, qid => .mkdir qid
  | .renameat, () => .renameat
  | .unlinkat, () => .unlinkat
  | .read, data => .read data
  | .write, count => .write count
  | .clunk, () => .clunk
  | .remove, () => .remove

/-- The operation of a reply and what it carries, or the number of an error. -/
def split : Reply → UInt32 ⊕ (op : Operation) × Args op
  | .version msize v => .inr ⟨.version, msize, v⟩
  | .attach qid => .inr ⟨.attach, qid⟩
  | .flush => .inr ⟨.flush, ()⟩
  | .walk qids => .inr ⟨.walk, qids⟩
  | .lopen qid iounit => .inr ⟨.lopen, qid, iounit⟩
  | .open qid iounit => .inr ⟨.open, qid, iounit⟩
  | .lcreate qid iounit => .inr ⟨.lcreate, qid, iounit⟩
  | .symlink qid => .inr ⟨.symlink, qid⟩
  | .mknod qid => .inr ⟨.mknod, qid⟩
  | .readlink target => .inr ⟨.readlink, target⟩
  | .getattr attr => .inr ⟨.getattr, attr⟩
  | .setattr => .inr ⟨.setattr, ()⟩
  | .readdir entries => .inr ⟨.readdir, entries⟩
  | .fsync => .inr ⟨.fsync, ()⟩
  | .mkdir qid => .inr ⟨.mkdir, qid⟩
  | .renameat => .inr ⟨.renameat, ()⟩
  | .unlinkat => .inr ⟨.unlinkat, ()⟩
  | .read data => .inr ⟨.read, data⟩
  | .write count => .inr ⟨.write, count⟩
  | .clunk => .inr ⟨.clunk, ()⟩
  | .remove => .inr ⟨.remove, ()⟩
  | .error code => .inl code

@[simp] theorem split_join (op : Operation) (a : Args op) : (join op a).split = .inr ⟨op, a⟩ := by
  cases op <;> rfl

theorem eq_join_of_split {r : Reply} {op : Operation} {a : Args op}
    (h : r.split = .inr ⟨op, a⟩) : r = join op a := by
  cases r <;> cases h <;> rfl

theorem eq_error_of_split {r : Reply} {code : UInt32} (h : r.split = .inl code) :
    r = .error code := by
  cases r <;> cases h
  rfl

end Reply

end GuestShare
