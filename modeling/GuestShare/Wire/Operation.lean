/-!
# Operations and message types

Each operation has a request and a reply; the code of the reply is the code of the request plus
one. Beside these there is one more reply, the error.

* `Operation.code`, `Operation.ofCode?`: the code of a request.
* `MessageType.code`, `MessageType.ofCode?`: the codes of all messages.
* **`Operation.ofCode?_code`**, **`MessageType.ofCode?_code`**: a code names one message.
-/

namespace GuestShare

/-- What a client can ask for. -/
inductive Operation
  | lopen | lcreate | symlink | mknod | readlink | getattr | setattr | readdir | fsync | mkdir
  | renameat | unlinkat | version | attach | flush | walk | open | read | write | clunk | remove
deriving Repr, DecidableEq

namespace Operation

/-- Every operation, by code. -/
def all : List Operation :=
  [lopen, lcreate, symlink, mknod, readlink, getattr, setattr, readdir, fsync, mkdir, renameat,
    unlinkat, version, attach, flush, walk, .open, read, write, clunk, remove]

/-- The code of the request. -/
def code : Operation → UInt8
  | lopen => 12
  | lcreate => 14
  | symlink => 16
  | mknod => 18
  | readlink => 22
  | getattr => 24
  | setattr => 26
  | readdir => 40
  | fsync => 50
  | mkdir => 72
  | renameat => 74
  | unlinkat => 76
  | version => 100
  | attach => 104
  | flush => 108
  | walk => 110
  | .open => 112
  | read => 116
  | write => 118
  | clunk => 120
  | remove => 122

/-- The code of the reply. -/
def replyCode (op : Operation) : UInt8 := op.code + 1

/-- The name of the operation. -/
def name : Operation → String
  | lopen => "lopen"
  | lcreate => "lcreate"
  | symlink => "symlink"
  | mknod => "mknod"
  | readlink => "readlink"
  | getattr => "getattr"
  | setattr => "setattr"
  | readdir => "readdir"
  | fsync => "fsync"
  | mkdir => "mkdir"
  | renameat => "renameat"
  | unlinkat => "unlinkat"
  | version => "version"
  | attach => "attach"
  | flush => "flush"
  | walk => "walk"
  | .open => "open"
  | read => "read"
  | write => "write"
  | clunk => "clunk"
  | remove => "remove"

/-- The operation whose request has this code. -/
def ofCode? (c : UInt8) : Option Operation := all.find? (·.code == c)

/-- The operation whose reply has this code. -/
def ofReplyCode? (c : UInt8) : Option Operation := all.find? (·.replyCode == c)

/-- **The code of a request names its operation.** -/
theorem ofCode?_code (op : Operation) : ofCode? op.code = some op := by
  cases op <;> decide

theorem ofReplyCode?_replyCode (op : Operation) : ofReplyCode? op.replyCode = some op := by
  cases op <;> decide

theorem code_of_ofCode? {c : UInt8} {op : Operation} (h : ofCode? c = some op) : op.code = c := by
  simpa using List.find?_some h

theorem replyCode_of_ofReplyCode? {c : UInt8} {op : Operation} (h : ofReplyCode? c = some op) :
    op.replyCode = c := by
  simpa using List.find?_some h

end Operation

/-- The type of a message. -/
inductive MessageType
  | error
  | request (op : Operation)
  | reply (op : Operation)
deriving Repr, DecidableEq

namespace MessageType

/-- The code of an error reply. -/
def errorCode : UInt8 := 7

/-- The code of a message. -/
def code : MessageType → UInt8
  | error => errorCode
  | request op => op.code
  | reply op => op.replyCode

/-- The name of a message: the side that sends it, then what it is about. -/
def name : MessageType → String
  | error => "Rlerror"
  | request op => "T" ++ op.name
  | reply op => "R" ++ op.name

/-- The message with this code. -/
def ofCode? (c : UInt8) : Option MessageType :=
  if c = errorCode then some error
  else ((Operation.ofCode? c).map request).or ((Operation.ofReplyCode? c).map reply)

theorem replyCode_ne_errorCode (op : Operation) : op.replyCode ≠ errorCode := by
  cases op <;> decide

/-- **The code of a message names it.** -/
theorem ofCode?_code (m : MessageType) : ofCode? m.code = some m := by
  cases m with
  | error => decide
  | request op => cases op <;> decide
  | reply op => cases op <;> decide

end MessageType

end GuestShare
