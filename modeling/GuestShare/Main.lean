import GuestShare.Launch
import GuestShare.Host.Tree

/-!
# The command line

The arguments launch a share. Its host is kept in memory and begins with the configuration file that
the arguments name and nothing else; standard input and output are its one connection.

* `Main.host`: the host that a launch begins with.
* `Main.pull`: the next frame of a stream.
* `Main.serve`: a connection served to its end.
* `main`: the command line.
-/

namespace GuestShare.Main

/-- The time, counted from a start that the machine chooses. -/
def now : IO Instant := do
  let t ← IO.monoNanosNow
  return ⟨t / Instant.nanosPerSecond, t % Instant.nanosPerSecond⟩

/-- A host with the configuration file that is named, if it can be read. -/
def host (args : List String) : IO Host := do
  let h := Host.empty (← now)
  match (Arguments.parse? args).bind Arguments.config with
  | none => return h
  | some path =>
    try
      let data ← IO.FS.readBinFile path
      return ((Chore.file data.toList Host.fileMode).perform (Path.ofText path) h).2
    catch _ => return h

/-- Up to `count` bytes more behind those already there. Fewer come only from a stream that has
ended. -/
partial def readUpTo (input : IO.FS.Stream) (count : Nat) (got : ByteArray) : IO Bytes := do
  if count = 0 then return got.toList
  let bs ← input.read (USize.ofNat count)
  if bs.isEmpty then return got.toList
  readUpTo input (count - bs.size) (got ++ bs)

/-- The next frame of a stream. More than its size is only read if there is room for it in a
frame. -/
def pull (input : IO.FS.Stream) : IO Source.Next := do
  let head ← readUpTo input sizeWidth .empty
  match Source.next [.data head] with
  | .failed .unexpectedEnd =>
    let body ← readUpTo input ((Bytes.toU32 head).toNat - sizeWidth) .empty
    return Source.next [.data (head ++ body)]
  | verdict => return verdict

/-- Serve a connection to its end. -/
partial def serve (input output : IO.FS.Stream) (s : Share) : IO UInt32 := do
  match ← pull input with
  | .closed => return 0
  | .failed e =>
    IO.eprintln ("connection aborted" ++ ((e.message?.map (": " ++ ·)).getD ""))
    return 0
  | .frame bs _ =>
    let (reply, notices, s) := { s with host.clock := ← now }.respond bs
    for notice in notices do IO.eprintln notice.message
    if let some reply := reply then
      output.write (ByteArray.mk reply.toArray)
      output.flush
    serve input output s

end GuestShare.Main

open GuestShare in
/-- Launch a share with the given arguments and serve it. -/
def main (args : List String) : IO UInt32 := do
  let launch := Launch.run args (← Main.host args)
  if let some (c, s) := launch.started then
    IO.eprintln ("exporting " ++ Launch.exportingLine c s)
    IO.eprintln ("ready, " ++ Launch.readyLine c)
  match launch.started, launch.error with
  | some (_, s), none => Main.serve (← IO.getStdin) (← IO.getStdout) s
  | _, some e =>
    IO.eprintln ("Error: " ++ e.message)
    return launch.exitCode.toUInt32
  | none, none => return launch.exitCode.toUInt32
