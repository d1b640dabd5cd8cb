import GuestShare.Share.Node

/-!
# Attributes

* `Share.readlink`, `Share.getattr`: what a node is.
* `instantOf`: a time as a client gives it, if the host can hold it.
* `Share.setattr`: setting attributes. The size is set on the host at once; what fails after that
  does not undo it.
-/

namespace GuestShare

/-- A time as a client gives it. The nanoseconds may be more than a second. -/
def instantOf (secs nanos : UInt64) : Except ShareError Instant :=
  let seconds := secs.toNat + nanos.toNat / Instant.nanosPerSecond
  if seconds < Host.limit then .ok ⟨seconds, nanos.toNat % Instant.nanosPerSecond⟩
  else .error (.refused .timeRange)

namespace Share

/-- The target of a link. -/
def readlink (s : Share) (id : FidId) : Answer := do
  let fid ← s.fids.find id
  match ← s.linkText fid.path with
  | some target => return (.readlink target, s)
  | none => throw .notSymlink

/-- The attributes of a node. -/
def getattr (s : Share) (id : FidId) : Answer := do
  let fid ← s.fids.find id
  let n ← s.node fid.path
  return (.getattr (n.attr s.store s.host), s)

/-- The new permission record, but for its time. -/
def changedRecord (r : Permissions) (a : SetAttr) : Permissions :=
  { r with
    mode := if a.has SetAttr.modeBit then (a.mode &&& permissionMask).toUInt16 else r.mode
    uid := if a.has SetAttr.uidBit then a.uid else r.uid
    gid := if a.has SetAttr.gidBit then a.gid else r.gid }

/-- Set the size of a file. -/
def setSize (s : Share) (n : Node) (size : UInt64) : Except ShareError Host := do
  if n.isDirectory then throw .isDirectory
  let (d, h) ← (s.host.openAt (s.hostPath n.path) .writing).mapError ShareError.host
  (d.setLength size.toNat h).mapError ShareError.host

/-- The time to set, if one is to be set: the one given, or the present. -/
def newTime (a : SetAttr) (bit given : UInt32) (secs nanos : UInt64) (now : Instant) :
    Except ShareError (Option Instant) :=
  if !a.has bit then .ok none
  else if a.has given then some <$> instantOf secs nanos
  else .ok (some now)

/-- Set the times of a node, links followed. -/
def setTimes (h : Host) (p : Path) (accessed modified : Option Instant) :
    Except ShareError Host := do
  let (d, h) ← (h.openAt p .reading).mapError ShareError.host
  return d.setTimes accessed modified h

/-- Set the times and the records of a node whose size is set. -/
def setRest (s : Share) (n : Node) (a : SetAttr) : Answer := do
  let r := changedRecord ((s.store.permission n.key).getD n.defaultPermission) a
  let now := s.host.clock
  let accessed ← newTime a SetAttr.atimeBit SetAttr.atimeSetBit a.atimeSec a.atimeNsec now
  let modified ← newTime a SetAttr.mtimeBit SetAttr.mtimeSetBit a.mtimeSec a.mtimeNsec now
  let h ←
    if (accessed.isSome || modified.isSome) && n.kind ≠ .symlink then
      setTimes s.host (s.hostPath n.path) accessed modified
    else pure s.host
  let changed := a.has SetAttr.modeBit || a.has SetAttr.uidBit || a.has SetAttr.gidBit ||
    modified.isSome
  let r := { r with mtime := (modified.map Instant.short).getD r.mtime }
  let store := if changed then s.store.setPermission n.key r else s.store
  return (.setattr, { s with host := h, store })

/-- Set attributes. -/
def setattr (s : Share) (id : FidId) (a : SetAttr) : Except ShareError Reply × Share :=
  match (do s.node (← s.fids.find id).path) with
  | .error e => (.error e, s)
  | .ok n =>
    match if a.has SetAttr.sizeBit then s.setSize n a.size else .ok s.host with
    | .error e => (.error e, s)
    | .ok h =>
      match { s with host := h }.setRest n a with
      | .error e => (.error e, { s with host := h })
      | .ok (reply, s) => (.ok reply, s)

end Share

end GuestShare
