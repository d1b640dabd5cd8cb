import GuestShare.Proofs.Metadata.Apart
import GuestShare.Proofs.Share.Whereabouts
import Mathlib.Tactic.IntervalCases

/-!
# What is recorded of a new node

A request that makes a node records what it asks for: the kind, the permission bits, the owner of
the fid, the group, the numbers of a device and the target of a link.

* `Birth`, `Share.birth`: what a request asks for, and at which path.
* `Overlay.Records`: records that say so.
* `majorOf`, `minorOf`: the numbers of a device as Linux reads them.
* **`majorOf_number`**, **`minorOf_number`**: a device is reported with its numbers.
* **`Plain.perform_birth`**: a node that was made is at its path, with such records.
-/

namespace GuestShare

/-! ## Numbers of devices -/

/-- The major number of a device as Linux reads it. -/
def majorOf (n : UInt64) : UInt64 :=
  ((n >>> 8) &&& (0xfff : UInt64)) ||| ((n >>> 32) &&& (0xfffff000 : UInt64))

/-- The minor number of a device as Linux reads it. -/
def minorOf (n : UInt64) : UInt64 :=
  (n &&& (0xff : UInt64)) ||| ((n >>> 12) &&& (0xffffff00 : UInt64))

/-- **The major number can be read back.** -/
theorem majorOf_number (d : Device) : majorOf d.number = d.major.toUInt64 := by
  obtain ⟨_, ⟨major⟩, ⟨minor⟩⟩ := d
  apply UInt64.toBitVec_inj.mp
  unfold majorOf Device.number
  ext i hi
  -- each bit comes from one place
  interval_cases i <;> simp

/-- **The minor number can be read back.** -/
theorem minorOf_number (d : Device) : minorOf d.number = d.minor.toUInt64 := by
  obtain ⟨_, ⟨major⟩, ⟨minor⟩⟩ := d
  apply UInt64.toBitVec_inj.mp
  unfold minorOf Device.number
  ext i hi
  interval_cases i <;> simp

/-! ## What is asked for -/

/-- What a node is made with. -/
structure Birth where
  path : GuestPath
  kind : NodeKind
  mode : UInt32
  uid : UInt32
  gid : UInt32
  /-- The numbers of a device. -/
  numbers : Option (UInt32 × UInt32)
  /-- The target of a link. -/
  target : Option String

/-- The numbers that are asked for, if a device is. -/
def NodeKind.numbers (k : NodeKind) (major minor : UInt32) : Option (UInt32 × UInt32) :=
  if k = .charDevice ∨ k = .blockDevice then some (major, minor) else none

/-- Records that say what a node was made with. -/
structure Overlay.Records (o : Overlay) (b : Birth) : Prop where
  permission : ∃ r, o.permission = some r ∧ r.mode.toUInt32 = b.mode &&& permissionMask ∧
    r.uid = b.uid ∧ r.gid = b.gid
  kind : o.kind = some b.kind
  target : ∀ t, b.target = some t → b.kind = .symlink ∧ o.symlink = some t
  numbers : ∀ major minor, b.numbers = some (major, minor) → ∃ d, o.device = some d ∧
    majorOf d.number = major.toUInt64 ∧ minorOf d.number = minor.toUInt64

theorem Overlay.Records.of_le {o o' : Overlay} {b : Birth} (hr : o.Records b) (hle : o.Le o') :
    o'.Records b where
  permission := hr.permission.imp fun r ⟨ho, hrest⟩ => ⟨hle.permission r ho, hrest⟩
  kind := hle.kind _ hr.kind
  target t ht := (hr.target t ht).imp_right (hle.symlink t)
  numbers major minor hd := (hr.numbers major minor hd).imp fun d ⟨ho, hrest⟩ =>
    ⟨hle.device d ho, hrest⟩

namespace Share

/-- What a request makes a node with. -/
def birth (s : Share) : Request → Option Birth
  | .lcreate id name _ mode gid =>
    (s.fids[id]?).map fun fid => ⟨fid.path ++ [name], .file, mode, fid.uid, gid, none, none⟩
  | .symlink id name target gid =>
    (s.fids[id]?).map fun fid =>
      ⟨fid.path ++ [name], .symlink, linkMode, fid.uid, gid, none, some target⟩
  | .mknod id name mode major minor gid => do
    let fid ← s.fids[id]?
    let kind ← NodeKind.ofMode? mode
    return ⟨fid.path ++ [name], kind, mode, fid.uid, gid, kind.numbers major minor, none⟩
  | .mkdir id name mode gid =>
    (s.fids[id]?).map fun fid => ⟨fid.path ++ [name], .directory, mode, fid.uid, gid, none, none⟩
  | _ => none

/-- A node is at its path with records that say what it was made with, all of which are still to be
written. -/
structure Born (s : Share) (b : Birth) : Prop where
  valid : b.path.Valid
  has : ∃ i, s.Has b.path i
  records : (s.store.overlay b.path.key).Records b
  pending : ∀ c, (s.store.overlay b.path.key).Has c → s.store.isPending c = true

variable {s : Share} {r : Request} {b : Birth} {kind : NodeKind} {mode uid gid : UInt32}
  {now : Instant}

theorem records_ofMode {numbers : Option (UInt32 × UInt32)} {target : Option String}
    {p : GuestPath} {link : Option String} {device : Option Device}
    (htarget : ∀ t, target = some t → kind = .symlink ∧ link = some t)
    (hnumbers : ∀ major minor, numbers = some (major, minor) → ∃ d, device = some d ∧
      majorOf d.number = major.toUInt64 ∧ minorOf d.number = minor.toUInt64) :
    Overlay.Records ⟨some (.ofMode mode uid gid now.short), link, some kind, device⟩
      ⟨p, kind, mode, uid, gid, numbers, target⟩ where
  permission := ⟨_, rfl, Permissions.toUInt32_and_mask mode, rfl, rfl⟩
  kind := rfl
  target := htarget
  numbers := hnumbers

/-- **A node that was made is at its path**, with the records that were asked for. -/
theorem Plain.perform_birth (hp : s.Plain) (hb : s.birth r = some b) (hd : s.Does r) :
    (s.perform r).2.Born b := by
  obtain ⟨reply, hreply⟩ := hd
  have hp' := hp.perform r
  generalize hs' : (s.perform r).2 = s' at hp'
  have hr : s.perform r = (.ok reply, s') := Prod.ext hreply hs'
  -- the fid of a directory, the node that is found at the new path, and its records
  have born : ∀ {id : FidId} {fid : Fid} {name : String} {n : Node} {o : Overlay},
      s.directory id = .ok fid → isEntryName name = true →
      s'.node (fid.path ++ [name]) = .ok n → b.path = fid.path ++ [name] →
      s'.store.overlay (entryKey fid.path name) = o → o.Records b →
      (∀ c, o.Has c → s'.store.isPending c = true) → s'.Born b := by
    intro id fid name n o hdir hname hn hpath ho hrec hpend
    have hkey : s'.store.overlay b.path.key = o := by rw [hpath, ← entryKey, ho]
    refine ⟨?_, ⟨n.ino, ?_⟩, hkey.symm ▸ hrec, hkey.symm ▸ hpend⟩
    · rw [hpath]
      exact (directory_valid hp.validPaths hdir).concat hname
    · rw [hpath]
      exact hp'.linkFree.has_of_node hp'.sound hn
  cases perform_act hr with
  | create source entry there after node =>
    subst after
    simp only [birth, (directory_eq_ok_iff.mp source).1, Option.map_some, Option.some.injEq] at hb
    subst hb
    refine born source entry node rfl (Store.overlay_recordNew.trans (if_pos rfl))
      (records_ofMode (fun _ ht => by cases ht) fun _ _ hx => by cases hx) fun c hc => ?_
    cases c <;> first | rfl | cases hc
  | make source entry makes records after node =>
    subst after
    cases records with
    | symlink =>
      simp only [birth, (directory_eq_ok_iff.mp source).1, Option.map_some,
        Option.some.injEq] at hb
      subst hb
      refine born source entry node rfl ((overlay_recordLink _).trans (if_pos rfl))
        (records_ofMode (fun _ ht => ⟨rfl, ht⟩) fun _ _ hx => by cases hx) fun c hc => ?_
      cases c <;> first | rfl | cases hc
    | @mknod id name mode major minor gid kind device hkind hdevice =>
      simp only [birth, (directory_eq_ok_iff.mp source).1, hkind, Option.bind_eq_bind,
        Option.bind_some, Option.pure_def, Option.some.injEq] at hb
      subst hb
      have hnumbers : ∀ x y, kind.numbers major minor = some (x, y) → ∃ d, device = some d ∧
          majorOf d.number = x.toUInt64 ∧ minorOf d.number = y.toUInt64 := by
        intro x y hxy
        unfold NodeKind.numbers at hxy
        split_ifs at hxy with hk
        cases hxy
        obtain ⟨d, rfl, -, hx, hy⟩ | ⟨-, hchar, hblock⟩ := deviceOf_eq_ok hdevice
        · exact ⟨d, rfl, (majorOf_number d).trans hx, (minorOf_number d).trans hy⟩
        · exact absurd hk (not_or.mpr ⟨hchar, hblock⟩)
      refine born source entry node rfl ((overlay_recordDevice _).trans (if_pos rfl))
        (records_ofMode (fun _ ht => by cases ht) hnumbers) fun c hc => ?_
      cases device <;> cases c <;> first | rfl | cases hc
    | mkdir =>
      simp only [birth, (directory_eq_ok_iff.mp source).1, Option.map_some,
        Option.some.injEq] at hb
      subst hb
      refine born source entry node rfl (Store.overlay_recordNew.trans (if_pos rfl))
        (records_ofMode (fun _ ht => by cases ht) fun _ _ hx => by cases hx) fun c hc => ?_
      cases c <;> first | rfl | cases hc
  -- nothing else makes a node
  | look sees => cases sees <;> cases hb
  | «open» opening => cases opening <;> cases hb
  | drop drops => obtain ⟨rfl, -⟩ | ⟨rfl, -⟩ := drops <;> cases hb
  | begin | attach | walk | set | write | move | unlink | remove => cases hb

end Share

end GuestShare
