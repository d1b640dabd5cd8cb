import GuestShare.Proofs.Host.Sight
import GuestShare.Proofs.Metadata.Touched
import GuestShare.Proofs.Share.Stray
import GuestShare.Proofs.Share.Whereabouts

/-!
# What renaming does to fids

Whoever holds a fid of a node that is renamed, or of one below it, notices nothing: the fid goes
along, the node that it names is the same with the same records, and what is told of it stays. This
needs writing the records to leave the export alone.

* `Share.ownReply`, `Reply.timeless`: what a request itself comes to, but for when nodes
  changed.
* `Share.SameSight`: a path shows what another one showed, with the same records.
* **`Plain.renameat`**, **`flushRecords_sameBelow`**: renaming and writing keep it so.
* `Share.Carries`: what is left of a fid that goes along.
* **`reachable_renameat`**: every fid at or below the old path goes along, and no other one does.
* **`exists_not_carries`**: not so if category files lie in the export.
-/

namespace GuestShare

/-- A reply but for the time of change in it, which a new name sets. -/
def Reply.timeless : Reply → Reply
  | .getattr a => .getattr { a with ctimeSec := 0, ctimeNsec := 0 }
  | reply => reply

namespace Share

/-- The reply to a request, if its records can be written. -/
def ownReply (s : Share) (r : Request) : Reply :=
  match (s.perform r).1 with
  | .ok reply => reply
  | .error e => .error e.errno

variable {s s' s'' s₀ : Share} {r : Request} {p q q' old new rest : GuestPath} {i j : Ino}
  {n : Inode} {id : FidId} {fid : Fid} {name : String} {mask : UInt64}
  {reply : Reply} {o : ShareOptions} {h : Host}

/-! ## Looking at paths -/

/-- **What is seen below a node depends on what is below it only.** -/
theorem LinkFree.inspect_append (hl : s.LinkFree) (hs : s.Sound) (hi : s.Has p i) :
    s.host.inspect (s.hostPath (p ++ rest)) = s.host.sight i (rest.map Name.ofText) := by
  rw [hostPath, Host.inspect_ofNames, hostNames_append, hs.isTree.sight_append hi]
  intro front j hfront hj
  rcases List.prefix_or_prefix_of_prefix hfront (List.prefix_append _ _) with hp | ⟨ns, hns⟩
  · exact hs.target?_of_prefix hp hj
  · exact hl j ⟨ns, by rw [hns, hj]⟩

theorem errno_ofLookup (names names' : List Name) (e : HostError) :
    (ShareError.ofLookup names e).errno = (ShareError.ofLookup names' e).errno := by
  cases e <;> rfl

/-- A path shows the node that another one showed in another state, or none for the same reason, and
the node has the same link count and the same records. -/
structure SameSight (s : Share) (p : GuestPath) (s' : Share) (p' : GuestPath) : Prop where
  inspect : s'.host.inspect (s'.hostPath p') = s.host.inspect (s.hostPath p)
  linkCount : ∀ i n, s.host.inspect (s.hostPath p) = .ok (i, n) →
    s'.host.linkCount i = s.host.linkCount i
  overlay : s'.store.overlay p'.key = s.store.overlay p.key

namespace SameSight

theorem trans (h₁ : SameSight s p s' q) (h₂ : SameSight s' q s'' q') : SameSight s p s'' q' where
  inspect := h₂.inspect.trans h₁.inspect
  linkCount i n hi := (h₂.linkCount i n (h₁.inspect.trans hi)).trans (h₁.linkCount i n hi)
  overlay := h₂.overlay.trans h₁.overlay

theorem of_sameBelow (hl : s.LinkFree) (hs : s.Sound) (hl' : s'.LinkFree) (hs' : s'.Sound)
    (hi : s.Has p i) (hi' : s'.Has q i) (hb : s.host.SameBelow s'.host i)
    (ho : s'.store.overlay (q ++ rest).key = s.store.overlay (p ++ rest).key) :
    SameSight s (p ++ rest) s' (q ++ rest) where
  inspect := by
    rw [hl.inspect_append hs hi, hl'.inspect_append hs' hi', hb.sight]
  linkCount j n hj := by
    rw [hl.inspect_append hs hi] at hj
    exact hb.linkCount _ j (Host.descend_of_sight hj)
  overlay := ho

theorem permission (hp : SameSight s p s' q) :
    s'.store.permission q.key = s.store.permission p.key := congrArg Overlay.permission hp.overlay

theorem symlink (hp : SameSight s p s' q) :
    s'.store.symlink q.key = s.store.symlink p.key := congrArg Overlay.symlink hp.overlay

theorem kind (hp : SameSight s p s' q) :
    s'.store.kind q.key = s.store.kind p.key := congrArg Overlay.kind hp.overlay

theorem device (hp : SameSight s p s' q) :
    s'.store.device q.key = s.store.device p.key := congrArg Overlay.device hp.overlay

theorem inspect_iff (hp : SameSight s p s' q) :
    s'.inspect q = .ok (i, n) ↔ s.inspect p = .ok (i, n) := by
  unfold Share.inspect
  rw [Outcome.mapError_eq_ok_iff, Outcome.mapError_eq_ok_iff, hp.inspect]

/-- The same attributes are told, but for the time of change. -/
theorem attr (hp : SameSight s p s' q) (hi : s.host.inspect (s.hostPath p) = .ok (i, n)) :
    Reply.timeless (.getattr ((s'.nodeOf q i n).attr s'.store s'.host)) =
      Reply.timeless (.getattr ((s.nodeOf p i n).attr s.store s.host)) := by
  have hsize : (s'.nodeOf q i n).size s'.store = (s.nodeOf p i n).size s.store := by
    simp only [Node.size, nodeOf, Node.key, hp.kind, hp.symlink]
  simp only [Reply.timeless, Node.attr, hsize]
  simp only [Node.qid, nodeOf, Node.key, hp.kind, hp.permission, hp.device, hp.linkCount i n hi]

theorem ownReply_getattr (hp : SameSight s fid.path s' q) (hid : s.fids[id]? = some fid)
    (hid' : s'.fids[id]? = some { fid with path := q }) :
    (s'.ownReply (.getattr id mask)).timeless = (s.ownReply (.getattr id mask)).timeless := by
  unfold ownReply
  simp only [perform, getattr, Fids.find, hid, hid', node, Share.inspect, Outcome.ok_bind]
  rw [hp.inspect]
  cases hi : s.host.inspect (s.hostPath fid.path) with
  | error e => exact congrArg Reply.error (errno_ofLookup _ _ e)
  | ok x => exact hp.attr hi

theorem ownReply_readlink (hp : SameSight s fid.path s' q) (hid : s.fids[id]? = some fid)
    (hid' : s'.fids[id]? = some { fid with path := q }) :
    s'.ownReply (.readlink id) = s.ownReply (.readlink id) := by
  unfold ownReply
  simp only [perform, readlink, Fids.find, hid, hid', linkText, hp.symlink, Outcome.ok_bind]
  cases s.store.symlink fid.path.key with
  | some target => rfl
  | none =>
    simp only [Share.inspect, hp.inspect]
    cases s.host.inspect (s.hostPath fid.path) with
    | error e => exact congrArg Reply.error (errno_ofLookup _ _ e)
    | ok x =>
      obtain ⟨i, body, mode, accessed, modified⟩ := x
      cases body <;> rfl

end SameSight

/-! ## Renaming -/

theorem Plain.renameat (hp : s.Plain) (hm : s.movedPaths r = some (old, new)) (hd : s.Does r) :
    ∃ i, s.Has old i ∧ (s.perform r).2.Has new i ∧ s.host.SameBelow (s.perform r).2.host i ∧
      (old.Valid ∧ old ≠ []) ∧ (new.Valid ∧ new ≠ []) ∧
      (s.perform r).2.store = s.store.rename old.key new.key := by
  obtain ⟨p, name, p', name', dir, dir', i, n, rfl, rfl, hvalid, -, hf, hlook, hf', hcase,
    hstore⟩ := renameat_of_does hm hd
  obtain ⟨hi, hmoves, hbelow⟩ := hp.linkFree.moves hp.sound hf hlook hf'
    (hcase.imp_left fun hsame => ⟨hsame.1, hsame.2.2⟩)
  have hroot : (s.perform r).2.root = s.root := (perform_evolves s r).root_eq
  have hnames : (s.perform r).2.hostNames (p' ++ [name']) = s.hostNames (p' ++ [name']) := by
    rw [hostNames, hroot, hostNames]
  have hnew := hmoves.under []
  rw [List.append_nil] at hnew
  refine ⟨i, hi, ?_, hbelow, ⟨(hvalid hp.validPaths).1, by simp⟩,
    ⟨(hvalid hp.validPaths).2, by simp⟩, hstore⟩
  rw [Has, hnames]
  exact hnew

theorem overlay_renamed (hold : old.Valid ∧ old ≠ []) (hnew : new.Valid ∧ new ≠ [])
    (hrest : rest.Valid) (t : Store) :
    (t.rename old.key new.key).overlay (new ++ rest).key = t.overlay (old ++ rest).key := by
  by_cases hkey : old.key = new.key
  · obtain rfl := hold.1.eq_of_key_eq hnew.1 hkey
    rw [Store.rename_self]
  · have hsuffix : suffix? new.key (new ++ rest).key = some (GuestPath.keyTail rest) :=
      (hnew.1.suffix?_key_eq_some_iff (hnew.1.append hrest) hnew.2).mpr ⟨rest, rfl, rfl⟩
    rw [Store.overlay_rename hkey hsuffix, GuestPath.key_append hold.2]

theorem flushRecords_sameBelow (hs : s.Sound)
    (hout : ∀ j, s.store.Touches s.host j → ¬ s.Inside j) (hi : s.Has p i) :
    s.flushRecords.2.Has p i ∧ s.host.SameBelow s.flushRecords.2.host i := by
  obtain ⟨root, hroot, hdir⟩ := hs.root
  have hinside : ∀ ns j, s.host.descend root ns = some j → s.Inside j := fun ns j hj =>
    ⟨ns, by rw [Host.descend_append_of_eq hroot, hj]⟩
  have hbelow : s.host.SameBelow s.flushRecords.2.host root :=
    Store.flush_sameBelow (fun ns j hj => (hinside ns j hj).lt_size hs)
      fun ns j hj ht => hout j ht (hinside ns j hj)
  have hroot' : s.flushRecords.2.host.descend 0 s.root = some root :=
    Store.flush_puts.descend_of_isDirectory hdir hroot
  have hdown : s.host.descend root (p.map Name.ofText) = some i := by
    rw [← Host.descend_append_of_eq hroot]
    exact hi
  refine ⟨?_, hbelow.below hdown⟩
  show s.flushRecords.2.host.descend 0 (s.root ++ p.map Name.ofText) = some i
  rw [Host.descend_append_of_eq hroot', hbelow.descend, hdown]

/-- What is left of a fid that goes to a path: its owner, its handle and its node, with the records
and what is told of the node. -/
structure Carries (s s' : Share) (id : FidId) (fid : Fid) (q : GuestPath) : Prop where
  bound : s'.fids[id]? = some { fid with path := q }
  inspect : ∀ i n, s'.inspect q = .ok (i, n) ↔ s.inspect fid.path = .ok (i, n)
  records : s'.store.overlay q.key = s.store.overlay fid.path.key
  getattr : ∀ mask,
    (s'.ownReply (.getattr id mask)).timeless = (s.ownReply (.getattr id mask)).timeless
  readlink : s'.ownReply (.readlink id) = s.ownReply (.readlink id)

/-- **Renaming is transparent to the fids it moves**, in an export without links whose records are
written elsewhere. Every fid at or below the old path goes along, and every other one stays. -/
theorem reachable_renameat (hh : h.WellFormed) (hs : (start o h).1 = .ok s₀) (hl : s₀.LinkFree)
    (hr : s₀.Reachable s) (hm : s.movedPaths r = some (old, new)) (hd : s.Does r)
    (hout : ∀ i, (s.perform r).2.store.Touches (s.perform r).2.host i → ¬ (s.perform r).2.Inside i)
    (hid : s.fids[id]? = some fid) :
    (∀ rest, fid.path = old ++ rest → Carries s (s.answer r).2.2 id fid (new ++ rest)) ∧
      (¬ old <+: fid.path → (s.answer r).2.2.fids[id]? = some fid) := by
  have hp : s.Plain := (start_plain hh hs hl).of_reachable hr
  have hafter : (s.answer r).2.2 = (s.perform r).2.flushRecords.2 := answer_snd s r
  have hspares : ¬ r.Rebinds id := by cases r <;> first | exact not_false | cases hm
  have hfid : (s.answer r).2.2.fids[id]? = some { fid with path := fid.path.rebase old new } := by
    rw [hafter]
    show (s.perform r).2.fids[id]? = _
    rw [perform_fid hspares, hid, Option.map_some, carried_of_moved hm hd]
  refine ⟨fun rest hrest => ?_, fun hapart => ?_⟩
  · obtain ⟨i, hi, hi', hbelow, hold, hnew, hstore⟩ := hp.renameat hm hd
    obtain ⟨hi'', hbelow'⟩ := flushRecords_sameBelow (hp.perform r).sound hout hi'
    have hvalid : rest.Valid := by
      have hfid := hp.validPaths id fid hid
      rw [hrest] at hfid
      exact hfid.of_append_right
    have hsight : SameSight s (old ++ rest) (s.answer r).2.2 (new ++ rest) := by
      rw [hafter]
      refine .of_sameBelow hp.linkFree hp.sound (hp.perform r).flushRecords.linkFree
        (hp.perform r).flushRecords.sound hi hi'' (hbelow.trans hbelow') ?_
      rw [← overlay_renamed hold hnew hvalid, ← hstore]
      exact overlay_flushRecords _
    rw [hrest, GuestPath.rebase_append] at hfid
    rw [← hrest] at hsight
    exact ⟨hfid, fun _ _ => hsight.inspect_iff, hsight.overlay,
      fun _ => hsight.ownReply_getattr hid hfid, hsight.ownReply_readlink hid hfid⟩
  · rw [hfid, GuestPath.rebase_of_not_prefix hapart]

/-! ## Where the records are -/

/-- Writing touches nothing in the export if it goes to a directory outside, and replaces no files
of the export there. -/
theorem Sound.not_inside_of_touches {place : Place} (hs : s.Sound)
    (hd : s.host.HasDir (Store.dirPath s.store.dir) place) (hplace : s.host.HasPlace place)
    (hout : ¬ s.root <+: place.names)
    (hfiles : ∀ (c : Category) i, s.host.child? place.ino (Name.ofText c.fileName) = some i →
      ¬ s.Inside i) (hi : s.store.Touches s.host i) : ¬ s.Inside i := by
  have hlead := Host.leadsToDirectory_iff_hasDir.mpr ⟨place, hd⟩
  obtain ⟨hno, -⟩ | ⟨place', hd', htouch⟩ := hi
  · rw [hlead] at hno
    cases hno
  rw [Host.makeDirs_of_leadsToDirectory hlead] at hd' htouch
  obtain rfl := hd.unique hd'
  obtain rfl | ⟨c, hc⟩ := htouch
  · exact fun h => hout (hs.prefix_of_inside h hd.2 hplace.descend)
  · exact hfiles c i hc

/-- A host with a directory in the export and another one for the records. -/
def spareHost : Host :=
  let add (path : String) (h : Host) : Host := ((Chore.dir 0o755).perform (Path.ofText path) h).2
  add "/export/a" <| add "/meta" <| .empty ⟨0, 0⟩

theorem run_spareHost :
    ((start ⟨"/export", "/meta", defaultIounit⟩ spareHost).1.map fun s₀ =>
      let s := s₀.run [attachFrame, requestFrame (.walk 0 1 ["a"])]
      let s' := (s.perform (.renameat 0 "a" 0 "b")).2
      (s.movedPaths (.renameat 0 "a" 0 "b"), (s.perform (.renameat 0 "a" 0 "b")).1,
        s.fids[(1 : FidId)]?, s'.root, s'.host.find .follow (Store.dirPath s'.store.dir),
        s'.host.isDirectory 1, s'.host.child? 0 (Name.ofText "meta"),
        Category.all.all fun c => (s'.host.child? 1 (Name.ofText c.fileName)).isNone)) =
      .ok (some (["a"], ["b"]), .ok .renameat, some ⟨["a"], 0, .unopened⟩, [Name.ofText "export"],
        .ok ⟨[(Name.ofText "meta", 1)]⟩, true, some 1, true) := by
  cbv

/-- A fid of a directory goes along as the directory is renamed. -/
theorem reachable_renameat_spare :
    ∃ s₀ s, (start ⟨"/export", "/meta", defaultIounit⟩ spareHost).1 = .ok s₀ ∧ s₀.LinkFree ∧
      s₀.Reachable s ∧ s.movedPaths (.renameat 0 "a" 0 "b") = some (["a"], ["b"]) ∧
      s.Does (.renameat 0 "a" 0 "b") ∧ s.fids[(1 : FidId)]? = some ⟨["a"], 0, .unopened⟩ ∧
      Carries s (s.answer (.renameat 0 "a" 0 "b")).2.2 1 ⟨["a"], 0, .unopened⟩ ["b"] := by
  have hh : spareHost.WellFormed := ⟨by decide, Host.hasPlace_root⟩
  obtain ⟨s₀, hs⟩ :
      ∃ s, (start ⟨"/export", "/meta", defaultIounit⟩ spareHost).1 = .ok s := ⟨_, rfl⟩
  have hl : s₀.LinkFree := start_linkFree hs fun i => by rcases i with _ | _ | _ | _ | i <;> rfl
  have hrun := run_spareHost
  rw [hs] at hrun
  simp only [Except.map, Except.ok.injEq, Prod.mk.injEq] at hrun
  have hr : s₀.Reachable (s₀.run [attachFrame, requestFrame (.walk 0 1 ["a"])]) := .run .refl
  generalize s₀.run [attachFrame, requestFrame (.walk 0 1 ["a"])] = s at hr hrun
  obtain ⟨hm, hreply, hid, hroot, hfind, hdir, hchild, hfiles⟩ := hrun
  have hp : (s.perform (.renameat 0 "a" 0 "b")).2.Plain :=
    ((start_plain hh hs hl).of_reachable hr).perform _
  have hout : ∀ i, (s.perform (.renameat 0 "a" 0 "b")).2.store.Touches
      (s.perform (.renameat 0 "a" 0 "b")).2.host i →
      ¬ (s.perform (.renameat 0 "a" 0 "b")).2.Inside i := fun i =>
    hp.sound.not_inside_of_touches ⟨hfind, hdir⟩ ⟨hchild, trivial⟩ (by rw [hroot]; decide)
      fun c i hc => by
        have hnone := List.all_eq_true.mp hfiles c (by cases c <;> decide)
        cases hc.symm.trans (Option.isNone_iff_eq_none.mp hnone)
  exact ⟨s₀, s, hs, hl, hr, hm, ⟨_, hreply⟩, hid,
    (reachable_renameat hh hs hl hr hm ⟨_, hreply⟩ hout hid).1 [] rfl⟩

/-- A file of the records that holds the permissions of `x`. -/
def permissionsOfX : Bytes :=
  Bytes.ofText "V87M" ++ [1, 0, 1, 0, 1, 0] ++ Bytes.ofText "x" ++ [14, 0, 0xa4, 1] ++
    List.replicate 12 0

/-- A host with a file in the export, and with the records in a directory of the export. -/
def innerHost : Host :=
  let add (path : String) (data : Bytes) (h : Host) : Host :=
    ((Chore.file data Host.fileMode).perform (Path.ofText path) h).2
  add "/export/x" [] <| add "/export/meta/permissions.bin" permissionsOfX <| .empty ⟨0, 0⟩

/-- A host with a file in the export that is one of the records as well. -/
def sharedHost : Host :=
  ((Chore.name (Path.ofText "/meta/permissions.bin")).perform (Path.ofText "/export/x")
    ((Chore.file permissionsOfX Host.fileMode).perform (Path.ofText "/meta/permissions.bin")
      (.empty ⟨0, 0⟩)).2).2

/-- The file is put in the place of a file of the records, which then takes its place again. -/
theorem run_innerHost :
    ((start ⟨"/export", "/export/meta", defaultIounit⟩ innerHost).1.map fun s₀ =>
      let s := s₀.run
        [attachFrame, requestFrame (.walk 0 1 ["x"]), requestFrame (.walk 0 2 ["meta"])]
      let r := Request.renameat 0 "x" 2 "permissions.bin"
      (s.movedPaths r, (s.answer r).1, s.fids[(1 : FidId)]?, Prod.fst <$> s.inspect ["x"],
        Prod.fst <$> (s.answer r).2.2.inspect ["meta", "permissions.bin"])) =
      .ok (some (["x"], ["meta", "permissions.bin"]), .ok .renameat, some ⟨["x"], 0, .unopened⟩,
        .ok 4, .ok 5) := by
  cbv

/-- The link count that a reply tells. -/
def links? : Reply → Option UInt64
  | .getattr a => some a.nlink
  | _ => none

theorem links?_timeless : links? reply.timeless = links? reply := by
  cases reply <;> rfl

/-- The file of the records that is written anew takes a name from the file in the export. -/
theorem run_sharedHost :
    ((start ⟨"/export", "/meta", defaultIounit⟩ sharedHost).1.map fun s₀ =>
      let s := s₀.run [attachFrame, requestFrame (.walk 0 1 ["x"])]
      let r := Request.renameat 0 "x" 0 "y"
      (s.movedPaths r, (s.answer r).1, s.fids[(1 : FidId)]?, links? (s.ownReply (.getattr 1 0)),
        links? ((s.answer r).2.2.ownReply (.getattr 1 0)))) =
      .ok (some (["x"], ["y"]), .ok .renameat, some ⟨["x"], 0, .unopened⟩, some 2, some 1) := by
  cbv

/-- Renaming is not transparent if the records are in the export, and neither if one of their files
is in the export under another name. -/
theorem exists_not_carries :
    (∃ s₀ s, (start ⟨"/export", "/export/meta", defaultIounit⟩ innerHost).1 = .ok s₀ ∧
      s₀.LinkFree ∧ s₀.Reachable s ∧
      s.movedPaths (.renameat 0 "x" 2 "permissions.bin") =
        some (["x"], ["meta", "permissions.bin"]) ∧
      (s.answer (.renameat 0 "x" 2 "permissions.bin")).1 = .ok .renameat ∧
      s.fids[(1 : FidId)]? = some ⟨["x"], 0, .unopened⟩ ∧
      ¬ Carries s (s.answer (.renameat 0 "x" 2 "permissions.bin")).2.2 1 ⟨["x"], 0, .unopened⟩
        ["meta", "permissions.bin"]) ∧
    ∃ s₀ s, (start ⟨"/export", "/meta", defaultIounit⟩ sharedHost).1 = .ok s₀ ∧ s₀.LinkFree ∧
      s₀.Reachable s ∧ s.movedPaths (.renameat 0 "x" 0 "y") = some (["x"], ["y"]) ∧
      (s.answer (.renameat 0 "x" 0 "y")).1 = .ok .renameat ∧
      s.fids[(1 : FidId)]? = some ⟨["x"], 0, .unopened⟩ ∧
      ¬ Carries s (s.answer (.renameat 0 "x" 0 "y")).2.2 1 ⟨["x"], 0, .unopened⟩ ["y"] := by
  constructor
  · obtain ⟨s₀, hs⟩ :
        ∃ s, (start ⟨"/export", "/export/meta", defaultIounit⟩ innerHost).1 = .ok s := ⟨_, rfl⟩
    have hl : s₀.LinkFree :=
      start_linkFree hs fun i => by rcases i with _ | _ | _ | _ | _ | i <;> rfl
    have hrun := run_innerHost
    rw [hs] at hrun
    simp only [Except.map, Except.ok.injEq, Prod.mk.injEq, Outcome.map_eq_ok_iff] at hrun
    obtain ⟨hm, hreply, hid, ⟨⟨i, n⟩, hi, rfl⟩, ⟨⟨j, m⟩, hj, hji⟩⟩ := hrun
    refine ⟨s₀, _, hs, hl, .run .refl, hm, hreply, hid, fun hc => ?_⟩
    rw [(hc.inspect _ _).mpr hi] at hj
    cases hj
    cases hji
  · obtain ⟨s₀, hs⟩ :
        ∃ s, (start ⟨"/export", "/meta", defaultIounit⟩ sharedHost).1 = .ok s := ⟨_, rfl⟩
    have hl : s₀.LinkFree :=
      start_linkFree hs fun i => by rcases i with _ | _ | _ | _ | i <;> rfl
    have hrun := run_sharedHost
    rw [hs] at hrun
    simp only [Except.map, Except.ok.injEq, Prod.mk.injEq] at hrun
    obtain ⟨hm, hreply, hid, htwo, hone⟩ := hrun
    refine ⟨s₀, _, hs, hl, .run .refl, hm, hreply, hid, fun hc => ?_⟩
    have hlinks := congrArg links? (hc.getattr 0)
    rw [links?_timeless, links?_timeless, htwo, hone] at hlinks
    exact absurd hlinks (by decide)

end Share

end GuestShare
