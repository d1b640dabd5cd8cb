import GuestShare.Proofs.Metadata.Disk
import GuestShare.Proofs.Share.Renaming
import GuestShare.Proofs.Share.Setting
import GuestShare.Proofs.Share.Undisturbed

/-!
# What setting attributes changes

Setting attributes changes what their mask selects: fields of the node's record, the contents of a
file, and the times of the node on the host. A record that was not there before is made of what the
client saw without it, so it sees nothing else change.

* `SetAttr.recorded`, `SetAttr.Records`: a record with the selected fields set, if there are any.
* `Inode.SetBy`: a node with the selected parts set.
* `setSize_or_stay`, `setRest_eq_ok_node`, **`setattr_eq_ok_node`**: what setting attributes does to
  the node.
* `Share.Selects`: nothing changes but what is selected.
* **`setattr_selects`**: so it is, also after the records are written if that does not disturb the
  node.
* **`exists_not_selects`**: it may, and a size that is set sets a time as well.
-/

namespace GuestShare

theorem Contents.toList_resize (k : Nat) (c : Contents) :
    (c.resize k).toList = c.toList.take k ++ List.replicate (k - c.toList.length) 0 := by
  unfold resize
  split_ifs with hle
  · simp [Nat.sub_eq_zero_of_le hle]
  · have hle' : c.toList.length ≤ k := by
      rw [length_toList]
      omega
    simp [List.take_of_length_le hle']

namespace SetAttr

/-- Some field of the record is selected. -/
def Records (a : SetAttr) : Prop :=
  a.has modeBit = true ∨ a.has uidBit = true ∨ a.has gidBit = true ∨ a.has mtimeBit = true

instance (a : SetAttr) : Decidable a.Records := inferInstanceAs (Decidable (_ ∨ _))

/-- The record with the selected fields set. -/
def recorded (a : SetAttr) (r : Permissions) (now : Instant) : Permissions where
  mode := if a.has modeBit then (a.mode &&& permissionMask).toUInt16 else r.mode
  uid := if a.has uidBit then a.uid else r.uid
  gid := if a.has gidBit then a.gid else r.gid
  mtime := ((a.chosenModification now).map Instant.short).getD r.mtime

end SetAttr

/-- The node `n'` is the node `n` with the selected parts set at the time `now`. A client that sees
a link sets no times. A size that is set sets the modification time too, unless that is selected. -/
structure Inode.SetBy (n : Inode) (a : SetAttr) (kind : NodeKind) (now : Instant) (n' : Inode) :
    Prop where
  mode : n'.mode = n.mode
  file : ∀ c, n.body = .file c → ∃ c', n'.body = .file c' ∧
    c'.toList =
      if a.has SetAttr.sizeBit then
        c.toList.take a.size.toNat ++ List.replicate (a.size.toNat - c.toList.length) 0
      else c.toList
  directory : ∀ es, n.body = .directory es → a.has SetAttr.sizeBit = false ∧ n'.body = n.body
  accessed : n'.accessed =
    (if kind = .symlink then none else a.chosenAccess now).getD n.accessed
  modified : n'.modified =
    (if kind = .symlink then none else a.chosenModification now).getD
      (if a.has SetAttr.sizeBit then now else n.modified)

theorem Inode.SetBy.ofBody {n n' : Inode} {a : SetAttr} {kind : NodeKind} {now : Instant}
    (hs : n.SetBy a kind now n') (hb : n.body.isFile = true ∨ n.body.isDirectory = true) :
    NodeKind.ofBody n'.body = NodeKind.ofBody n.body := by
  cases hbody : n.body with
  | file c =>
    obtain ⟨c', hc', -⟩ := hs.file c hbody
    rw [hc']
    rfl
  | directory es => rw [(hs.directory es hbody).2, hbody]
  | _ => simp [hbody, Body.isFile, Body.isDirectory] at hb

namespace Share

variable {s s' t u : Share} {p : GuestPath} {id : FidId} {fid : Fid} {a : SetAttr} {m : Node}
  {n n₁ : Inode} {i : Ino} {place : Place} {reply : Reply} {h' : Host}

/-! ## The times and the record -/

theorem setTimes_or_stay {accessed modified : Option Instant} {h : Host} {path : Path}
    (ho : (if ((accessed.isSome || modified.isSome) && decide (m.kind ≠ .symlink)) = true
        then setTimes h path accessed modified else pure h) = .ok h')
    (hf : h.find .follow path = .ok place) (hn : h.node? place.ino = some n₁) :
    Host.EditsIn (· = place.ino) h h' ∧
      h'.node? place.ino = some { n₁ with
        accessed := (if m.kind = .symlink then none else accessed).getD n₁.accessed
        modified := (if m.kind = .symlink then none else modified).getD n₁.modified } := by
  split_ifs at ho with hc
  · obtain ⟨place', hf', rfl⟩ := setTimes_eq_ok_modify ho
    cases hf.symm.trans hf'
    have hkind : m.kind ≠ .symlink := by
      simp only [Bool.and_eq_true, decide_eq_true_eq] at hc
      exact hc.2
    refine ⟨.modify fun n _ => .refl n.body, ?_⟩
    rw [Host.node?_modify, if_pos rfl, hn, if_neg hkind, if_neg hkind]
    rfl
  · cases ho
    refine ⟨.refl, ?_⟩
    rw [hn]
    by_cases hkind : m.kind = .symlink
    · rw [if_pos hkind, if_pos hkind]
      rfl
    · have hnone : accessed = none ∧ modified = none := by
        simpa [hkind] using hc
      rw [hnone.1, hnone.2]
      simp

/-- **What is set after the size**: the times of the node that the path leads to, and its
record. -/
theorem setRest_eq_ok_node (ho : u.setRest m a = .ok (reply, t))
    (hf : u.host.find .follow (u.hostPath m.path) = .ok place)
    (hn : u.host.node? place.ino = some n₁) :
    reply = .setattr ∧ ∃ h, Host.EditsIn (· = place.ino) u.host h ∧
      h.node? place.ino = some { n₁ with
        accessed := (if m.kind = .symlink then none
          else a.chosenAccess u.host.clock).getD n₁.accessed
        modified := (if m.kind = .symlink then none
          else a.chosenModification u.host.clock).getD n₁.modified } ∧
      t = { u with
        host := h
        store := if a.Records then
            u.store.setPermission m.key (a.recorded
              ((u.store.permission m.key).getD m.defaultPermission) u.host.clock)
          else u.store } := by
  have ht : ¬ a.Untimely := fun ht => by
    rw [setRest_of_untimely ht] at ho
    cases ho
  obtain ⟨hacc, hmod⟩ := newTime_of_not_untimely ht u.host.clock
  have hsome : (a.chosenModification u.host.clock).isSome = a.has SetAttr.mtimeBit := by
    unfold SetAttr.chosenModification SetAttr.chosen
    cases a.has SetAttr.mtimeBit <;> rfl
  have hrecords : (a.has SetAttr.modeBit || a.has SetAttr.uidBit || a.has SetAttr.gidBit ||
      (a.chosenModification u.host.clock).isSome) = true ↔ a.Records := by
    rw [hsome]
    simp [SetAttr.Records, or_assoc]
  unfold setRest at ho
  simp only [hacc, hmod, Outcome.ok_bind] at ho
  have hstore := fun r : Permissions => if_congr hrecords
    (Eq.refl (u.store.setPermission m.key (a.recorded r u.host.clock))) (Eq.refl u.store)
  split at ho
  next hc =>
    obtain ⟨h, hh, ho⟩ := Outcome.bind_eq_ok_iff.mp ho
    obtain ⟨hedit, hnode⟩ := setTimes_or_stay ((if_pos hc).trans hh) hf hn
    cases ho
    exact ⟨rfl, h, hedit, hnode, by rw [← hstore]; rfl⟩
  next hc =>
    obtain ⟨hedit, hnode⟩ := setTimes_or_stay (if_neg hc) hf hn
    cases ho
    exact ⟨rfl, u.host, hedit, hnode, by rw [← hstore]; rfl⟩

/-! ## The node -/

/-- The record of a node at a path, or the one that stands for it: the host's bits, the first user
and the host's time. -/
def permissionsAt (s : Share) (p : GuestPath) (n : Inode) : Permissions :=
  (s.store.permission p.key).getD (.ofMode n.mode 0 0 n.modified.short)

theorem find_follow_of_inspect (hn : s.inspect p = .ok (i, n))
    (hb : n.body.isFile = true ∨ n.body.isDirectory = true) :
    ∃ place, s.host.find .follow (s.hostPath p) = .ok place ∧ place.ino = i ∧
      s.host.node? i = some n := by
  obtain ⟨place, hf, rfl, hnode⟩ := inspect_eq_ok_iff.mp hn
  refine ⟨place, Host.find_follow_of_keep hf ?_, rfl, hnode⟩
  unfold Host.target?
  rw [Host.body?_of_node? hnode]
  cases hbody : n.body with
  | link target => simp [hbody, Body.isFile, Body.isDirectory] at hb
  | _ => rfl

theorem setSize_or_stay {h : Host}
    (ho : (if a.has SetAttr.sizeBit then s.setSize m a.size else .ok s.host) = .ok h)
    (hf : s.host.find .follow (s.hostPath m.path) = .ok place)
    (hn : s.host.node? place.ino = some n) :
    Host.EditsIn (· = place.ino) s.host h ∧
      ∃ body, h.node? place.ino = some { n with
          body := body
          modified := if a.has SetAttr.sizeBit then s.host.clock else n.modified } ∧
        (∀ c, n.body = .file c → ∃ c', body = .file c' ∧
          c'.toList =
            if a.has SetAttr.sizeBit then
              c.toList.take a.size.toNat ++ List.replicate (a.size.toNat - c.toList.length) 0
            else c.toList) ∧
        ∀ es, n.body = .directory es → a.has SetAttr.sizeBit = false ∧ body = n.body := by
  by_cases hsize : a.has SetAttr.sizeBit = true
  · rw [if_pos hsize] at ho
    obtain ⟨-, place', c, hf', hc, rfl⟩ := setSize_eq_ok_body ho
    cases hf.symm.trans hf'
    have hbody : n.body = .file c := by
      rw [Host.body?_of_node? hn] at hc
      exact Option.some.inj hc
    refine ⟨.setFile hc, .file (c.resize a.size.toNat), ?_, fun c' hc' => ?_, fun es hes => ?_⟩
    · rw [Host.setBody, Host.node?_modify, if_pos rfl, hn, if_pos hsize]
      rfl
    · cases hbody.symm.trans hc'
      exact ⟨_, rfl, by rw [if_pos hsize, Contents.toList_resize]⟩
    · cases hbody.symm.trans hes
  · rw [if_neg hsize] at ho
    cases ho
    refine ⟨.refl, n.body, ?_, fun c hc => ⟨c, hc, ?_⟩, fun es _ => ⟨?_, rfl⟩⟩
    · rw [hn, if_neg hsize]
    · rw [if_neg hsize]
    · simpa using hsize

/-- **Setting attributes** sets those parts of the node and of its record that are selected, and
nothing else. -/
theorem setattr_eq_ok_node (hid : s.fids[id]? = some fid) (hn : s.inspect fid.path = .ok (i, n))
    (hb : n.body.isFile = true ∨ n.body.isDirectory = true)
    (ho : s.setattr id a = (.ok reply, t)) :
    reply = .setattr ∧ ∃ h n', Host.EditsIn (· = i) s.host h ∧ h.node? i = some n' ∧
      n.SetBy a (s.nodeOf fid.path i n).kind s.host.clock n' ∧
      t = { s with
        host := h
        store := if a.Records then
            s.store.setPermission fid.path.key
              (a.recorded (s.permissionsAt fid.path n) s.host.clock)
          else s.store } := by
  obtain ⟨place, hf, rfl, hnode⟩ := find_follow_of_inspect hn hb
  rw [setattr_of_node hid (node_of_inspect hn)] at ho
  split at ho
  next => cases ho
  next h₁ hsize =>
    obtain ⟨hedit, body, hn₁, hfile, hdir⟩ := setSize_or_stay hsize hf hnode
    split at ho
    next => cases ho
    next hrest =>
      cases ho
      have hclock : (s.on h₁).host.clock = s.host.clock := hedit.clock_eq
      obtain ⟨rfl, h, hedit', hnode', ht⟩ :=
        setRest_eq_ok_node hrest (hedit.sameTree.find.trans hf) hn₁
      rw [hclock] at hnode' ht
      exact ⟨rfl, h, _, hedit.trans hedit', hnode', ⟨rfl, hfile, hdir, rfl, rfl⟩, ht⟩

/-! ## The share -/

/-- The share `s'`, which has come of setting attributes of the node at a path, differs from the
share `s` in what the attributes select, and in what writing the records touches. -/
structure Selects (s : Share) (id : FidId) (p : GuestPath) (i : Ino) (n : Inode) (a : SetAttr)
    (touched : Ino → Prop) (s' : Share) : Prop where
  records : ∀ k, s'.store.overlay k =
    if k = p.key ∧ a.Records then
      { s.store.overlay k with
        permission := some (a.recorded (s.permissionsAt p n) s.host.clock) }
    else s.store.overlay k
  node : ∃ n', s'.inspect p = .ok (i, n') ∧
    n.SetBy a (s.nodeOf p i n).kind s.host.clock n'
  others : ∀ j, j ≠ i → j < s.host.nodes.size → ¬ touched j →
    s'.host.node? j = s.host.node? j
  fids : s'.fids = s.fids
  /-- What the client is told then of the mode and the owners. -/
  told : ∀ mask, ∃ old new, (s.perform (.getattr id mask)).1 = .ok (.getattr old) ∧
    (s'.answer (.getattr id mask)).1 = .ok (.getattr new) ∧
    new.mode =
      (if a.has SetAttr.modeBit then
        (s.nodeOf p i n).kind.typeBits ||| (a.mode &&& permissionMask)
      else old.mode) ∧
    new.uid = (if a.has SetAttr.uidBit then a.uid else old.uid) ∧
    new.gid = if a.has SetAttr.gidBit then a.gid else old.gid

section Told

variable {n' : Inode} {now : Instant} {kind : NodeKind}

theorem attr_permissionsAt {h : Host} :
    ((s.nodeOf p i n).attr s.store h).mode =
        (s.nodeOf p i n).kind.typeBits ||| (s.permissionsAt p n).mode.toUInt32 ∧
      ((s.nodeOf p i n).attr s.store h).uid = (s.permissionsAt p n).uid ∧
      ((s.nodeOf p i n).attr s.store h).gid = (s.permissionsAt p n).gid := by
  have hkey : s.store.permission (s.nodeOf p i n).key = s.store.permission p.key := rfl
  unfold Node.attr permissionsAt
  rw [hkey]
  cases s.store.permission p.key with
  | some r => exact ⟨rfl, rfl, rfl⟩
  | none =>
    refine ⟨?_, rfl, rfl⟩
    exact congrArg ((s.nodeOf p i n).kind.typeBits ||| ·)
      (Permissions.toUInt32_and_mask n.mode).symm

theorem permissionsAt_of_setBy (hs : n.SetBy a kind now n')
    (hrec : s'.store.permission p.key =
      if a.Records then some (a.recorded (s.permissionsAt p n) now)
      else s.store.permission p.key) :
    (s'.permissionsAt p n').mode =
        (if a.has SetAttr.modeBit then (a.mode &&& permissionMask).toUInt16
        else (s.permissionsAt p n).mode) ∧
      (s'.permissionsAt p n').uid =
        (if a.has SetAttr.uidBit then a.uid else (s.permissionsAt p n).uid) ∧
      (s'.permissionsAt p n').gid =
        if a.has SetAttr.gidBit then a.gid else (s.permissionsAt p n).gid := by
  by_cases hr : a.Records
  · rw [if_pos hr] at hrec
    rw [show s'.permissionsAt p n' = _ from congrArg (Option.getD · _) hrec]
    exact ⟨rfl, rfl, rfl⟩
  · rw [if_neg hr] at hrec
    obtain ⟨hmode, huid, hgid, -⟩ : ¬ a.has SetAttr.modeBit = true ∧ ¬ a.has SetAttr.uidBit = true ∧
        ¬ a.has SetAttr.gidBit = true ∧ ¬ a.has SetAttr.mtimeBit = true := by
      simpa only [SetAttr.Records, not_or] using hr
    rw [if_neg hmode, if_neg huid, if_neg hgid]
    unfold permissionsAt
    rw [hrec, hs.mode]
    cases s.store.permission p.key <;> exact ⟨rfl, rfl, rfl⟩

theorem told_of_setBy (mask : UInt64) (hid : s.fids[id]? = some fid)
    (hid' : s'.fids[id]? = some fid) (hn : s.inspect fid.path = .ok (i, n))
    (hn' : s'.inspect fid.path = .ok (i, n'))
    (hb : n.body.isFile = true ∨ n.body.isDirectory = true)
    (hs : n.SetBy a (s.nodeOf fid.path i n).kind s.host.clock n')
    (hrec : s'.store.overlay fid.path.key =
      if a.Records then
        { s.store.overlay fid.path.key with
          permission := some (a.recorded (s.permissionsAt fid.path n) s.host.clock) }
      else s.store.overlay fid.path.key) :
    ∃ old new, (s.perform (.getattr id mask)).1 = .ok (.getattr old) ∧
      (s'.perform (.getattr id mask)).1 = .ok (.getattr new) ∧
      new.mode =
        (if a.has SetAttr.modeBit then
          (s.nodeOf fid.path i n).kind.typeBits ||| (a.mode &&& permissionMask)
        else old.mode) ∧
      new.uid = (if a.has SetAttr.uidBit then a.uid else old.uid) ∧
      new.gid = if a.has SetAttr.gidBit then a.gid else old.gid := by
  have hkind : (s'.nodeOf fid.path i n').kind = (s.nodeOf fid.path i n).kind := by
    have hkinds : s'.store.kind fid.path.key = s.store.kind fid.path.key := by
      have := congrArg Overlay.kind hrec
      split_ifs at this <;> exact this
    unfold nodeOf
    rw [hkinds, hs.ofBody hb]
  have hperm : s'.store.permission fid.path.key =
      if a.Records then some (a.recorded (s.permissionsAt fid.path n) s.host.clock)
      else s.store.permission fid.path.key := by
    have := congrArg Overlay.permission hrec
    split_ifs at this ⊢ <;> exact this
  obtain ⟨hmode, huid, hgid⟩ := permissionsAt_of_setBy hs hperm
  obtain ⟨hold, holdUid, holdGid⟩ := attr_permissionsAt (s := s) (p := fid.path) (i := i) (n := n)
    (h := s.host)
  obtain ⟨hnew, hnewUid, hnewGid⟩ := attr_permissionsAt (s := s') (p := fid.path) (i := i)
    (n := n') (h := s'.host)
  refine ⟨_, _, congrArg Prod.fst (settle_eq_ok_iff.mpr (getattr_eq_ok hid hn)),
    congrArg Prod.fst (settle_eq_ok_iff.mpr (getattr_eq_ok hid' hn')), ?_, ?_, ?_⟩
  · rw [hnew, hold, hkind, hmode]
    split_ifs
    · rw [Permissions.toUInt32_and_mask]
    · rfl
  · rw [hnewUid, holdUid, huid]
  · rw [hnewGid, holdGid, hgid]

end Told

/-- A share in which a node has had its attributes set, if the records can be written, shows what
they select. -/
theorem selects_of_setBy {touched : Ino → Prop} {n' : Inode} (hid : s.fids[id]? = some fid)
    (hn : s.inspect fid.path = .ok (i, n)) (hb : n.body.isFile = true ∨ n.body.isDirectory = true)
    (hrecords : ∀ k, s'.store.overlay k =
      if k = fid.path.key ∧ a.Records then
        { s.store.overlay k with
          permission := some (a.recorded (s.permissionsAt fid.path n) s.host.clock) }
      else s.store.overlay k)
    (hfound : s'.inspect fid.path = .ok (i, n'))
    (hset : n.SetBy a (s.nodeOf fid.path i n).kind s.host.clock n')
    (hothers : ∀ j, j ≠ i → j < s.host.nodes.size → ¬ touched j →
      s'.host.node? j = s.host.node? j)
    (hfids : s'.fids = s.fids) (hflush : s'.flushRecords.1 = .ok ()) :
    s.Selects id fid.path i n a touched s' where
  records := hrecords
  node := ⟨n', hfound, hset⟩
  others := hothers
  fids := hfids
  told mask := by
    have hid' : s'.fids[id]? = some fid := hfids ▸ hid
    obtain ⟨old, new, hold, hnew, htold⟩ :=
      told_of_setBy mask hid hid' hn hfound hb hset (by simpa using hrecords fid.path.key)
    have hsame : (s'.perform (.getattr id mask)).2 = s' :=
      congrArg Prod.snd (settle_eq_ok_iff.mpr (getattr_eq_ok hid' hfound))
    exact ⟨old, new, hold, answer_eq_ok_iff.mpr ⟨hnew, by rw [hsame]; exact hflush⟩, htold⟩

/-- **Setting attributes changes what they select.** Writing the records then leaves all records as
they are, and the node too, unless it disturbs it. -/
theorem setattr_selects (hid : s.fids[id]? = some fid) (hn : s.inspect fid.path = .ok (i, n))
    (hb : n.body.isFile = true ∨ n.body.isDirectory = true)
    (ho : (s.answer (.setattr id a)).1 = .ok reply) :
    reply = .setattr ∧
      s.Selects id fid.path i n a (fun _ => False) (s.perform (.setattr id a)).2 ∧
      (∀ k, (s.answer (.setattr id a)).2.2.store.overlay k =
        (s.perform (.setattr id a)).2.store.overlay k) ∧
      ((s.perform (.setattr id a)).2.Undisturbed i →
        s.Selects id fid.path i n a
          ((s.perform (.setattr id a)).2.store.Touches (s.perform (.setattr id a)).2.host)
          (s.answer (.setattr id a)).2.2) := by
  obtain ⟨hperform, hflush⟩ := answer_eq_ok_iff.mp ho
  obtain ⟨rfl, h, n', hedit, hnode, hset, ht⟩ :=
    setattr_eq_ok_node hid hn hb (t := (s.perform (.setattr id a)).2) (Prod.ext hperform rfl)
  rw [answer_snd]
  generalize (s.perform (.setattr id a)).2 = t at hflush ht
  have hrecords : ∀ k, t.store.overlay k =
      if k = fid.path.key ∧ a.Records then
        { s.store.overlay k with
          permission := some (a.recorded (s.permissionsAt fid.path n) s.host.clock) }
      else s.store.overlay k := by
    intro k
    rw [ht]
    by_cases hr : a.Records
    · rw [if_pos hr, Store.overlay_setPermission]
      by_cases hk : k = fid.path.key
      · rw [if_pos hk, if_pos ⟨hk, hr⟩, hk]
      · rw [if_neg hk, if_neg fun hc => hk hc.1]
    · rw [if_neg hr, if_neg fun hc => hr hc.2]
  have hfound : t.inspect fid.path = .ok (i, n') := by
    obtain ⟨place, hf, rfl, -⟩ := inspect_eq_ok_iff.mp hn
    rw [ht]
    exact inspect_eq_ok_iff.mpr ⟨place, hedit.sameTree.find.trans hf, rfl, hnode⟩
  have hothers : ∀ j, j ≠ i → t.host.node? j = s.host.node? j := by
    rw [ht]
    exact fun j hj => hedit.node?_eq j hj
  have hfids : t.fids = s.fids := by rw [ht]
  refine ⟨rfl, ?_, overlay_flushRecords, fun hu => ?_⟩
  · exact selects_of_setBy hid hn hb hrecords hfound hset (fun j hj _ _ => hothers j hj) hfids
      hflush
  · refine selects_of_setBy hid hn hb (fun k => (overlay_flushRecords k).trans (hrecords k))
      (hu.inspect hfound) hset (fun j hj hlt hno => ?_) hfids ?_
    · have hlt' : j < t.host.nodes.size := by
        rwa [← Host.node?_isSome_iff, hothers j hj, Host.node?_isSome_iff]
      rw [node?_flushRecords hlt' hno, hothers j hj]
    · exact congrArg Prod.fst (Store.flush_of_not_pending (Store.hasPending_flush hflush))

/-! ## Three requests -/

/-- Attributes that set the permission bits. -/
def modeOnly : SetAttr := ⟨SetAttr.modeBit, 0o700, 0, 0, 0, 0, 0, 0, 0⟩

/-- Attributes that set the modification time. -/
def mtimeOnly : SetAttr :=
  ⟨SetAttr.mtimeBit ||| SetAttr.mtimeSetBit, 0, 0, 0, 0, 0, 0, 1000, 0⟩

theorem run_spareHost_mode :
    ((start ⟨"/export", "/meta", defaultIounit⟩ spareHost).1.map fun s₀ =>
      let s := s₀.run [attachFrame, requestFrame (.walk 0 1 ["a"])]
      let t := (s.perform (.setattr 1 modeOnly)).2
      ((s.answer (.setattr 1 modeOnly)).1, s.fids[(1 : FidId)]?,
        (fun x => (x.1, x.2.body.isDirectory)) <$> s.inspect ["a"],
        t.host.find .follow (Store.dirPath t.store.dir), t.host.isDirectory 1,
        Category.all.all fun c => (t.host.child? 1 (Name.ofText c.fileName)).isNone)) =
      .ok (.ok .setattr, some ⟨["a"], 0, .unopened⟩, .ok (3, true),
        .ok ⟨[(Name.ofText "meta", 1)]⟩, true, true) := by
  cbv

/-- The permission bits of a directory are set, and its records are written elsewhere. -/
theorem setattr_selects_mode :
    ∃ s₀ s n, (start ⟨"/export", "/meta", defaultIounit⟩ spareHost).1 = .ok s₀ ∧
      s₀.Reachable s ∧ s.fids[(1 : FidId)]? = some ⟨["a"], 0, .unopened⟩ ∧
      s.inspect ["a"] = .ok (3, n) ∧ n.body.isDirectory = true ∧
      (s.answer (.setattr 1 modeOnly)).1 = .ok .setattr ∧
      (s.perform (.setattr 1 modeOnly)).2.Undisturbed 3 ∧
      s.Selects 1 ["a"] 3 n modeOnly
        ((s.perform (.setattr 1 modeOnly)).2.store.Touches (s.perform (.setattr 1 modeOnly)).2.host)
        (s.answer (.setattr 1 modeOnly)).2.2 := by
  obtain ⟨s₀, hs⟩ :
      ∃ s, (start ⟨"/export", "/meta", defaultIounit⟩ spareHost).1 = .ok s := ⟨_, rfl⟩
  have hrun := run_spareHost_mode
  rw [hs] at hrun
  simp only [Except.map, Except.ok.injEq, Prod.mk.injEq, Outcome.map_eq_ok_iff] at hrun
  obtain ⟨ho, hid, ⟨⟨i, n⟩, hn, rfl, hdir⟩, hfind, hmeta, hfiles⟩ := hrun
  have hu := undisturbed_of_hasDir (i := 3) ⟨hfind, hmeta⟩ (by decide) fun c k hk => by
    have hnone := List.all_eq_true.mp hfiles c (by cases c <;> decide)
    cases hk.symm.trans (Option.isNone_iff_eq_none.mp hnone)
  exact ⟨s₀, _, n, hs, .run .refl, hid, hn, hdir, ho, hu,
    (setattr_selects hid hn (.inr hdir) ho).2.2.2 hu⟩

theorem run_noteHost_size :
    ((start ⟨"/export", "/meta", defaultIounit⟩ noteHost).1.map fun s₀ =>
      let s := s₀.run [attachFrame, requestFrame (.walk 0 1 ["x"]),
        requestFrame (.setattr 1 mtimeOnly)]
      ((s.answer (.setattr 1 noBytes)).1, s.fids[(1 : FidId)]?,
        (fun x => x.2.modified) <$> s.inspect ["x"],
        (fun x => x.2.modified) <$> (s.answer (.setattr 1 noBytes)).2.2.inspect ["x"])) =
      .ok (.ok .setattr, some ⟨["x"], 0, .unopened⟩, .ok ⟨1000, 0⟩, .ok ⟨0, 0⟩) := by
  cbv

theorem run_innerHost_mtime :
    ((start ⟨"/export", "/export/meta", defaultIounit⟩ innerHost).1.map fun s₀ =>
      let s := s₀.run [attachFrame, requestFrame (.walk 0 1 ["meta"])]
      ((s.answer (.setattr 1 mtimeOnly)).1, s.fids[(1 : FidId)]?, Node.kind <$> s.node ["meta"],
        (fun x => x.2.modified) <$> (s.answer (.setattr 1 mtimeOnly)).2.2.inspect ["meta"])) =
      .ok (.ok .setattr, some ⟨["meta"], 0, .unopened⟩, .ok .directory, .ok ⟨0, 0⟩) := by
  cbv

/-- **The times are not set for the selected bits exactly.** A modification time that is not
selected is set along with a size, and one that is selected does not last if the node is the
directory of the records, which are written then. -/
theorem exists_not_selects :
    (∃ s₀ s i n n', (start ⟨"/export", "/meta", defaultIounit⟩ noteHost).1 = .ok s₀ ∧
      s₀.Reachable s ∧ s.fids[(1 : FidId)]? = some ⟨["x"], 0, .unopened⟩ ∧
      (s.answer (.setattr 1 noBytes)).1 = .ok .setattr ∧ s.inspect ["x"] = .ok (i, n) ∧
      (s.answer (.setattr 1 noBytes)).2.2.inspect ["x"] = .ok n' ∧
      noBytes.has SetAttr.mtimeBit = false ∧ n'.2.modified ≠ n.modified) ∧
    ∃ s₀ s m n', (start ⟨"/export", "/export/meta", defaultIounit⟩ innerHost).1 = .ok s₀ ∧
      s₀.Reachable s ∧ s.fids[(1 : FidId)]? = some ⟨["meta"], 0, .unopened⟩ ∧
      (s.answer (.setattr 1 mtimeOnly)).1 = .ok .setattr ∧
      s.node ["meta"] = .ok m ∧ m.kind = .directory ∧
      (s.answer (.setattr 1 mtimeOnly)).2.2.inspect ["meta"] = .ok n' ∧
      mtimeOnly.chosenModification s.host.clock = some ⟨1000, 0⟩ ∧ n'.2.modified ≠ ⟨1000, 0⟩ := by
  constructor
  · obtain ⟨s₀, hs⟩ :
        ∃ s, (start ⟨"/export", "/meta", defaultIounit⟩ noteHost).1 = .ok s := ⟨_, rfl⟩
    have hrun := run_noteHost_size
    rw [hs] at hrun
    simp only [Except.map, Except.ok.injEq, Prod.mk.injEq, Outcome.map_eq_ok_iff] at hrun
    obtain ⟨ho, hid, ⟨⟨i, n⟩, hn, hmod⟩, ⟨n', hn', hmod'⟩⟩ := hrun
    refine ⟨s₀, _, i, n, n', hs, .run .refl, hid, ho, hn, hn', by decide, ?_⟩
    rw [hmod', hmod]
    decide
  · obtain ⟨s₀, hs⟩ :
        ∃ s, (start ⟨"/export", "/export/meta", defaultIounit⟩ innerHost).1 = .ok s := ⟨_, rfl⟩
    have hrun := run_innerHost_mtime
    rw [hs] at hrun
    simp only [Except.map, Except.ok.injEq, Prod.mk.injEq, Outcome.map_eq_ok_iff] at hrun
    obtain ⟨ho, hid, ⟨m, hm, hkind⟩, ⟨n', hn', hmod'⟩⟩ := hrun
    refine ⟨s₀, _, m, n', hs, .run .refl, hid, ho, hm, hkind, hn', rfl, ?_⟩
    rw [hmod']
    decide

end Share

end GuestShare
