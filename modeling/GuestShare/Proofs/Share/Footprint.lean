import GuestShare.Proofs.Share.Deed

/-!
# The records that a request is about

A request reads and changes records under the keys of paths that it comes by: those of its fids, of
the entries that it names, and, if it moves a node, those below. What other records there are makes
no difference to it.

* `Share.visited`, `Share.Touches`, `Share.Writes`: the paths that a walk gets to, those that a
  request comes by, and those whose records it may change.
* `Share.withRecords`, `Store.Agree`: a share with other records, and stores that agree about some
  paths.
* `Store.Rewrites`: records replaced under the key of a path, or moved from one path to another.
* **`perform_alike`**: a request does the same whatever the other records are.
* **`perform_rewrites`**: it replaces or moves no records but those that it may change.
-/

namespace GuestShare

/-- The stores hold the same records for some paths. -/
def Store.Agree (P : GuestPath → Prop) (s t : Store) : Prop :=
  ∀ p, P p → t.overlay p.key = s.overlay p.key

/-- The records are the same, or those under the key of one path are replaced, or those of a path
and of all below it are moved to another one. -/
inductive Store.Rewrites (P : GuestPath → Prop) (s t : Store) : Prop
  | nothing (records : ∀ k, t.overlay k = s.overlay k)
  | put {p : GuestPath} {o : Overlay} (own : P p)
      (records : ∀ k, t.overlay k = if k = p.key then o else s.overlay k)
  | move {old new : GuestPath} (old_ne : old ≠ []) (new_ne : new ≠ [])
      (own_old : ∀ rest : GuestPath, rest.Valid → P (old ++ rest))
      (own_new : ∀ rest : GuestPath, rest.Valid → P (new ++ rest))
      (records : ∀ k, t.overlay k = (s.rename old.key new.key).overlay k)

/-- The node as it would be with other records. -/
def Node.withRecords (n : Node) (t : Store) : Node :=
  { n with kind := (t.kind n.key).getD (.ofBody n.inode.body) }

namespace Share

/-- The share with other records. -/
def withRecords (s : Share) (t : Store) : Share := { s with store := t }

/-- The paths that a walk gets to. -/
def visited (s : Share) (p : GuestPath) (names : List String) : List GuestPath :=
  (s.steps p names).map Node.path

/-- The fid is at the path. -/
def At (s : Share) (id : FidId) (p : GuestPath) : Prop :=
  ∃ fid, s.fids[id]? = some fid ∧ p = fid.path

/-- The path is that of an entry below the fid. -/
def AtEntry (s : Share) (id : FidId) (name : String) (p : GuestPath) : Prop :=
  isEntryName name = true ∧ ∃ fid, s.fids[id]? = some fid ∧ p = fid.path ++ [name]

/-- The path is that of an entry that the fid has listed. -/
def AtListed (s : Share) (id : FidId) (p : GuestPath) : Prop :=
  ∃ fid names name, s.fids[id]? = some fid ∧ fid.handle = .dir names ∧ name ∈ names ∧
    p = fid.path ++ [name]

/-- The paths that a request comes by. -/
def Touches (s : Share) (r : Request) (p : GuestPath) : Prop :=
  match r with
  | .attach .. => p = []
  | .walk id _ names => ∃ fid, s.fids[id]? = some fid ∧ p ∈ s.visited fid.path names
  | .lopen id _ | .open id _ | .readlink id | .getattr id _ | .setattr id _ | .read id _ _
  | .remove id => s.At id p
  | .lcreate id name .. | .symlink id name .. | .mknod id name .. | .mkdir id name ..
  | .unlinkat id name _ => s.At id p ∨ s.AtEntry id name p
  | .readdir id _ _ => s.AtListed id p
  | .renameat oldId oldName newId newName =>
    s.At oldId p ∨ s.At newId p ∨
      p.Valid ∧ ∃ q, q <+: p ∧ (s.AtEntry oldId oldName q ∨ s.AtEntry newId newName q)
  | .version .. | .flush _ | .fsync .. | .write .. | .clunk _ | .unknown _ => False

/-- The paths whose records a request may change. It changes those of the root only if it sets
attributes. -/
def Writes (s : Share) (r : Request) (p : GuestPath) : Prop :=
  p.Valid ∧ s.Touches r p ∧ (p = [] → ∃ id attr, r = .setattr id attr)

/-- The same value, and the same share but for records that nobody has come by. -/
def Alike {α : Type} (P : GuestPath → Prop) (x y : α × Share) : Prop :=
  y.1 = x.1 ∧ ∃ t, y.2 = x.2.withRecords t ∧ x.2.store.Agree P t

end Share

/-! ## Stores that agree -/

namespace Store

variable {P : GuestPath → Prop} {s t : Store} {p old new : GuestPath} {key : String}

theorem Agree.permission (ha : s.Agree P t) (hp : P p) :
    t.permission p.key = s.permission p.key := congrArg Overlay.permission (ha p hp)

theorem Agree.symlink (ha : s.Agree P t) (hp : P p) : t.symlink p.key = s.symlink p.key :=
  congrArg Overlay.symlink (ha p hp)

theorem Agree.kind (ha : s.Agree P t) (hp : P p) : t.kind p.key = s.kind p.key :=
  congrArg Overlay.kind (ha p hp)

theorem Agree.device (ha : s.Agree P t) (hp : P p) : t.device p.key = s.device p.key :=
  congrArg Overlay.device (ha p hp)

theorem Agree.setPermission {r : Permissions} (ha : s.Agree P t) :
    (s.setPermission key r).Agree P (t.setPermission key r) := by
  intro p hp
  rw [overlay_setPermission, overlay_setPermission]
  split_ifs with hk
  · rw [← hk, ha p hp]
  · exact ha p hp

theorem Agree.delete (ha : s.Agree P t) : (s.delete key).Agree P (t.delete key) := by
  intro p hp
  rw [overlay_delete, overlay_delete, ha p hp]

theorem Agree.put {s' t' : Store} {o : Overlay} (ha : s.Agree P t)
    (hs : ∀ k, s'.overlay k = if k = key then o else s.overlay k)
    (ht : ∀ k, t'.overlay k = if k = key then o else t.overlay k) : s'.Agree P t' := by
  intro p hp
  rw [hs, ht, ha p hp]

theorem overlay_rename_of_not_covers {old new k : String} (ho : ¬ covers old k = true)
    (hn : ¬ covers new k = true) : (s.rename old new).overlay k = s.overlay k := by
  by_cases hsame : old = new
  · rw [hsame, rename_self]
  · have hnone : suffix? new k = none :=
      Option.eq_none_iff_forall_ne_some.mpr fun t ht => hn (covers_iff.mpr ⟨t, ht⟩)
    rw [overlay_rename_of_none hsame hnone, if_neg ho]

theorem Agree.rename (ha : s.Agree P t) (ho : old ≠ []) (hn : new ≠ []) (hnv : new.Valid)
    (hv : ∀ p, P p → p.Valid) (hP : ∀ rest, P (new ++ rest) → P (old ++ rest)) :
    (s.rename old.key new.key).Agree P (t.rename old.key new.key) := by
  by_cases hsame : old.key = new.key
  · rw [hsame, rename_self, rename_self]
    exact ha
  intro p hp
  cases hs : suffix? new.key p.key with
  | some tail =>
    obtain ⟨rest, rfl, rfl⟩ := (hnv.suffix?_key_eq_some_iff (hv p hp) hn).mp hs
    rw [overlay_rename hsame hs, overlay_rename hsame hs, ← GuestPath.key_append ho]
    exact ha _ (hP rest hp)
  | none =>
    rw [overlay_rename_of_none hsame hs, overlay_rename_of_none hsame hs, ha p hp]

theorem valid_of_below (hP : ∀ q, P q → q.Valid)
    (own : ∀ rest : GuestPath, rest.Valid → P (p ++ rest)) : p.Valid := by
  have hself := own [] GuestPath.valid_nil
  rw [List.append_nil] at hself
  exact hP p hself

theorem Rewrites.overlay_of_not (hr : s.Rewrites P t) (hP : ∀ q, P q → q.Valid) (hv : p.Valid)
    (hp : ¬ P p) : t.overlay p.key = s.overlay p.key := by
  cases hr with
  | nothing records => exact records p.key
  | @put q o own records =>
    have hne : p.key ≠ q.key := fun he => hp (hv.eq_of_key_eq (hP q own) he ▸ own)
    rw [records, if_neg hne]
  | @move old new old_ne new_ne own_old own_new records =>
    have apart : ∀ {q : GuestPath}, (∀ rest : GuestPath, rest.Valid → P (q ++ rest)) →
        ¬ q <+: p := by
      rintro q own ⟨rest, rfl⟩
      exact hp (own rest hv.of_append_right)
    rw [records]
    refine overlay_rename_of_not_covers ?_ ?_
    · rw [(valid_of_below hP own_old).covers_key_iff hv old_ne]
      exact apart own_old
    · rw [(valid_of_below hP own_new).covers_key_iff hv new_ne]
      exact apart own_new

end Store

namespace Share

variable {P : GuestPath → Prop} {s : Share} {t : Store} {p : GuestPath} {id : FidId}
  {name : String} {names : List String}

theorem at_of_find {fid : Fid} (hf : s.fids.find id = .ok fid) : s.At id fid.path :=
  ⟨fid, fids_find_eq_ok_iff.mp hf, rfl⟩

theorem atEntry_of_directory {dir : Fid} (hd : s.directory id = .ok dir)
    (hn : isEntryName name = true) : s.AtEntry id name (dir.path ++ [name]) :=
  ⟨hn, dir, (directory_eq_ok_iff.mp hd).1, rfl⟩

/-! ## Looking at the same records -/

theorem node_withRecords : (s.withRecords t).node p = (s.node p).map (·.withRecords t) := by
  unfold node
  rw [show (s.withRecords t).inspect p = s.inspect p from rfl]
  cases s.inspect p with
  | error e => rfl
  | ok x => rfl

theorem withRecords_of_node {n : Node} (hn : s.node p = .ok n) (ha : s.store.Agree P t) (hp : P p) :
    n.withRecords t = n := by
  rw [(node_eq_ok_iff.mp hn).2]
  unfold Node.withRecords nodeOf Node.key
  rw [ha.kind hp]

theorem node_alike (ha : s.store.Agree P t) (hp : P p) : (s.withRecords t).node p = s.node p := by
  rw [node_withRecords]
  cases hn : s.node p with
  | error e => rfl
  | ok n => exact congrArg Except.ok (withRecords_of_node hn ha hp)

theorem directory_alike (id : FidId) (ha : s.store.Agree P t) (hp : ∀ q, s.At id q → P q) :
    (s.withRecords t).directory id = s.directory id := by
  refine Outcome.bind_eq_bind fun fid hid => ?_
  rw [node_alike ha (hp _ (at_of_find hid))]

theorem step_withRecords :
    (s.withRecords t).step p name = (s.step p name).map (·.withRecords t) := by
  unfold step
  simp only [node_withRecords,
    show (s.withRecords t).staysInside (p.next name) = s.staysInside (p.next name) from rfl]
  cases s.node (p.next name) with
  | error e => split_ifs <;> rfl
  | ok n =>
    simp only [Except.map]
    split_ifs <;> rfl

theorem steps_withRecords :
    (s.withRecords t).steps p names = (s.steps p names).map (·.withRecords t) := by
  induction names generalizing p with
  | nil => rfl
  | cons name names ih =>
    rw [steps, steps, step_withRecords]
    cases s.step p name with
    | none => rfl
    | some n => exact congrArg (n.withRecords t :: ·) ih

theorem visited_withRecords : (s.withRecords t).visited p names = s.visited p names := by
  unfold visited
  rw [steps_withRecords, List.map_map]
  rfl

theorem node_of_mem_steps {n : Node} (hn : n ∈ s.steps p names) : s.node n.path = .ok n := by
  induction names generalizing p with
  | nil => cases hn
  | cons name names ih =>
    rw [steps] at hn
    split at hn
    next => cases hn
    next m hm =>
      rcases List.mem_cons.mp hn with rfl | hn
      · obtain ⟨-, hnode, -⟩ := step_eq_some hm
        rw [path_of_node hnode]
        exact hnode
      · exact ih hn

theorem steps_alike (ha : s.store.Agree P t) (hp : ∀ q ∈ s.visited p names, P q) :
    (s.withRecords t).steps p names = s.steps p names := by
  rw [steps_withRecords]
  refine (List.map_congr_left fun n hn => ?_).trans (List.map_id _)
  exact withRecords_of_node (node_of_mem_steps hn) ha (hp _ (List.mem_map_of_mem hn))

theorem entriesFrom_alike {budget position : Nat} (ha : s.store.Agree P t)
    (hp : ∀ name ∈ names, P (p ++ [name])) :
    (s.withRecords t).entriesFrom p budget position names =
      s.entriesFrom p budget position names := by
  induction names generalizing budget position with
  | nil => rfl
  | cons name names ih =>
    have hrest : ∀ budget position,
        (s.withRecords t).entriesFrom p budget position names =
          s.entriesFrom p budget position names :=
      fun _ _ => ih fun m hm => hp m (List.mem_cons_of_mem _ hm)
    rw [entriesFrom, entriesFrom, node_alike ha (hp name List.mem_cons_self)]
    simp only [hrest]

theorem linkText_alike (ha : s.store.Agree P t) (hp : P p) :
    (s.withRecords t).linkText p = s.linkText p := by
  unfold linkText
  rw [show (s.withRecords t).store = t from rfl, ha.symlink hp]
  rfl

theorem attr_alike {n : Node} {h : Host} (ha : s.store.Agree P t) (hp : P n.path) :
    n.attr t h = n.attr s.store h := by
  unfold Node.attr Node.size Node.key
  rw [ha.permission hp, ha.symlink hp, ha.device hp]

/-! ## Going on alike -/

variable {α : Type} {a b : Answer}

theorem alike_withRecords {x : α} (ha : s.store.Agree P t) : Alike P (x, s) (x, s.withRecords t) :=
  ⟨rfl, t, rfl, ha⟩

theorem alike_settle (ha : s.store.Agree P t) (hab : Outcome.Alike (Alike P) a b) :
    Alike P (s.settle a) ((s.withRecords t).settle b) := by
  cases hab with
  | error e => exact alike_withRecords ha
  | @ok x y hxy =>
    obtain ⟨x, s'⟩ := x
    obtain ⟨y, t'⟩ := y
    obtain ⟨rfl, hst⟩ := hxy
    exact ⟨rfl, hst⟩

theorem alike_settleThen {first first' : Except ShareError (α × Share)}
    {second : α → Share → Answer} (ha : s.store.Agree P t)
    (hf : Outcome.Alike (Alike P) first first')
    (hs : ∀ x s' t', first = .ok (x, s') → s'.store.Agree P t' →
      Outcome.Alike (Alike P) (second x s') (second x (s'.withRecords t'))) :
    Alike P (s.settleThen first second) ((s.withRecords t).settleThen first' second) := by
  cases hf with
  | error e => exact alike_withRecords ha
  | @ok x y hxy =>
    obtain ⟨x, s'⟩ := x
    obtain ⟨y, t'⟩ := y
    obtain ⟨hxy, u, ht, hu⟩ := hxy
    cases hxy
    cases ht
    exact alike_settle hu (hs x s' u rfl hu)

theorem bindRoot_alike {uid : UInt32} (ha : s.store.Agree P t) (hp : P []) :
    Outcome.Alike (Alike P) (s.bindRoot id uid) ((s.withRecords t).bindRoot id uid) := by
  unfold bindRoot
  rw [node_alike ha hp]
  exact .bind fun n _ => .ok (alike_withRecords (s := s.bindFid id _) ha)

theorem attach_alike {uid : UInt32} (ha : s.store.Agree P t) (hp : P []) :
    Alike P (s.attach id uid) ((s.withRecords t).attach id uid) := by
  unfold attach
  rw [show (s.withRecords t).root = s.root from rfl, show (s.withRecords t).host = s.host from rfl]
  rcases Host.makeDirs (Path.ofNames s.root) s.host with ⟨e | _, h⟩
  · exact alike_withRecords (s := s.on h) ha
  · exact alike_settle (s := s.on h) ha (bindRoot_alike (s := s.on h) ha hp)

theorem walk_alike {newId : FidId} (ha : s.store.Agree P t)
    (hp : ∀ q, s.Touches (.walk id newId names) q → P q) :
    Outcome.Alike (Alike P) (s.walk id newId names) ((s.withRecords t).walk id newId names) := by
  refine .bind fun fid hid => ?_
  rw [steps_alike ha fun q hq => hp q ⟨fid, fids_find_eq_ok_iff.mp hid, hq⟩]
  by_cases hnil : names.isEmpty = true
  · simp only [hnil, if_true]
    exact .ok (alike_withRecords (s := s.bindFid _ _) ha)
  · simp only [hnil, Bool.false_eq_true, if_false]
    split
    next => exact .error _
    next last _ =>
      by_cases hlen : (s.steps fid.path names).length = names.length
      · simp only [hlen, if_true]
        exact .ok (alike_withRecords (s := s.bindFid _ _) ha)
      · simp only [hlen, if_false]
        exact .ok (alike_withRecords ha)

theorem openFor_alike {acc : Access} {make : Qid → UInt32 → Reply} (ha : s.store.Agree P t)
    (hp : ∀ q, s.At id q → P q) :
    Alike P (s.openFor id acc make) ((s.withRecords t).openFor id acc make) := by
  refine alike_settleThen ha ?_ ?_
  · refine .bind fun fid hid => ?_
    rw [node_alike ha (hp _ (at_of_find hid))]
    refine .bind fun n _ => ?_
    simp only
    split
    next => exact .bind fun names _ => .ok (alike_withRecords ha)
    next => exact .ok (alike_withRecords ha)
    next =>
      by_cases hfile : n.inode.body.isFile = true
      · simp only [hfile, if_true]
        exact .bind fun (d, h) _ => .ok (alike_withRecords (s := s.on h) ha)
      · simp only [hfile, Bool.false_eq_true, if_false]
        exact .ok (alike_withRecords ha)
  · intro (fid, n) s' t' _ ha'
    refine .bind fun h _ => ?_
    exact .ok (alike_withRecords (s := (s'.on h).bindFid id fid) ha')

/-! ### Making nodes -/

theorem agree_recordNew {key : String} {kind : NodeKind} {mode uid gid : UInt32} {now : Instant}
    (ha : s.store.Agree P t) :
    (recordNew s.store key kind mode uid gid now).Agree P (recordNew t key kind mode uid gid now) :=
  ha.put (fun _ => Store.overlay_recordNew) fun _ => Store.overlay_recordNew

theorem agree_recordDevice {key : String} {kind : NodeKind} {mode uid gid : UInt32} {now : Instant}
    (device : Option Device) (ha : s.store.Agree P t) :
    (recordDevice (recordNew s.store key kind mode uid gid now) key device).Agree P
      (recordDevice (recordNew t key kind mode uid gid now) key device) :=
  ha.put overlay_recordDevice overlay_recordDevice

theorem newFile_alike {flags mode gid : UInt32} (ha : s.store.Agree P t)
    (hp : ∀ q, s.At id q → P q) :
    Outcome.Alike (Alike P) (s.newFile id name flags mode gid)
      ((s.withRecords t).newFile id name flags mode gid) := by
  unfold newFile
  rw [directory_alike id ha hp]
  refine .bind fun dir _ => .bind fun path _ => ?_
  by_cases hl : s.isHostLink path = true
  · have hl' : (s.withRecords t).isHostLink path = true := hl
    simp only [hl, hl', if_true]
    exact .error _
  · have hl' : ¬ (s.withRecords t).isHostLink path = true := hl
    simp only [hl, hl', Bool.false_eq_true, if_false]
    refine .bind fun (d, h) _ => .ok ?_
    exact alike_withRecords (s := { s.on h with store := _ }) (agree_recordNew ha)

theorem lcreate_alike {flags mode gid : UInt32} (ha : s.store.Agree P t)
    (hp : ∀ q, s.Touches (.lcreate id name flags mode gid) q → P q) :
    Alike P (s.lcreate id name flags mode gid)
      ((s.withRecords t).lcreate id name flags mode gid) := by
  refine alike_settleThen ha (newFile_alike ha fun q hq => hp q (.inl hq)) ?_
  intro fid s' t' hnew ha'
  obtain ⟨dir, d, h, hd, hn, -, -, rfl, rfl, -⟩ := newFile_eq_ok hnew
  rw [node_alike ha' (hp _ (.inr (atEntry_of_directory hd hn)))]
  exact .bind fun n _ => .ok (alike_withRecords (s := bindFid _ id _) ha')

theorem describe_alike {make : Qid → Reply} (ha : s.store.Agree P t) (hp : P p) :
    Outcome.Alike (Alike P) (describe make p s) (describe make p (s.withRecords t)) := by
  unfold describe
  rw [node_alike ha hp]
  exact .bind fun n _ => .ok (alike_withRecords ha)

theorem symlink_alike {target : String} {gid : UInt32} (ha : s.store.Agree P t)
    (hp : ∀ q, s.Touches (.symlink id name target gid) q → P q) :
    Alike P (s.symlink id name target gid) ((s.withRecords t).symlink id name target gid) := by
  refine alike_settleThen ha ?_ ?_
  · unfold newLink
    rw [directory_alike id ha fun q hq => hp q (.inl hq)]
    refine .bind fun dir _ => .bind fun path _ => .bind fun h _ => .ok ?_
    refine alike_withRecords (s := { s.on h with store := _ }) ?_
    exact ha.put overlay_recordLink overlay_recordLink
  · intro path s' t' hnew ha'
    obtain ⟨dir, h, hd, hn, -, rfl, rfl⟩ := newLink_eq_ok hnew
    exact describe_alike ha' (hp _ (.inr (atEntry_of_directory hd hn)))

theorem mknod_alike {mode major minor gid : UInt32} (ha : s.store.Agree P t)
    (hp : ∀ q, s.Touches (.mknod id name mode major minor gid) q → P q) :
    Alike P (s.mknod id name mode major minor gid)
      ((s.withRecords t).mknod id name mode major minor gid) := by
  refine alike_settleThen ha ?_ ?_
  · unfold newNode
    rw [directory_alike id ha fun q hq => hp q (.inl hq)]
    split
    next kind _ =>
      refine .bind fun device _ => .bind fun dir _ => .bind fun path _ => .bind fun h _ => .ok ?_
      refine alike_withRecords (s := { s.on h with store := _ }) ?_
      cases device with
      | none => exact agree_recordDevice none ha
      | some d => exact agree_recordDevice (some d) ha
    next => exact .error _
  · intro path s' t' hnew ha'
    obtain ⟨dir, h, kind, device, -, -, hd, hn, -, rfl, rfl⟩ := newNode_eq_ok hnew
    exact describe_alike ha' (hp _ (.inr (atEntry_of_directory hd hn)))

theorem mkdir_alike {mode gid : UInt32} (ha : s.store.Agree P t)
    (hp : ∀ q, s.Touches (.mkdir id name mode gid) q → P q) :
    Alike P (s.mkdir id name mode gid) ((s.withRecords t).mkdir id name mode gid) := by
  refine alike_settleThen ha ?_ ?_
  · unfold newDir
    rw [directory_alike id ha fun q hq => hp q (.inl hq)]
    refine .bind fun dir _ => .bind fun path _ => .bind fun h _ => .ok ?_
    exact alike_withRecords (s := { s.on h with store := _ }) (agree_recordNew ha)
  · intro path s' t' hnew ha'
    obtain ⟨dir, h, hd, hn, -, rfl, rfl⟩ := newDir_eq_ok hnew
    exact describe_alike ha' (hp _ (.inr (atEntry_of_directory hd hn)))

/-! ### Attributes and contents -/

theorem readlink_alike (ha : s.store.Agree P t) (hp : ∀ q, s.At id q → P q) :
    Outcome.Alike (Alike P) (s.readlink id) ((s.withRecords t).readlink id) := by
  refine .bind fun fid hid => ?_
  rw [linkText_alike ha (hp _ (at_of_find hid))]
  refine .bind fun o _ => ?_
  cases o with
  | none => exact .error _
  | some target => exact .ok (alike_withRecords ha)

theorem getattr_alike (ha : s.store.Agree P t) (hp : ∀ q, s.At id q → P q) :
    Outcome.Alike (Alike P) (s.getattr id) ((s.withRecords t).getattr id) := by
  refine .bind fun fid hid => ?_
  have hat : P fid.path := hp _ (at_of_find hid)
  rw [node_alike ha hat]
  refine .bind fun n hn => .ok ?_
  refine ⟨?_, t, rfl, ha⟩
  rw [show (s.withRecords t).store = t from rfl, attr_alike ha (path_of_node hn ▸ hat)]
  rfl

theorem setRest_alike {n : Node} {attr : SetAttr} (ha : s.store.Agree P t) (hp : P n.path) :
    Outcome.Alike (Alike P) (s.setRest n attr) ((s.withRecords t).setRest n attr) := by
  have hold : t.permission n.key = s.store.permission n.key := ha.permission hp
  unfold setRest
  rw [show (s.withRecords t).store = t from rfl, hold]
  refine .bind fun accessed _ => .bind fun modified _ => ?_
  have hstore : ∀ (c : Bool) (r : Permissions) (h : Host),
      Alike P (Reply.setattr, { s.on h with
          store := if c = true then s.store.setPermission n.key r else s.store })
        (Reply.setattr, { s.on h with
          store := if c = true then t.setPermission n.key r else t }) := fun c r h => by
    cases c with
    | false => exact alike_withRecords (s := s.on h) ha
    | true => exact alike_withRecords (s := { s.on h with store := _ }) ha.setPermission
  simp only
  split
  next => exact .bind fun h _ => .ok (hstore _ _ h)
  next => exact .ok (hstore _ _ s.host)

theorem setattr_alike {attr : SetAttr} (ha : s.store.Agree P t) (hp : ∀ q, s.At id q → P q) :
    Alike P (s.setattr id attr) ((s.withRecords t).setattr id attr) := by
  have hfind : (do (s.withRecords t).node (← (s.withRecords t).fids.find id).path) =
      (do s.node (← s.fids.find id).path) :=
    Outcome.bind_eq_bind fun fid hid =>
      node_alike ha (hp _ (at_of_find hid))
  unfold setattr
  rw [hfind]
  cases hn : (do s.node (← s.fids.find id).path) with
  | error e => exact alike_withRecords ha
  | ok n =>
    obtain ⟨fid, hid, hnode⟩ := Outcome.bind_eq_ok_iff.mp hn
    have hat : P n.path :=
      path_of_node hnode ▸ hp _ (at_of_find hid)
    simp only
    rw [show (s.withRecords t).setSize n attr.size = s.setSize n attr.size from rfl,
      show (s.withRecords t).host = s.host from rfl]
    cases (if attr.has SetAttr.sizeBit = true then s.setSize n attr.size else .ok s.host) with
    | error e => exact alike_withRecords ha
    | ok h =>
      have hrest : Outcome.Alike (Alike P) ({ s with host := h }.setRest n attr)
          ({ s.withRecords t with host := h }.setRest n attr) :=
        setRest_alike (s := s.on h) ha hat
      simp only
      generalize { s with host := h }.setRest n attr = x,
        { s.withRecords t with host := h }.setRest n attr = y at hrest ⊢
      cases hrest with
      | error e => exact alike_withRecords (s := s.on h) ha
      | @ok x y hxy =>
        obtain ⟨hreply, hshare⟩ := hxy
        exact ⟨congrArg Except.ok hreply, hshare⟩

theorem readdir_alike {offset : UInt64} {count : UInt32} (ha : s.store.Agree P t)
    (hp : ∀ q, s.AtListed id q → P q) :
    Outcome.Alike (Alike P) (s.readdir id offset count)
      ((s.withRecords t).readdir id offset count) := by
  refine .bind fun fid hid => ?_
  cases hh : fid.handle with
  | dir names =>
    refine .ok ⟨?_, t, rfl, ha⟩
    have hlisted : ∀ name ∈ names.drop offset.toNat, P (fid.path ++ [name]) := fun name hn =>
      hp _ ⟨fid, names, name, fids_find_eq_ok_iff.mp hid, hh, List.mem_of_mem_drop hn, rfl⟩
    exact congrArg Reply.readdir (entriesFrom_alike ha hlisted)
  | _ => exact .error _

theorem read_alike {offset : UInt64} {count : UInt32} (ha : s.store.Agree P t)
    (hp : ∀ q, s.At id q → P q) :
    Outcome.Alike (Alike P) (s.read id offset count) ((s.withRecords t).read id offset count) := by
  refine .bind fun fid hid => ?_
  rw [linkText_alike ha (hp _ (at_of_find hid))]
  cases fid.handle with
  | file d => exact .bind fun bs _ => .ok (alike_withRecords ha)
  | dir names => exact .error _
  | unopened =>
    refine .bind fun o _ => ?_
    cases o with
    | some target => exact .ok (alike_withRecords ha)
    | none =>
      simp only
      rw [show (s.withRecords t).host.leadsToDirectory ((s.withRecords t).hostPath fid.path) =
        s.host.leadsToDirectory (s.hostPath fid.path) from rfl]
      split
      · exact .error _
      · exact .error _

theorem write_alike {offset : UInt64} {data : Bytes} (ha : s.store.Agree P t) :
    Alike P (s.write id offset data) ((s.withRecords t).write id offset data) := by
  refine alike_settleThen ha ?_ ?_
  · refine .bind fun fid _ => ?_
    cases fid.handle with
    | file d => exact .bind fun h _ => .ok (alike_withRecords (s := s.on h) ha)
    | dir names => exact .error _
    | unopened => exact .error _
  · intro x s' t' _ ha'
    split
    · exact .error _
    · exact .ok (alike_withRecords ha')

theorem fsync_alike (ha : s.store.Agree P t) :
    Outcome.Alike (Alike P) (s.fsync id) ((s.withRecords t).fsync id) := by
  refine .bind fun fid _ => ?_
  cases fid.handle with
  | file d => exact .bind fun _ _ => .ok (alike_withRecords ha)
  | _ => exact .ok (alike_withRecords ha)

/-! ### Moving and removing -/

theorem At.valid (hv : s.ValidPaths) (hp : s.At id p) : p.Valid := by
  obtain ⟨fid, hid, rfl⟩ := hp
  exact hv id fid hid

theorem AtEntry.valid (hv : s.ValidPaths) (hp : s.AtEntry id name p) : p.Valid := by
  obtain ⟨hn, fid, hid, rfl⟩ := hp
  exact (hv id fid hid).concat hn

theorem renameat_alike {oldId newId : FidId} {oldName newName : String} (hv : s.ValidPaths)
    (ha : s.store.Agree (s.Touches (.renameat oldId oldName newId newName)) t) :
    Outcome.Alike (Alike (s.Touches (.renameat oldId oldName newId newName)))
      (s.renameat oldId oldName newId newName)
      ((s.withRecords t).renameat oldId oldName newId newName) := by
  unfold renameat
  rw [directory_alike oldId ha fun q hq => .inl hq,
    directory_alike newId ha fun q hq => .inr (.inl hq)]
  refine .bind fun old hold => .bind fun new hnew => .bind fun oldPath ho => .bind fun newPath hn =>
    .bind fun _ _ => .bind fun h _ => .ok ?_
  obtain ⟨honame, rfl⟩ := entryPath_eq_ok_iff.mp ho
  obtain ⟨hnname, rfl⟩ := entryPath_eq_ok_iff.mp hn
  have hold := atEntry_of_directory hold honame
  have hnew := atEntry_of_directory hnew hnname
  have hvalid : ∀ q, s.Touches (.renameat oldId oldName newId newName) q → q.Valid := by
    rintro q (hq | hq | ⟨hq, -⟩)
    · exact hq.valid hv
    · exact hq.valid hv
    · exact hq
  refine alike_withRecords (s := { s.on h with store := _, fids := _ }) ?_
  refine ha.rename (by simp) (by simp) (hnew.valid hv) hvalid fun rest hq => ?_
  exact .inr (.inr ⟨(hold.valid hv).append (hvalid _ hq).of_append_right, _,
    List.prefix_append _ _, .inl hold⟩)

theorem removeAt_alike {mustBeDir : Bool} (ha : s.store.Agree P t) :
    Outcome.Alike (fun x y => ∃ u, y = x.withRecords u ∧ x.store.Agree P u) (s.removeAt p mustBeDir)
      ((s.withRecords t).removeAt p mustBeDir) := by
  refine .bind fun (i, n) _ => ?_
  have hdelete : ∀ h : Host, ∃ u, { s.withRecords t with host := h, store := t.delete p.key } =
      ({ s with host := h, store := s.store.delete p.key } : Share).withRecords u ∧
        (s.store.delete p.key).Agree P u := fun h => ⟨_, rfl, ha.delete⟩
  simp only
  split
  next => exact .bind fun h _ => .ok (hdelete h)
  next =>
    split
    · exact .error _
    · exact .bind fun h _ => .ok (hdelete h)

theorem unlinkat_alike {flags : UInt32} (ha : s.store.Agree P t) (hp : ∀ q, s.At id q → P q) :
    Outcome.Alike (Alike P) (s.unlinkat id name flags)
      ((s.withRecords t).unlinkat id name flags) := by
  unfold unlinkat
  rw [directory_alike id ha hp]
  refine .bind fun dir _ => .bind fun path _ => ?_
  exact (removeAt_alike ha).andThen fun _ _ hxy => .ok ⟨rfl, hxy⟩

theorem remove_alike (ha : s.store.Agree P t) :
    Alike P (s.remove id) ((s.withRecords t).remove id) := by
  unfold remove
  rw [show (s.withRecords t).fids = s.fids from rfl]
  cases s.fids.find id with
  | error e => exact alike_withRecords ha
  | ok fid =>
    by_cases hroot : fid.path.isEmpty = true
    · simp only [hroot, if_true]
      exact alike_withRecords (s := s.dropFid id) ha
    · simp only [hroot, Bool.false_eq_true, if_false]
      have hr : Outcome.Alike _ ((s.dropFid id).removeAt fid.path false)
          (((s.withRecords t).dropFid id).removeAt fid.path false) :=
        removeAt_alike (s := s.dropFid id) ha
      generalize (s.dropFid id).removeAt fid.path false = x,
        ((s.withRecords t).dropFid id).removeAt fid.path false = y at hr ⊢
      cases hr with
      | error e => exact alike_withRecords (s := s.dropFid id) ha
      | ok hxy => exact ⟨rfl, hxy⟩

/-! ## Every request -/

/-- **A request does the same whatever the other records are.** It gets the same answer, and leaves
the same share but for the records that it does not come by. -/
theorem perform_alike (hv : s.ValidPaths) (r : Request) (ha : s.store.Agree (s.Touches r) t) :
    Alike (s.Touches r) (s.perform r) ((s.withRecords t).perform r) := by
  cases r with
  | version msize v =>
    exact alike_settle ha (.ok (alike_withRecords (s := { s.reset with msize := _ }) ha))
  | attach id afid uname aname uid => exact attach_alike ha rfl
  | flush oldTag => exact alike_withRecords ha
  | walk id newId names => exact alike_settle ha (walk_alike ha fun _ hq => hq)
  | lopen id flags => exact openFor_alike ha fun _ hq => hq
  | «open» id mode => exact openFor_alike ha fun _ hq => hq
  | lcreate id name flags mode gid => exact lcreate_alike ha fun _ hq => hq
  | symlink id name target gid => exact symlink_alike ha fun _ hq => hq
  | mknod id name mode major minor gid => exact mknod_alike ha fun _ hq => hq
  | readlink id => exact alike_settle ha (readlink_alike ha fun _ hq => hq)
  | getattr id mask => exact alike_settle ha (getattr_alike ha fun _ hq => hq)
  | setattr id attr => exact setattr_alike ha fun _ hq => hq
  | readdir id offset count => exact alike_settle ha (readdir_alike ha fun _ hq => hq)
  | fsync id datasync => exact alike_settle ha (fsync_alike ha)
  | mkdir id name mode gid => exact mkdir_alike ha fun _ hq => hq
  | renameat oldId oldName newId newName => exact alike_settle ha (renameat_alike hv ha)
  | unlinkat id name flags => exact alike_settle ha (unlinkat_alike ha fun _ hq => .inl hq)
  | read id offset count => exact alike_settle ha (read_alike ha fun _ hq => hq)
  | write id offset data => exact write_alike ha
  | clunk id => exact alike_withRecords (s := s.dropFid id) ha
  | remove id => exact remove_alike ha
  | unknown code => exact alike_withRecords ha

/-! ## Changes -/

theorem permittedPath_eq_some {r : Request} (hp : s.permittedPath r = some p) :
    ∃ id attr, r = .setattr id attr ∧ s.At id p := by
  cases r with
  | setattr id attr =>
    obtain ⟨fid, hid, rfl⟩ := Option.map_eq_some_iff.mp hp
    exact ⟨id, attr, rfl, fid, hid, rfl⟩
  | _ => cases hp

theorem writes_of_madePath {r : Request} (hp : s.madePath r = some p) (hv : p.Valid) :
    s.Writes r p := by
  have below : ∀ {id : FidId} {name : String}, (s.fids[id]?).map (·.path ++ [name]) = some p →
      p ≠ [] ∧ (s.At id p ∨ s.AtEntry id name p) := fun hp => by
    obtain ⟨fid, hid, rfl⟩ := Option.map_eq_some_iff.mp hp
    exact ⟨by simp, .inr ⟨hv _ (List.mem_append_right _ List.mem_cons_self), fid, hid, rfl⟩⟩
  have hmade : p ≠ [] ∧ s.Touches r p := by
    cases r with
    | lcreate | symlink | mknod | mkdir => exact below hp
    | _ => cases hp
  exact ⟨hv, hmade.2, fun he => absurd he hmade.1⟩

theorem touches_of_removedPath {r : Request} (hp : s.removedPath r = some p) (hv : p.Valid) :
    s.Touches r p := by
  cases r with
  | unlinkat id name flags =>
    obtain ⟨fid, hid, rfl⟩ := Option.map_eq_some_iff.mp hp
    exact .inr ⟨hv _ (List.mem_append_right _ List.mem_cons_self), fid, hid, rfl⟩
  | remove id =>
    obtain ⟨fid, hid, rfl⟩ := Option.map_eq_some_iff.mp hp
    exact ⟨fid, hid, rfl⟩
  | _ => cases hp

/-- **A request changes records only that it may change**: it replaces those of one path, or moves
those of a path and of all below it. -/
theorem perform_rewrites (hv : s.ValidPaths) (r : Request) :
    s.store.Rewrites (s.Writes r) (s.perform r).2.store := by
  cases perform_deed s r with
  | keep paths tree records => exact .nothing records
  | permit path tree records =>
    obtain ⟨id, attr, rfl, hat⟩ := permittedPath_eq_some path
    exact .put ⟨hat.valid hv, hat, fun _ => ⟨id, attr, rfl⟩⟩ records
  | record path does tree records valid => exact .put (writes_of_madePath path (valid hv)) records
  | remove path does found entry nothing tree records valid =>
    have hroot := touches_of_removedPath path (valid hv)
    exact .put ⟨valid hv, hroot, fun he => absurd he (by simp)⟩ records
  | @move p p' name name' dir dir' i paths does names found entry found' tree records =>
    obtain ⟨oldId, oldName, newId, newName, f, g, rfl, hf, hg, hold, hnew⟩ :=
      movedPaths_eq_some paths
    obtain ⟨rfl, ⟨⟩⟩ := List.append_inj' hold rfl
    obtain ⟨rfl, ⟨⟩⟩ := List.append_inj' hnew rfl
    have old_at : s.AtEntry oldId name (f.path ++ [name]) := ⟨names.1, f, hf, rfl⟩
    have new_at : s.AtEntry newId name' (g.path ++ [name']) := ⟨names.2, g, hg, rfl⟩
    have hmoved : ∀ k, (s.perform (.renameat oldId name newId name')).2.store.overlay k =
        (s.store.rename (f.path ++ [name]).key (g.path ++ [name']).key).overlay k := fun k => by
      rw [records]
    refine .move ?_ ?_ (fun rest hr => ?_) (fun rest hr => ?_) hmoved
    · simp
    · simp
    · have hvalid := (old_at.valid hv).append hr
      exact ⟨hvalid, .inr (.inr ⟨hvalid, _, List.prefix_append _ _, .inl old_at⟩), by simp⟩
    · have hvalid := (new_at.valid hv).append hr
      exact ⟨hvalid, .inr (.inr ⟨hvalid, _, List.prefix_append _ _, .inr new_at⟩), by simp⟩

theorem overlay_of_not_writes {r : Request} (hv : s.ValidPaths) (hp : p.Valid)
    (hr : ¬ s.Writes r p) : (s.perform r).2.store.overlay p.key = s.store.overlay p.key :=
  (perform_rewrites hv r).overlay_of_not (fun _ hq => hq.1) hp hr

theorem touches_withRecords {r : Request} : (s.withRecords t).Touches r p ↔ s.Touches r p := by
  cases r with
  | walk id newId names =>
    show (∃ fid, s.fids[id]? = some fid ∧ p ∈ (s.withRecords t).visited fid.path names) ↔ _
    simp only [visited_withRecords]
    rfl
  | _ => exact Iff.rfl

/-- Records that agree before a request do so after it, if it comes by none that need not agree. -/
theorem perform_alike_of_agree {r : Request} (hv : s.ValidPaths) (hP : ∀ p, P p → p.Valid)
    (hT : ∀ p, s.Touches r p → P p) (ha : s.store.Agree P t) :
    Alike P (s.perform r) ((s.withRecords t).perform r) := by
  obtain ⟨hreply, u, hu, hagree⟩ := perform_alike hv r fun p hp => ha p (hT p hp)
  refine ⟨hreply, u, hu, fun p hp => ?_⟩
  by_cases hr : s.Touches r p
  · exact hagree p hr
  · have hother : ((s.withRecords t).perform r).2.store.overlay p.key = t.overlay p.key :=
      overlay_of_not_writes (s := s.withRecords t) (validPaths_congr hv rfl) (hP p hp)
        fun hw => hr (touches_withRecords.mp hw.2.1)
    rw [hu] at hother
    rw [overlay_of_not_writes hv (hP p hp) fun hw => hr hw.2.1, ← ha p hp]
    exact hother

end Share

end GuestShare
