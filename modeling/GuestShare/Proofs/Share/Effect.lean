import GuestShare.Proofs.Host.Count
import GuestShare.Proofs.Share.Key
import GuestShare.Proofs.Share.Records

/-!
# What a request does to nodes and records

In an export without links each request does one of a few things, and does it to the tree of the
host and to the records at the same path: it sets the permissions of a node, puts a node somewhere
and records it anew, removes a node with its records, or moves a node with its records and all those
below it.

* `Share.Has`: the node to which the names of a path lead.
* `Share.ValidPaths`: fids whose paths are made of names of entries.
* `Share.Effect`: what a request may do to nodes and records.
* **`perform_validPaths`**, **`perform_effect`**: every request keeps the paths valid and has such
  an effect.
-/

namespace GuestShare

namespace Share

/-- The names of a path lead to a node. -/
def Has (s : Share) (p : GuestPath) (i : Ino) : Prop := s.host.descend 0 (s.hostNames p) = some i

/-- The paths of all fids are made of names of entries. -/
def ValidPaths (s : Share) : Prop :=
  ∀ (id : FidId) (fid : Fid), s.fids[id]? = some fid → fid.path.Valid

/-- What a request may do to nodes and records. -/
inductive Effect (s s' : Share) : Prop
  /-- Every node stays where it is, with its records. -/
  | keep (tree : s.host.Keeps s'.host)
      (records : ∀ k, s'.store.overlay k = s.store.overlay k)
  /-- The permissions of a node are set. -/
  | permit {p : GuestPath} {i : Ino} {r : Permissions} (valid : p.Valid)
      (tree : s.host.Keeps s'.host) (node : s.Has p i) (masked : s.store.Masked → r.Masked)
      (records : ∀ k, s'.store.overlay k =
        if k = p.key then { s.store.overlay p.key with permission := some r }
        else s.store.overlay k)
  /-- A node gets records of its own kind in place of all there were. -/
  | record {p : GuestPath} {i : Ino} {o : Overlay} {kind : NodeKind} (valid : p.Valid)
      (tree : s.host.Keeps s'.host) (node : s'.Has p i) (coherent : o.Coherent)
      (masked : o.Masked) (hkind : o.kind = some kind)
      (directory : kind = .directory ↔ s'.host.isDirectory i = true)
      (records : ∀ k, s'.store.overlay k = if k = p.key then o else s.store.overlay k)
  /-- A node is removed with its records. -/
  | remove {p : GuestPath} (valid : p.Valid)
      (tree : s.host.Removes s'.host (s.hostNames p))
      (records : ∀ k, s'.store.overlay k = if k = p.key then .blank else s.store.overlay k)
  /-- A node is moved, with its records and those below it. -/
  | move {old new : GuestPath} {i : Ino} (validOld : old.Valid) (validNew : new.Valid)
      (oldEntry : old ≠ []) (newEntry : new ≠ []) (node : s.Has old i)
      (tree : s.host.Moves s'.host (s.hostNames old) (s.hostNames new) i)
      (records : s'.store = s.store.rename old.key new.key)

variable {s s' : Share} {id : FidId} {fid : Fid} {p q : GuestPath} {name : String}
  {names : List String} {h : Host} {i : Ino} {dir : Place} {r : Request}
  {x : Except ShareError Reply}

/-! ## Paths of fids -/

theorem validPaths_bindFid (hv : s.ValidPaths) (hf : fid.path.Valid) :
    (s.bindFid id fid).ValidPaths := fun _ _ hk =>
  Fids.of_insert (P := fun f => f.path.Valid) hv hf hk

theorem validPaths_dropFid (hv : s.ValidPaths) : (s.dropFid id).ValidPaths := fun _ _ hk =>
  Fids.of_erase (P := fun f => f.path.Valid) hv hk

theorem validPaths_congr (hv : s.ValidPaths) (hf : s'.fids = s.fids) : s'.ValidPaths :=
  fun k f hk => hv k f (hf ▸ hk)

theorem validPaths_relocate {new : GuestPath} (hv : s.ValidPaths) (hn : new.Valid)
    (hf : s'.fids = s.fids.relocate p new) : s'.ValidPaths := by
  intro k f hk
  rw [hf] at hk
  refine Fids.of_relocate (P := fun f => f.path.Valid) hv (fun f rest hpath hold => ?_) hk
  rw [hpath] at hold
  exact hn.append hold.of_append_right

theorem valid_of_steps (hp : p.Valid) : ∀ n ∈ s.steps p names, n.path.Valid := by
  induction names generalizing p with
  | nil => exact fun _ hn => absurd hn List.not_mem_nil
  | cons name names ih =>
    intro m hm
    rw [steps] at hm
    split at hm
    next => cases hm
    next n hn =>
      obtain ⟨hplain, hnode, -⟩ := step_eq_some hn
      have hnext : n.path.Valid := path_of_node hnode ▸ hp.next hplain
      rcases List.mem_cons.mp hm with rfl | hm
      · exact hnext
      · exact ih hnext m hm

theorem directory_valid (hv : s.ValidPaths) (hd : s.directory id = .ok fid) : fid.path.Valid :=
  hv id fid (directory_eq_ok_iff.mp hd).1

theorem Act.validPaths (ha : Act s r x s') (hv : s.ValidPaths) : s'.ValidPaths := by
  cases ha with
  | begin => exact fun k f hk => by simp [reset] at hk
  | attach made node => exact validPaths_bindFid (s := s.on _) hv GuestPath.valid_nil
  | walk source whole path =>
    have hvalid := hv _ _ source
    obtain rfl | ⟨n, hn, rfl⟩ := path
    · exact validPaths_bindFid hv hvalid
    · exact validPaths_bindFid hv (valid_of_steps hvalid n hn)
  | «open» opening source node opened =>
    have hvalid := hv _ _ source
    exact validPaths_bindFid (s := s.on _) hv hvalid
  | create source entry there after node =>
    subst after
    exact validPaths_bindFid hv ((directory_valid hv source).concat entry)
  | make source entry makes records after node =>
    subst after
    exact hv
  | move source source' entry entry' renames =>
    exact validPaths_relocate hv ((directory_valid hv source').concat entry') rfl
  | remove | drop => exact validPaths_dropFid hv
  | _ => exact hv

/-- **Every request keeps the paths valid.** -/
theorem perform_validPaths (hv : s.ValidPaths) (r : Request) : (s.perform r).2.ValidPaths :=
  (perform_act rfl).validPaths hv

/-! ## Effects -/

section Effects

variable {o : Overlay} {kind : NodeKind} {b : Body}

theorem Effect.same (hh : s'.host = s.host) (hs : s'.store = s.store) : Effect s s' :=
  .keep (hh ▸ .refl _) fun _ => by rw [hs]

theorem Effect.edits {I : Ino → Prop} (he : Host.EditsIn I s.host s'.host)
    (hs : s'.store = s.store) : Effect s s' :=
  .keep he.sameTree.keeps fun _ => by rw [hs]

theorem LinkFree.has_of_find (hl : s.LinkFree) (hs : s.Sound) {atEnd : AtEnd}
    (hf : s.host.find atEnd (s.hostPath p) = .ok dir) : s.Has p dir.ino :=
  ((hl.find_eq_ok_iff hs).mp hf).1

theorem LinkFree.has_of_node (hl : s.LinkFree) (hs : s.Sound) {n : Node}
    (hn : s.node p = .ok n) : s.Has p n.ino :=
  ((hl.inspect_eq_ok_iff hs).mp (node_eq_ok_iff.mp hn).1).1

theorem key_of_node {n : Node} (hn : s.node p = .ok n) : n.key = p.key :=
  congrArg GuestPath.key (path_of_node hn)

theorem has_concat_iff : s.Has (p ++ [name]) i ↔
    ∃ d, s.Has p d ∧ s.host.child? d (Name.ofText name) = some i := by
  unfold Has
  rw [hostNames_concat]
  exact Host.descend_concat_eq_some_iff

/-! ### New nodes -/

theorem Effect.makes (hl : s.LinkFree) (hs : s.Sound) (hp : p.Valid)
    (hname : isEntryName name = true) (hb : b.Bare) (hm : s.Makes p name b s'.host)
    (hr : s'.root = s.root)
    (ho : ∀ k, s'.store.overlay k = if k = entryKey p name then o else s.store.overlay k)
    (hc : o.Coherent) (hmask : o.Masked) (hk : o.kind = some kind)
    (hd : kind = .directory ↔ b.isDirectory = true) : Effect s s' := by
  obtain ⟨dir, mode, hf, hfits, hlook, hhost⟩ := hm
  obtain ⟨hdir, -, hnone⟩ := Host.lookup_eq_ok_iff.mp hlook
  have hput : Host.Puts (· = dir.ino) s.host s'.host := by
    rw [hhost]
    exact Host.Puts.refl.put rfl hdir hfits (fun j hj => by rw [hnone] at hj; cases hj) hb
  have hhas : s'.Has (p ++ [name]) s.host.nodes.size := by
    have hpath : s'.Has p dir.ino := by
      unfold Has hostNames
      rw [hr]
      exact hput.descend_of_isDirectory hdir (hl.has_of_find hs hf)
    refine has_concat_iff.mpr ⟨dir.ino, hpath, ?_⟩
    rw [hhost, Host.child?_create hb hdir, if_pos ⟨rfl, rfl⟩]
  refine .record (hp.concat hname) (hput.keeps hs.isTree) hhas hc hmask hk ?_ ho
  rw [hhost, Host.isDirectory_create_size]
  exact hd

theorem mem_ofMode? {mode : UInt32} (hk : NodeKind.ofMode? mode = some kind) :
    kind = .file ∨ kind = .charDevice ∨ kind = .blockDevice ∨ kind = .fifo ∨ kind = .socket := by
  unfold NodeKind.ofMode? at hk
  simp only at hk
  split_ifs at hk
  · cases hk
    exact .inl rfl
  · have hmem := List.mem_of_find?_eq_some hk
    simpa using hmem

theorem deviceNumber_eq_ok {number : UInt32} {refusal : UInt32 → Refusal} {k : UInt16}
    (hk : deviceNumber number refusal = .ok k) : k.toUInt64 = number.toUInt64 := by
  unfold deviceNumber at hk
  split_ifs at hk with hlt
  cases hk
  apply UInt64.toNat_inj.mp
  simpa using Nat.mod_eq_of_lt hlt

theorem deviceOf_eq_ok {major minor : UInt32} {device : Option Device}
    (hd : deviceOf kind major minor = .ok device) :
    (∃ d, device = some d ∧ kind = d.kind.nodeKind ∧ d.major.toUInt64 = major.toUInt64 ∧
        d.minor.toUInt64 = minor.toUInt64) ∨
      (device = none ∧ kind ≠ .charDevice ∧ kind ≠ .blockDevice) := by
  unfold deviceOf at hd
  simp only at hd
  split at hd
  next =>
    obtain ⟨x, hx, hd⟩ := Outcome.bind_eq_ok_iff.mp hd
    obtain ⟨y, hy, hd⟩ := Outcome.bind_eq_ok_iff.mp hd
    cases hd
    exact .inl ⟨_, rfl, rfl, deviceNumber_eq_ok hx, deviceNumber_eq_ok hy⟩
  next =>
    obtain ⟨x, hx, hd⟩ := Outcome.bind_eq_ok_iff.mp hd
    obtain ⟨y, hy, hd⟩ := Outcome.bind_eq_ok_iff.mp hd
    cases hd
    exact .inl ⟨_, rfl, rfl, deviceNumber_eq_ok hx, deviceNumber_eq_ok hy⟩
  next hchar hblock =>
    cases hd
    exact .inr ⟨rfl, hchar, hblock⟩

theorem overlay_recordLink {t : Store} {key target : String} {mode uid gid : UInt32}
    {now : Instant} (k : String) :
    ((recordNew t key .symlink mode uid gid now).setSymlink key target).overlay k =
      if k = key then ⟨some (.ofMode mode uid gid now.short), some target, some .symlink, none⟩
      else t.overlay k := by
  rw [Store.overlay_setSymlink, Store.overlay_recordNew, Store.overlay_recordNew]
  by_cases hk : k = key
  · simp only [hk, if_true]
  · simp only [hk, if_false]

theorem overlay_recordDevice {t : Store} {key : String} {kind : NodeKind} {mode uid gid : UInt32}
    {now : Instant} {device : Option Device} (k : String) :
    (recordDevice (recordNew t key kind mode uid gid now) key device).overlay k =
      if k = key then ⟨some (.ofMode mode uid gid now.short), none, some kind, device⟩
      else t.overlay k := by
  cases device with
  | none => exact Store.overlay_recordNew
  | some d =>
    unfold recordDevice
    rw [Store.overlay_setDevice, Store.overlay_recordNew, Store.overlay_recordNew]
    by_cases hk : k = key
    · simp only [hk, if_true]
    · simp only [hk, if_false]

theorem NewEntry.overlay {t t' : Store} {uid : UInt32} {now : Instant} {make : Qid → Reply}
    (he : NewEntry t p uid now r id name b make t') :
    ∃ o kind, o.Coherent ∧ o.Masked ∧ o.kind = some kind ∧
      (kind = .directory ↔ b.isDirectory = true) ∧
      ∀ k, t'.overlay k = if k = entryKey p name then o else t.overlay k := by
  cases he with
  | symlink =>
    exact ⟨_, _, Overlay.coherent_link, Overlay.masked_ofMode, rfl, by simp [Body.isDirectory],
      overlay_recordLink⟩
  | @mknod id name mode major minor gid kind device hkind hdevice =>
    have hmem := mem_ofMode? hkind
    have hfile : kind = .directory ↔ (Body.file .empty).isDirectory = true := by
      rcases hmem with rfl | rfl | rfl | rfl | rfl <;> simp [Body.isDirectory]
    have hcoherent : Overlay.Coherent
        ⟨some (.ofMode mode uid gid now.short), none, some kind, device⟩ := by
      obtain ⟨d, rfl, rfl, -⟩ | ⟨rfl, hchar, hblock⟩ := deviceOf_eq_ok hdevice
      · exact Overlay.coherent_device
      · have hlink : kind ≠ .symlink := by
          rcases hmem with rfl | rfl | rfl | rfl | rfl <;> decide
        exact Overlay.coherent_plain ⟨hlink, hchar, hblock⟩
    exact ⟨_, _, hcoherent, Overlay.masked_ofMode, rfl, hfile, overlay_recordDevice⟩
  | mkdir =>
    exact ⟨_, _, Overlay.coherent_plain (by decide), Overlay.masked_ofMode, rfl,
      by simp [Body.isDirectory], fun _ => Store.overlay_recordNew⟩

theorem create_effect {d : Descriptor} {mode gid : UInt32} (hl : s.LinkFree) (hs : s.Sound)
    (hv : s.ValidPaths) (hd : s.directory id = .ok fid) (hname : isEntryName name = true)
    (there : (∃ dir, s.host.find .follow (s.hostPath fid.path) = .ok dir ∧
        s.host.lookup dir (Name.ofText name) = .ok (some d.ino) ∧
        s.host.isDirectory d.ino = false ∧ Host.EditsIn (· = d.ino) s.host s'.host) ∨
      (d.ino = s.host.nodes.size ∧ s.Makes fid.path name (.file .empty) s'.host))
    (hr : s'.root = s.root)
    (hstore : s'.store =
      recordNew s.store (entryKey fid.path name) .file mode fid.uid gid s'.host.clock) :
    Effect s s' := by
  have hplain : NodeKind.file ≠ .symlink ∧ NodeKind.file ≠ .charDevice ∧
      NodeKind.file ≠ .blockDevice := by decide
  have hrecords : ∀ k, s'.store.overlay k = if k = entryKey fid.path name then
      ⟨some (.ofMode mode fid.uid gid s'.host.clock.short), none, some .file, none⟩
      else s.store.overlay k := fun _ => hstore ▸ Store.overlay_recordNew
  obtain ⟨dir, hf, hlook, hnodir, hedit⟩ | ⟨-, hm⟩ := there
  · obtain ⟨-, -, hchild⟩ := Host.lookup_eq_ok_iff.mp hlook
    have hhas : s.Has (fid.path ++ [name]) d.ino :=
      has_concat_iff.mpr ⟨dir.ino, hl.has_of_find hs hf, hchild⟩
    have hdir : s'.host.isDirectory d.ino = false := (hedit.sameTree.isDirectory _).trans hnodir
    refine .record ((directory_valid hv hd).concat hname) hedit.sameTree.keeps (i := d.ino) ?_
      (Overlay.coherent_plain hplain) Overlay.masked_ofMode rfl (by simp [hdir]) hrecords
    unfold Has hostNames
    rw [hr]
    exact (hedit.sameTree.descend 0 _).trans hhas
  · exact .makes hl hs (directory_valid hv hd) hname (Body.bare_file _) hm hr hrecords
      (Overlay.coherent_plain hplain) Overlay.masked_ofMode rfl (by simp [Body.isDirectory])

/-! ### Moving and removing -/

theorem hostNames_ne (hp : p ≠ q) : s.hostNames p ≠ s.hostNames q := by
  intro he
  exact hp (List.map_injective_iff.mpr (fun _ _ => Bytes.ofText_injective)
    (List.append_cancel_left he))

theorem hostNames_prefix_iff : s.hostNames p <+: s.hostNames q ↔ p <+: q := by
  unfold hostNames
  rw [List.prefix_append_right_inj]
  constructor
  · rintro ⟨rest, hrest⟩
    obtain ⟨front, back, rfl, hfront, -⟩ := List.map_eq_append_iff.mp hrest.symm
    have hinj : Function.Injective (List.map Name.ofText) :=
      List.map_injective_iff.mpr fun _ _ => Bytes.ofText_injective
    exact hinj hfront ▸ List.prefix_append front back
  · exact fun hp => hp.map _

theorem LinkFree.not_below {q : GuestPath} {dir' : Place} (hl : s.LinkFree) (hs : s.Sound)
    (hi : s.Has p i) (hf' : s.host.find .follow (s.hostPath q) = .ok dir')
    (hd' : s.host.isDirectory dir'.ino = true)
    (hpass : s.host.isDirectory i = true → dir'.passes i = false) :
    ¬ s.hostNames p <+: s.hostNames q := by
  obtain ⟨-, hnames, hplace⟩ := (hl.find_eq_ok_iff hs).mp hf'
  rw [← hnames]
  exact hplace.not_below hd' hi hpass

/-- In an export without links, what moves on the host moves from the one path to the other, and
everything below it is as it was. -/
theorem LinkFree.moves {q : GuestPath} {name' : String} {dir' : Place} (hl : s.LinkFree)
    (hs : s.Sound) (hf : s.host.find .follow (s.hostPath p) = .ok dir)
    (hlook : s.host.lookup dir (Name.ofText name) = .ok (some i))
    (hf' : s.host.find .follow (s.hostPath q) = .ok dir')
    (hcase : (s.host.lookup dir' (Name.ofText name') = .ok (some i) ∧ h = s.host) ∨
      (s.host.FreeFor i dir' (Name.ofText name') ∧
        (s.host.isDirectory i = true → dir'.passes i = false) ∧
        h = (s.host.unbind dir.ino (Name.ofText name)).bind dir'.ino (Name.ofText name') i)) :
    s.Has (p ++ [name]) i ∧
      s.host.Moves h (s.hostNames (p ++ [name])) (s.hostNames (q ++ [name'])) i ∧
      s.host.SameBelow h i := by
  obtain ⟨-, -, hchild⟩ := Host.lookup_eq_ok_iff.mp hlook
  have hdir : s.Has p dir.ino := hl.has_of_find hs hf
  have hdir' : s.Has q dir'.ino := hl.has_of_find hs hf'
  have hi : s.Has (p ++ [name]) i := has_concat_iff.mpr ⟨dir.ino, hdir, hchild⟩
  refine ⟨hi, ?_⟩
  rcases hcase with ⟨hlook', rfl⟩ | ⟨hfree, hpass, rfl⟩
  · obtain ⟨-, -, hchild'⟩ := Host.lookup_eq_ok_iff.mp hlook'
    exact ⟨Host.moves_refl (has_concat_iff.mpr ⟨dir'.ino, hdir', hchild'⟩), .refl _ i⟩
  · have hd' : s.host.isDirectory dir'.ino = true := hfree.isDirectory.1
    have hout := hl.not_below hs hi hf' hd' hpass
    rw [hostNames_concat] at hout ⊢
    rw [hostNames_concat]
    exact ⟨hs.isTree.move_moves hdir hchild hdir' hd' hout,
      hs.isTree.move_sameBelow hdir hchild hdir' hfree hout⟩

theorem unlink_effect (hl : s.LinkFree) (hs : s.Sound) (hp : GuestPath.Valid (p ++ [name]))
    (hu : s.Unlinks p name dir i) (hh : s'.host = s.host.unbind dir.ino (Name.ofText name))
    (hstore : s'.store = s.store.delete (entryKey p name)) : Effect s s' := by
  obtain ⟨-, -, hchild⟩ := Host.lookup_eq_ok_iff.mp hu.entry
  refine .remove hp ?_ fun _ => hstore ▸ Store.overlay_delete
  rw [hostNames_concat, hh]
  exact hs.isTree.unbind_removes (hl.has_of_find hs hu.found) hchild hu.nothing

/-- **Every act has such an effect**, in an export without links. -/
theorem Act.effect (ha : Act s r x s') (hl : s.LinkFree) (hs : s.Sound) (hv : s.ValidPaths) :
    Effect s s' := by
  cases ha with
  | makeRoot made | attach made node => exact .same (made.symm.trans hs.makeRoot_eq) rfl
  | «open» opening source node opened =>
    cases opened with
    | unopened | dir => exact .same rfl rfl
    | file found node edits => exact .edits edits rfl
  | create source entry there after node =>
    subst after
    exact create_effect hl hs hv source entry there rfl rfl
  | make source entry makes records after node =>
    subst after
    obtain ⟨o, kind, hcoherent, hmasked, hkind, hdir, hrecords⟩ := records.overlay
    exact .makes hl hs (directory_valid hv source) entry records.bare makes rfl hrecords hcoherent
      hmasked hkind hdir
  | set source node edits records =>
    obtain rfl | ⟨perms, rfl, hp⟩ := records
    · exact .edits edits rfl
    · refine .permit (r := perms) (hv _ _ source) edits.sameTree.keeps (hl.has_of_node hs node)
        (fun hm => hm.changedRecord hp) fun k => ?_
      rw [← key_of_node node]
      exact Store.overlay_setPermission
  | write source held edits => exact .edits edits rfl
  | move source source' entry entry' renames =>
    obtain ⟨hhas, hmoves, -⟩ :=
      hl.moves hs renames.found renames.entry renames.found' renames.tree
    exact .move ((directory_valid hv source).concat entry)
      ((directory_valid hv source').concat entry') (by simp) (by simp) hhas hmoves rfl
  | unlink source entry unlinks =>
    exact unlink_effect hl hs ((directory_valid hv source).concat entry) unlinks rfl rfl
  | remove source path unlinks =>
    exact unlink_effect hl hs (path ▸ hv _ _ source) unlinks rfl rfl
  | _ => exact .same rfl rfl

/-- **Every request has such an effect**, in an export without links. -/
theorem perform_effect (hl : s.LinkFree) (hs : s.Sound) (hv : s.ValidPaths) (r : Request) :
    Effect s (s.perform r).2 := (perform_act rfl).effect hl hs hv

end Effects

end Share

end GuestShare
