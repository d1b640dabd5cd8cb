import GuestShare.Proofs.Share.Effect

/-!
# What a request does at the paths that it names

Whatever the export holds, links of the host or not, a request changes records and removes or moves
nodes only at the paths that it names by its fids and by names of entries. Fids go with the nodes
that are moved, by the path that they have.

* `Share.permittedPath`, `Share.madePath`, `Share.removedPath`, `Share.movedPaths`: these paths.
* `Share.Deed`: what a request does to the nodes and to the records.
* `Share.renameat_of_does`: what a rename does that goes well.
* **`perform_deed`**: every request does such a deed.
* `GuestPath.rebase`, `Share.carried`: where a path goes when a node is moved.
* `Share.FidDeed`, **`perform_fids`**: what every request does to the fids.
* **`perform_fid`**: what a request leaves of a fid that it does not bind anew.
* **`perform_owned`**: whom a fid belongs to.
-/

namespace GuestShare

/-! ## Paths -/

/-- Where a path goes that is at or below `old`, if that goes to `new`. -/
def GuestPath.rebase (p old new : GuestPath) : GuestPath :=
  match behind? old p with
  | some rest => new ++ rest
  | none => p

namespace GuestPath

variable {old new p rest : GuestPath}

theorem rebase_append : GuestPath.rebase (old ++ rest) old new = new ++ rest := by
  unfold rebase
  rw [behind?_eq_some_iff.mpr rfl]

theorem rebase_of_not_prefix (hp : ¬ old <+: p) : p.rebase old new = p := by
  unfold rebase
  split
  next rest hrest => exact absurd ⟨rest, (behind?_eq_some_iff.mp hrest).symm⟩ hp
  next => rfl

end GuestPath

namespace Share

/-- The path of the node whose permissions a request sets. -/
def permittedPath (s : Share) : Request → Option GuestPath
  | .setattr id _ => (s.fids[id]?).map Fid.path
  | _ => none

/-- The path of the node that a request makes. -/
def madePath (s : Share) : Request → Option GuestPath
  | .lcreate id name .. | .symlink id name .. | .mknod id name .. | .mkdir id name .. =>
    (s.fids[id]?).map (·.path ++ [name])
  | _ => none

/-- The path of the node that a request removes. -/
def removedPath (s : Share) : Request → Option GuestPath
  | .unlinkat id name _ => (s.fids[id]?).map (·.path ++ [name])
  | .remove id => (s.fids[id]?).map Fid.path
  | _ => none

/-- The path of the node that a request moves, and the path to which it moves it. -/
def movedPaths (s : Share) : Request → Option (GuestPath × GuestPath)
  | .renameat oldId oldName newId newName =>
    match s.fids[oldId]?, s.fids[newId]? with
    | some old, some new => some (old.path ++ [oldName], new.path ++ [newName])
    | _, _ => none
  | _ => none

/-- A request goes well. -/
def Does (s : Share) (r : Request) : Prop := ∃ reply, (s.perform r).1 = .ok reply

variable {s s' : Share} {r : Request} {id : FidId} {fid : Fid} {p : GuestPath} {name : String}
  {h : Host} {b : Body} {o : Overlay} {reply : Reply} {x : Except ShareError Reply}

/-- Where a request takes the nodes at a path. -/
def carried (s : Share) (r : Request) (p : GuestPath) : GuestPath :=
  match s.movedPaths r, (s.perform r).1 with
  | some (old, new), .ok _ => p.rebase old new
  | _, _ => p

theorem carried_of_not_moved (hm : s.movedPaths r = none) : s.carried r p = p := by
  unfold carried
  rw [hm]

theorem carried_of_error {e : ShareError} (he : (s.perform r).1 = .error e) :
    s.carried r p = p := by
  unfold carried
  rw [he]
  cases s.movedPaths r <;> rfl

theorem carried_of_moved {old new : GuestPath} (hm : s.movedPaths r = some (old, new))
    (hd : s.Does r) : s.carried r p = p.rebase old new := by
  obtain ⟨reply, hr⟩ := hd
  unfold carried
  rw [hm, hr]

theorem movedPaths_eq_some {old new : GuestPath}
    (hp : s.movedPaths r = some (old, new)) :
    ∃ oldId oldName newId newName f g, r = .renameat oldId oldName newId newName ∧
      s.fids[oldId]? = some f ∧ s.fids[newId]? = some g ∧ old = f.path ++ [oldName] ∧
      new = g.path ++ [newName] := by
  cases r with
  | renameat oldId oldName newId newName =>
    simp only [movedPaths] at hp
    split at hp
    next f g hf hg =>
      cases hp
      exact ⟨oldId, oldName, newId, newName, f, g, rfl, hf, hg, rfl, rfl⟩
    next => cases hp
  | _ => cases hp

theorem movedPaths_of_directory {oldId newId : FidId} {oldName newName : String} {old new : Fid}
    (hold : s.directory oldId = .ok old) (hnew : s.directory newId = .ok new) :
    s.movedPaths (.renameat oldId oldName newId newName) =
      some (old.path ++ [oldName], new.path ++ [newName]) := by
  simp [movedPaths, (directory_eq_ok_iff.mp hold).1, (directory_eq_ok_iff.mp hnew).1]

theorem Sees.movedPaths_eq_none (hv : s.Sees r reply) : s.movedPaths r = none := by
  cases hv <;> rfl

theorem Opening.movedPaths_eq_none {make : Qid → UInt32 → Reply} (ho : r.Opening id make) :
    s.movedPaths r = none := by
  cases ho <;> rfl

section NewEntry

variable {t t' : Store} {uid : UInt32} {now : Instant} {make : Qid → Reply}

theorem NewEntry.movedPaths_eq_none (he : NewEntry t p uid now r id name b make t') :
    s.movedPaths r = none := by
  cases he <;> rfl

theorem NewEntry.madePath_eq (he : NewEntry t p uid now r id name b make t') :
    s.madePath r = (s.fids[id]?).map (·.path ++ [name]) := by
  cases he <;> rfl

end NewEntry

/-! ## Deeds -/

/-- What a request does to the nodes and to the records. -/
inductive Deed (s : Share) (r : Request) (s' : Share) : Prop
  /-- Every node stays where it is, with its records. -/
  | keep (paths : ∀ p, s.carried r p = p) (tree : s.host.Stays s'.host)
      (records : ∀ k, s'.store.overlay k = s.store.overlay k)
  /-- The permissions of a node are set. -/
  | permit {p : GuestPath} {perms : Permissions} (path : s.permittedPath r = some p)
      (tree : s.host.Stays s'.host)
      (records : ∀ k, s'.store.overlay k =
        if k = p.key then { s.store.overlay p.key with permission := some perms }
        else s.store.overlay k)
  /-- A node gets new records in place of all there were. -/
  | record {p : GuestPath} {o : Overlay} (path : s.madePath r = some p) (does : s.Does r)
      (tree : s.host.Stays s'.host)
      (records : ∀ k, s'.store.overlay k = if k = p.key then o else s.store.overlay k)
      (valid : s.ValidPaths → p.Valid)
  /-- A node that has nothing below it is removed with its records. -/
  | remove {p : GuestPath} {name : String} {dir : Place} {i : Ino}
      (path : s.removedPath r = some (p ++ [name])) (does : s.Does r)
      (found : s.host.find .follow (s.hostPath p) = .ok dir)
      (entry : s.host.lookup dir (Name.ofText name) = .ok (some i))
      (nothing : s.host.isDirectory i = false ∨ s.host.entries? i = some ∅)
      (tree : s'.host = s.host.unbind dir.ino (Name.ofText name))
      (records : ∀ k, s'.store.overlay k =
        if k = (p ++ [name]).key then .blank else s.store.overlay k)
      (valid : s.ValidPaths → GuestPath.Valid (p ++ [name]))
  /-- A node is moved, or has the new name already, and its records and those below it are moved. -/
  | move {p p' : GuestPath} {name name' : String} {dir dir' : Place} {i : Ino}
      (paths : s.movedPaths r = some (p ++ [name], p' ++ [name'])) (does : s.Does r)
      (names : isEntryName name = true ∧ isEntryName name' = true)
      (found : s.host.find .follow (s.hostPath p) = .ok dir)
      (entry : s.host.lookup dir (Name.ofText name) = .ok (some i))
      (found' : s.host.find .follow (s.hostPath p') = .ok dir')
      (tree : (s.host.lookup dir' (Name.ofText name') = .ok (some i) ∧ s'.host = s.host) ∨
        (s.host.FreeFor i dir' (Name.ofText name') ∧
          (s.host.isDirectory i = true → dir'.passes i = false) ∧
          s'.host = (s.host.unbind dir.ino (Name.ofText name)).bind dir'.ino
            (Name.ofText name') i))
      (records : s'.store = s.store.rename (p ++ [name]).key (p' ++ [name']).key)

/-! ## Deeds of all kinds -/

theorem Deed.same (hp : ∀ p, s.carried r p = p) (hh : s'.host = s.host) (hs : s'.store = s.store) :
    Deed s r s' :=
  .keep hp (hh ▸ .refl _) fun _ => by rw [hs]

theorem Deed.idle (hm : s.movedPaths r = none) (hh : s'.host = s.host) (hs : s'.store = s.store) :
    Deed s r s' :=
  .same (fun _ => carried_of_not_moved hm) hh hs

theorem Makes.stays (hb : b.Bare) (hm : s.Makes p name b h) : s.host.Stays h := by
  obtain ⟨dir, mode, -, -, hlook, rfl⟩ := hm
  exact Host.create_stays hb hlook

theorem makeDirs_stays {path : Path} : s.host.Stays (Host.makeDirs path s.host).2 := by
  generalize hh : (Host.makeDirs path s.host).2 = h
  have hm : Host.Makes path.ancestors s.host h := hh ▸ Host.makeDirs_makes
  clear hh
  induction hm with
  | refl => exact .refl _
  | step _ _ ho ih =>
    obtain ⟨front, name, dir, -, -, -, hlook, rfl⟩ := Host.makeDir_eq_ok ho
    exact ih.trans (Host.create_stays Body.bare_directory hlook)

/-- **What a rename does that goes well**, whatever links there are: it moves an entry between two
directories, if the node does not have the new name already, and moves the records. -/
theorem renameat_of_does {old new : GuestPath} (hm : s.movedPaths r = some (old, new))
    (hd : s.Does r) :
    ∃ p name p' name' dir dir' i n, old = p ++ [name] ∧ new = p' ++ [name'] ∧
      (s.ValidPaths → old.Valid ∧ new.Valid) ∧ s.inspect old = .ok (i, n) ∧
      s.host.find .follow (s.hostPath p) = .ok dir ∧
      s.host.lookup dir (Name.ofText name) = .ok (some i) ∧
      s.host.find .follow (s.hostPath p') = .ok dir' ∧
      ((s.host.lookup dir' (Name.ofText name') = .ok (some i) ∧ s.inspect new = .ok (i, n) ∧
          (s.perform r).2.host = s.host) ∨
        (s.host.FreeFor i dir' (Name.ofText name') ∧
          (s.host.isDirectory i = true → dir'.passes i = false) ∧
          (s.perform r).2.host = (s.host.unbind dir.ino (Name.ofText name)).bind dir'.ino
            (Name.ofText name') i)) ∧
      (s.perform r).2.store = s.store.rename old.key new.key := by
  obtain ⟨oldId, oldName, newId, newName, f, g, rfl, hf, hg, rfl, rfl⟩ := movedPaths_eq_some hm
  obtain ⟨reply, hreply⟩ := hd
  obtain ⟨s', ha⟩ : ∃ s', s.renameat oldId oldName newId newName = .ok (reply, s') :=
    ⟨_, settle_eq_ok_iff.mp (Prod.ext hreply rfl)⟩
  rw [show (s.perform (.renameat oldId oldName newId newName)).2 = s' from
    congrArg Prod.snd (settle_eq_ok_iff.mpr ha)]
  obtain ⟨od, nd, i, n, h, hod, hnd, hon, hnn, hi, hr, -, rfl⟩ := renameat_eq_ok ha
  obtain rfl : od = f := Option.some.inj ((directory_eq_ok_iff.mp hod).1.symm.trans hf)
  obtain rfl : nd = g := Option.some.inj ((directory_eq_ok_iff.mp hnd).1.symm.trans hg)
  rw [hostPath_concat, hostPath_concat] at hr
  obtain ⟨dir, dir', j, hdir, hl, hdir', hnul, htree⟩ := Host.rename_child_eq_ok hr
  obtain ⟨-, _, hdir₁, hl₁, hn⟩ := inspect_concat_eq_ok_iff.mp hi
  cases hdir₁.symm.trans hdir
  cases hl₁.symm.trans hl
  refine ⟨od.path, oldName, nd.path, newName, dir, dir', i, n, rfl, rfl,
    fun hv => ⟨(directory_valid hv hod).concat hon, (directory_valid hv hnd).concat hnn⟩, hi, hdir,
    hl, hdir', htree.imp_left fun hsame => ⟨hsame.1, ?_, hsame.2⟩, rfl⟩
  exact inspect_concat_eq_ok_iff.mpr ⟨hnul, dir', hdir', hsame.1, hn⟩

/-! ## Every request -/

theorem Act.deed (ha : Act s r x s') (hx : (s.perform r).1 = x) : Deed s r s' := by
  have at_fid : ∀ {id : FidId} {fid : Fid} {name : String}, s.directory id = .ok fid →
      (s.fids[id]?).map (·.path ++ [name]) = some (fid.path ++ [name]) := fun hd => by
    rw [(directory_eq_ok_iff.mp hd).1]
    rfl
  have valid : ∀ {id : FidId} {fid : Fid} {name : String}, s.directory id = .ok fid →
      isEntryName name = true → s.ValidPaths → GuestPath.Valid (fid.path ++ [name]) :=
    fun hd hn hv => (directory_valid hv hd).concat hn
  cases ha with
  | fail => exact .same (fun _ => carried_of_error hx) rfl rfl
  | look sees => exact .idle sees.movedPaths_eq_none rfl rfl
  | begin | walk => exact .idle rfl rfl rfl
  | makeRoot made | attach made =>
    exact .keep (fun _ => carried_of_not_moved rfl) (made ▸ makeDirs_stays) fun _ => rfl
  | «open» opening source node opened =>
    have hm := Opening.movedPaths_eq_none (s := s) opening
    cases opened with
    | unopened | dir => exact .idle hm rfl rfl
    | file found node edits =>
      exact .keep (fun _ => carried_of_not_moved hm) edits.sameTree.stays fun _ => rfl
  | create source entry there after =>
    subst after
    refine .record (at_fid source) ⟨_, hx⟩ ?_ (fun _ => Store.overlay_recordNew)
      (valid source entry)
    obtain ⟨dir, -, -, -, edits⟩ | ⟨-, makes⟩ := there
    · exact edits.sameTree.stays
    · exact makes.stays (Body.bare_file _)
  | make source entry makes records after =>
    subst after
    obtain ⟨o, kind, -, -, -, -, hrecords⟩ := records.overlay
    exact .record (records.madePath_eq.trans (at_fid source)) ⟨_, hx⟩ (makes.stays records.bare)
      hrecords (valid source entry)
  | @set _ _ _ fid n _ _ source node edits records =>
    obtain rfl | ⟨perms, rfl, -⟩ := records
    · exact .keep (fun _ => carried_of_not_moved rfl) edits.sameTree.stays fun _ => rfl
    · have hrecords : ∀ k, (s.store.setPermission n.key perms).overlay k =
          if k = fid.path.key then { s.store.overlay fid.path.key with permission := some perms }
          else s.store.overlay k := fun k => by
        rw [← key_of_node node]
        exact Store.overlay_setPermission
      exact .permit (congrArg (Option.map Fid.path) source) edits.sameTree.stays hrecords
  | write source held edits =>
    exact .keep (fun _ => carried_of_not_moved rfl) edits.sameTree.stays fun _ => rfl
  | move source source' entry entry' renames =>
    exact .move (movedPaths_of_directory source source') ⟨_, hx⟩ ⟨entry, entry'⟩ renames.found
      renames.entry renames.found' renames.tree rfl
  | unlink source entry unlinks =>
    exact .remove (at_fid source) ⟨_, hx⟩ unlinks.found unlinks.entry unlinks.nothing rfl
      (fun _ => Store.overlay_delete) (valid source entry)
  | remove source path unlinks =>
    have hpath := (congrArg (Option.map Fid.path) source).trans (congrArg some path)
    exact .remove hpath ⟨_, hx⟩ unlinks.found unlinks.entry unlinks.nothing rfl
      (fun _ => Store.overlay_delete) fun hv => path ▸ hv _ _ source
  | drop drops => obtain ⟨rfl, -⟩ | ⟨rfl, -⟩ := drops <;> exact .idle rfl rfl rfl

/-- **Every request does a deed at the paths that it names.** -/
theorem perform_deed (s : Share) (r : Request) : Deed s r (s.perform r).2 :=
  (perform_act rfl).deed rfl

/-! ## Fids -/

end Share

theorem Fids.getElem?_relocate {t : Fids} {old new : GuestPath} {id : FidId} :
    (t.relocate old new)[id]? =
      (t[id]?).map fun fid => { fid with path := fid.path.rebase old new } := by
  unfold Fids.relocate
  rw [Std.ExtTreeMap.getElem?_map]
  congr 1
  funext fid
  unfold GuestPath.rebase
  cases behind? old fid.path <;> rfl

/-- A request that gives a fid to another node, opens it, or lets go of it. -/
def Request.Rebinds (id : FidId) : Request → Prop
  | .version .. => True
  | .attach fid .. | .lopen fid _ | .open fid _ | .lcreate fid .. | .clunk fid | .remove fid =>
    fid = id
  | .walk _ newFid _ => newFid = id
  | _ => False

theorem Request.Opening.rebinds {r : Request} {id : FidId} {make : Qid → UInt32 → Reply}
    (ho : r.Opening id make) : r.Rebinds id := by
  cases ho <;> rfl

namespace Share

variable {s s' : Share} {r : Request} {id : FidId} {fid : Fid} {x : Except ShareError Reply}

/-- After a request a fid has the owner of one that there was, or whom an attach asked for. -/
def Owned (s : Share) (r : Request) (fid : Fid) : Prop :=
  (∃ (k : FidId) (f : Fid), s.fids[k]? = some f ∧ fid.uid = f.uid) ∨
    ∃ k afid uname aname uid, r = .attach k afid uname aname uid ∧
      fid.uid = if uid = noId then 0 else uid

/-- What a request does to the fids. -/
inductive FidDeed (s : Share) (r : Request) (s' : Share) : Prop
  | keep (paths : ∀ p, s.carried r p = p) (fids : s'.fids = s.fids)
  | clear (binds : ∀ id, r.Rebinds id) (fids : s'.fids = ∅)
  | bind {id : FidId} {fid : Fid} (binds : r.Rebinds id) (owner : s.Owned r fid)
      (paths : ∀ p, s.carried r p = p) (fids : s'.fids = s.fids.insert id fid)
  | drop {id : FidId} (binds : r.Rebinds id) (paths : ∀ p, s.carried r p = p)
      (fids : s'.fids = s.fids.erase id)
  | relocate {old new : GuestPath} (moved : s.movedPaths r = some (old, new)) (does : s.Does r)
      (fids : s'.fids = s.fids.relocate old new)

theorem FidDeed.idle (hm : s.movedPaths r = none) (hf : s'.fids = s.fids) : s.FidDeed r s' :=
  .keep (fun _ => carried_of_not_moved hm) hf

theorem FidDeed.rebind {k : FidId} {f fid' : Fid} (hr : r.Rebinds id) (hm : s.movedPaths r = none)
    (hk : s.fids[k]? = some f) (hf : s'.fids = s.fids.insert id fid') (hu : fid'.uid = f.uid) :
    s.FidDeed r s' :=
  .bind hr (.inl ⟨k, f, hk, hu⟩) (fun _ => carried_of_not_moved hm) hf

theorem Act.fidDeed (ha : Act s r x s') (hx : (s.perform r).1 = x) : s.FidDeed r s' := by
  cases ha with
  | fail => exact .keep (fun _ => carried_of_error hx) rfl
  | look sees => exact .idle sees.movedPaths_eq_none rfl
  | begin => exact .clear (fun _ => trivial) rfl
  | makeRoot | set | write | unlink => exact .idle rfl rfl
  | attach =>
    exact .bind rfl (.inr ⟨_, _, _, _, _, rfl, rfl⟩) (fun _ => carried_of_not_moved rfl) rfl
  | walk source => exact .rebind rfl rfl source rfl rfl
  | «open» opening source =>
    exact .rebind opening.rebinds (Opening.movedPaths_eq_none opening) source rfl rfl
  | create source entry there after =>
    subst after
    exact .rebind rfl rfl (directory_eq_ok_iff.mp source).1 rfl rfl
  | make source entry makes records after =>
    subst after
    exact .idle records.movedPaths_eq_none rfl
  | move source source' =>
    exact .relocate (movedPaths_of_directory source source') ⟨_, hx⟩ rfl
  | remove => exact .drop rfl (fun _ => carried_of_not_moved rfl) rfl
  | drop drops =>
    obtain ⟨rfl, -⟩ | ⟨rfl, -⟩ := drops <;>
      exact .drop rfl (fun _ => carried_of_not_moved rfl) rfl

/-- **What every request does to the fids.** -/
theorem perform_fids (s : Share) (r : Request) : s.FidDeed r (s.perform r).2 :=
  (perform_act rfl).fidDeed rfl

/-- **A fid that a request does not bind anew goes along with the nodes that are moved.** -/
theorem perform_fid (hr : ¬ r.Rebinds id) :
    (s.perform r).2.fids[id]? =
      (s.fids[id]?).map fun fid => { fid with path := s.carried r fid.path } := by
  have other : ∀ {k : FidId}, r.Rebinds k → k ≠ id := fun hk h => hr (h ▸ hk)
  cases s.perform_fids r with
  | keep paths fids => simp only [fids, paths, Option.map_id']
  | clear binds fids => exact absurd (binds id) hr
  | bind binds owner paths fids =>
    rw [fids, Std.ExtTreeMap.getElem?_insert]
    simp [other binds, paths]
  | drop binds paths fids =>
    rw [fids, Std.ExtTreeMap.getElem?_erase]
    simp [other binds, paths]
  | relocate moved does fids =>
    rw [fids, Fids.getElem?_relocate]
    simp only [carried_of_moved moved does]

/-- **The owner of a fid is whom an attach asked for**: the first user if it asked for none. -/
theorem perform_owned (hid : (s.perform r).2.fids[id]? = some fid) : s.Owned r fid := by
  have old : ∀ (k : FidId) f, s.fids[k]? = some f → s.Owned r f := fun k f hk =>
    .inl ⟨k, f, hk, rfl⟩
  cases s.perform_fids r with
  | keep paths fids => exact old id fid (fids ▸ hid)
  | clear binds fids =>
    rw [fids] at hid
    cases hid
  | bind binds owner paths fids =>
    rw [fids] at hid
    exact Fids.of_insert (P := s.Owned r) old owner hid
  | drop binds paths fids =>
    rw [fids] at hid
    exact Fids.of_erase (P := s.Owned r) old hid
  | relocate moved does fids =>
    rw [fids, Fids.getElem?_relocate] at hid
    obtain ⟨f, hf, rfl⟩ := Option.map_eq_some_iff.mp hid
    exact .inl ⟨id, f, hf, rfl⟩

/-- A request leaves a fid alone: it does not bind it anew, or fails to do so. -/
def Spares (s : Share) (id : FidId) (r : Request) : Prop :=
  r.Rebinds id → (s.perform r).2.fids[id]? = s.fids[id]?

theorem Spares.perform_fid (hr : s.Spares id r) :
    (s.perform r).2.fids[id]? =
      (s.fids[id]?).map fun fid => { fid with path := s.carried r fid.path } := by
  by_cases hb : r.Rebinds id
  · have hm : s.movedPaths r = none := by cases r <;> first | rfl | exact absurd hb not_false
    rw [hr hb]
    simp only [carried_of_not_moved hm, Option.map_id']
  · exact Share.perform_fid hb

end Share

end GuestShare
