import GuestShare.Proofs.Share.Request

/-!
# The acts of requests

Whatever a request asks for, it comes to one of a few acts: it fails without a trace, looks at the
share, begins a session, binds a fid or lets go of one, edits a node, makes one, moves one or
removes one. What all requests keep is shown for the acts, so that a request that is carried out in
another way is taken apart in one place.

* `Share.Sees`: what is answered by a request that only looks.
* `Share.Opened`, `Request.Opening`: what opening a path comes to, and the requests for it.
* `Share.NewEntry`: the requests for new nodes, with the records of the nodes.
* `Share.Renames`, `Share.Unlinks`: an entry of the host moved, and one removed.
* `Share.Act`: what a request comes to.
* **`perform_act`**: every request comes to such an act.
* `Share.Alters`, **`Act.alters`**: what becomes of the host.
-/

namespace GuestShare

/-- A request to open a fid, and its reply. -/
inductive Request.Opening : Request → FidId → (Qid → UInt32 → Reply) → Prop
  | lopen {id : FidId} {flags : UInt32} : Opening (.lopen id flags) id .lopen
  | open {id : FidId} {mode : UInt8} : Opening (.open id mode) id .open

/-- A request that lets go of fids in any case. -/
def Request.LetsGo : Request → Prop
  | .version .. | .clunk _ | .remove _ => True
  | _ => False

namespace Share

/-! ## Parts of acts -/

/-- What is answered by a request that only looks. -/
inductive Sees (s : Share) : Request → Reply → Prop
  | flush {oldTag : UInt16} : Sees s (.flush oldTag) .flush
  /-- A walk that does not get to its end. -/
  | walk {id newId : FidId} {names : List String} {fid : Fid} (source : s.fids[id]? = some fid)
      (halted : (s.steps fid.path names).length ≠ names.length) :
      Sees s (.walk id newId names) (.walk ((s.steps fid.path names).map Node.qid))
  | readlink {id : FidId} {fid : Fid} {target : String} (source : s.fids[id]? = some fid)
      (link : s.linkText fid.path = .ok (some target)) : Sees s (.readlink id) (.readlink target)
  | getattr {id : FidId} {mask : UInt64} {fid : Fid} {n : Node} (source : s.fids[id]? = some fid)
      (node : s.node fid.path = .ok n) :
      Sees s (.getattr id mask) (.getattr (n.attr s.store s.host))
  | readdir {id : FidId} {offset : UInt64} {count : UInt32} {fid : Fid} {names : List String}
      (source : s.fids[id]? = some fid) (listed : fid.handle = .dir names) :
      Sees s (.readdir id offset count)
        (.readdir (s.entriesFrom fid.path (s.budget count) offset.toNat
          (names.drop offset.toNat)))
  | fsync {id : FidId} {datasync : UInt32} : Sees s (.fsync id datasync) .fsync
  | read {id : FidId} {offset : UInt64} {count : UInt32} {fid : Fid} {d : Descriptor}
      {data : Bytes} (source : s.fids[id]? = some fid) (held : fid.handle = .file d)
      (found : d.read offset.toNat (s.budget count) s.host = .ok data) :
      Sees s (.read id offset count) (.read data)
  | readTarget {id : FidId} {offset : UInt64} {count : UInt32} {fid : Fid} {target : String}
      (source : s.fids[id]? = some fid) (link : s.linkText fid.path = .ok (some target)) :
      Sees s (.read id offset count)
        (.read (((Bytes.ofText target).drop offset.toNat).take (s.budget count)))

/-- What opening a path makes of the handle of a fid, and of the host. -/
inductive Opened (s : Share) (p : GuestPath) : FidHandle → Host → Prop
  | unopened : Opened s p .unopened s.host
  | dir {names : List String} (listed : s.listing p = .ok names) : Opened s p (.dir names) s.host
  /-- A file may be emptied. -/
  | file {d : Descriptor} {place : Place} {h : Host}
      (found : s.host.find .follow (s.hostPath p) = .ok place) (node : d.ino = place.ino)
      (edits : Host.EditsIn (· = place.ino) s.host h) : Opened s p (.file d) h

/-- A request for a node in the directory of a fid: the name, what the node is on the host, the
reply, and the store with the records of the node. The directory has the path `p` and the owner
`uid`. -/
inductive NewEntry (t : Store) (p : GuestPath) (uid : UInt32) (now : Instant) :
    Request → FidId → String → Body → (Qid → Reply) → Store → Prop
  | symlink {id : FidId} {name target : String} {gid : UInt32} :
      NewEntry t p uid now (.symlink id name target gid) id name (.file .empty) .symlink
        ((recordNew t (entryKey p name) .symlink linkMode uid gid now).setSymlink
          (entryKey p name) target)
  | mknod {id : FidId} {name : String} {mode major minor gid : UInt32} {kind : NodeKind}
      {device : Option Device} (hkind : NodeKind.ofMode? mode = some kind)
      (hdevice : deviceOf kind major minor = .ok device) :
      NewEntry t p uid now (.mknod id name mode major minor gid) id name (.file .empty) .mknod
        (recordDevice (recordNew t (entryKey p name) kind mode uid gid now) (entryKey p name)
          device)
  | mkdir {id : FidId} {name : String} {mode gid : UInt32} :
      NewEntry t p uid now (.mkdir id name mode gid) id name (.directory ∅) .mkdir
        (recordNew t (entryKey p name) .directory mode uid gid now)

/-- An entry of one directory goes to another one, unless both names are names of one node. -/
structure Renames (s : Share) (p : GuestPath) (name : String) (p' : GuestPath) (name' : String)
    (dir dir' : Place) (i : Ino) (h : Host) : Prop where
  found : s.host.find .follow (s.hostPath p) = .ok dir
  entry : s.host.lookup dir (Name.ofText name) = .ok (some i)
  found' : s.host.find .follow (s.hostPath p') = .ok dir'
  noNul : (Name.ofText name').contains Name.nul = false
  tree : (s.host.lookup dir' (Name.ofText name') = .ok (some i) ∧ h = s.host) ∨
    (s.host.FreeFor i dir' (Name.ofText name') ∧
      (s.host.isDirectory i = true → dir'.passes i = false) ∧
      h = (s.host.unbind dir.ino (Name.ofText name)).bind dir'.ino (Name.ofText name') i)

/-- An entry with nothing below it is taken out of a directory. -/
structure Unlinks (s : Share) (p : GuestPath) (name : String) (dir : Place) (i : Ino) : Prop where
  found : s.host.find .follow (s.hostPath p) = .ok dir
  entry : s.host.lookup dir (Name.ofText name) = .ok (some i)
  nothing : s.host.isDirectory i = false ∨ s.host.entries? i = some ∅

/-! ## Acts -/

/-- What a request comes to: what is answered, and what is left of the share. -/
inductive Act (s : Share) : Request → Except ShareError Reply → Share → Prop
  /-- Failing without a trace. -/
  | fail {r : Request} {e : ShareError} (keeps : ¬ r.LetsGo) : Act s r (.error e) s
  | look {r : Request} {reply : Reply} (sees : s.Sees r reply) : Act s r (.ok reply) s
  | begin {msize : UInt32} {v : String} :
      Act s (.version msize v) (.ok (.version msize protocolVersion))
        { s.reset with msize := max msize (readOverhead + 1) }
  /-- Attaching fails, but what was made of the exported directory stays. -/
  | makeRoot {id afid : FidId} {uname aname : String} {uid : UInt32} {e : ShareError} {h : Host}
      (made : (Host.makeDirs (Path.ofNames s.root) s.host).2 = h) :
      Act s (.attach id afid uname aname uid) (.error e) (s.on h)
  | attach {id afid : FidId} {uname aname : String} {uid : UInt32} {n : Node} {h : Host}
      (made : (Host.makeDirs (Path.ofNames s.root) s.host).2 = h)
      (node : (s.on h).node [] = .ok n) :
      Act s (.attach id afid uname aname uid) (.ok (.attach n.qid))
        ((s.on h).bindFid id ⟨[], if uid = noId then 0 else uid, .unopened⟩)
  | walk {id newId : FidId} {names : List String} {fid : Fid} {p : GuestPath}
      (source : s.fids[id]? = some fid) (whole : (s.steps fid.path names).length = names.length)
      (path : p = fid.path ∨ ∃ n ∈ s.steps fid.path names, p = n.path) :
      Act s (.walk id newId names) (.ok (.walk ((s.steps fid.path names).map Node.qid)))
        (s.bindFid newId { fid with path := p, handle := .unopened })
  | open {r : Request} {id : FidId} {make : Qid → UInt32 → Reply} {fid : Fid} {n : Node}
      {handle : FidHandle} {h : Host} (opening : r.Opening id make)
      (source : s.fids[id]? = some fid) (node : s.node fid.path = .ok n)
      (opened : s.Opened fid.path handle h) :
      Act s r (.ok (make n.qid s.iounit)) ((s.on h).bindFid id { fid with handle })
  /-- A file that is there may be emptied; otherwise there is a new one. -/
  | create {id : FidId} {name : String} {flags mode gid : UInt32} {fid : Fid} {d : Descriptor}
      {n : Node} {h : Host} {s' : Share} (source : s.directory id = .ok fid)
      (entry : isEntryName name = true)
      (there : (∃ dir, s.host.find .follow (s.hostPath fid.path) = .ok dir ∧
          s.host.lookup dir (Name.ofText name) = .ok (some d.ino) ∧
          s.host.isDirectory d.ino = false ∧ Host.EditsIn (· = d.ino) s.host h) ∨
        (d.ino = s.host.nodes.size ∧ s.Makes fid.path name (.file .empty) h))
      (after : s' = { s with
        host := h
        store := recordNew s.store (entryKey fid.path name) .file mode fid.uid gid h.clock
        fids := s.fids.insert id { fid with path := fid.path ++ [name], handle := .file d } })
      (node : s'.node (fid.path ++ [name]) = .ok n) :
      Act s (.lcreate id name flags mode gid) (.ok (.lcreate n.qid s.iounit)) s'
  | make {r : Request} {id : FidId} {name : String} {b : Body} {make : Qid → Reply} {fid : Fid}
      {t : Store} {n : Node} {h : Host} {s' : Share} (source : s.directory id = .ok fid)
      (entry : isEntryName name = true) (makes : s.Makes fid.path name b h)
      (records : NewEntry s.store fid.path fid.uid h.clock r id name b make t)
      (after : s' = { s with host := h, store := t })
      (node : s'.node (fid.path ++ [name]) = .ok n) : Act s r (.ok (make n.qid)) s'
  /-- Setting attributes may fail after the size has been set. -/
  | set {id : FidId} {a : SetAttr} {x : Except ShareError Reply} {fid : Fid} {n : Node}
      {h : Host} {t : Store} (source : s.fids[id]? = some fid) (node : s.node fid.path = .ok n)
      (edits : Host.EditsIn
        (fun i => ∃ place, s.host.find .follow (s.hostPath fid.path) = .ok place ∧ i = place.ino)
        s.host h)
      (records : t = s.store ∨ ∃ perms, t = s.store.setPermission n.key perms ∧
        perms.mode =
          (changedRecord ((s.store.permission n.key).getD n.defaultPermission) a).mode)
      (answers : ∀ reply, x = .ok reply → reply = .setattr) :
      Act s (.setattr id a) x { s with host := h, store := t }
  /-- Writing may fail after it has been done. -/
  | write {id : FidId} {offset : UInt64} {data : Bytes} {x : Except ShareError Reply} {fid : Fid}
      {d : Descriptor} {h : Host} (source : s.fids[id]? = some fid)
      (held : fid.handle = .file d) (edits : Host.EditsIn (· = d.ino) s.host h)
      (answers : ∀ reply, x = .ok reply → ∃ count, reply = .write count) :
      Act s (.write id offset data) x (s.on h)
  | move {oldId newId : FidId} {oldName newName : String} {old new : Fid} {dir dir' : Place}
      {i : Ino} {h : Host} (source : s.directory oldId = .ok old)
      (source' : s.directory newId = .ok new) (entry : isEntryName oldName = true)
      (entry' : isEntryName newName = true)
      (renames : s.Renames old.path oldName new.path newName dir dir' i h) :
      Act s (.renameat oldId oldName newId newName) (.ok .renameat) { s with
        host := h
        store := s.store.rename (entryKey old.path oldName) (entryKey new.path newName)
        fids := s.fids.relocate (old.path ++ [oldName]) (new.path ++ [newName]) }
  | unlink {id : FidId} {name : String} {flags : UInt32} {fid : Fid} {dir : Place} {i : Ino}
      (source : s.directory id = .ok fid) (entry : isEntryName name = true)
      (unlinks : s.Unlinks fid.path name dir i) :
      Act s (.unlinkat id name flags) (.ok .unlinkat) { s with
        host := s.host.unbind dir.ino (Name.ofText name)
        store := s.store.delete (entryKey fid.path name) }
  | remove {id : FidId} {fid : Fid} {p : GuestPath} {name : String} {dir : Place} {i : Ino}
      (source : s.fids[id]? = some fid) (path : fid.path = p ++ [name])
      (unlinks : s.Unlinks p name dir i) :
      Act s (.remove id) (.ok .remove) { s with
        host := s.host.unbind dir.ino (Name.ofText name)
        store := s.store.delete (entryKey p name)
        fids := s.fids.erase id }
  /-- A fid is let go of, whether or not its node was to be removed as well. -/
  | drop {r : Request} {id : FidId} {x : Except ShareError Reply}
      (drops : (r = .clunk id ∧ x = .ok .clunk) ∨ (r = .remove id ∧ ∃ e, x = .error e)) :
      Act s r x (s.dropFid id)

variable {s s' : Share} {r : Request} {x : Except ShareError Reply} {reply : Reply} {a : Answer}
  {id newId : FidId} {p : GuestPath} {name : String}

/-! ## Every request -/

theorem act_of_traceless (hr : ¬ r.LetsGo) (ht : s.Traceless (x, s'))
    (hx : ∀ reply, x = .ok reply → Act s r x s') : Act s r x s' := by
  cases x with
  | error e =>
    obtain rfl : s' = s := ht e rfl
    exact .fail hr
  | ok reply => exact hx reply rfl

theorem act_of_settle (hr : ¬ r.LetsGo) (ho : s.settle a = (x, s'))
    (ha : ∀ reply, a = .ok (reply, s') → Act s r (.ok reply) s') : Act s r x s' := by
  refine act_of_traceless hr (ho ▸ settle_traceless) fun reply hx => ?_
  subst hx
  exact ha reply (settle_eq_ok_iff.mp ho)

theorem attach_act {afid : FidId} {uname aname : String} {uid : UInt32}
    (ho : s.attach id uid = (x, s')) : Act s (.attach id afid uname aname uid) x s' := by
  obtain ⟨e, h, hm, he⟩ | ⟨h, hm, he⟩ := s.attach_cases id uid
  · cases he.symm.trans ho
    exact .makeRoot (congrArg Prod.snd hm)
  · have ho := he.symm.trans ho
    cases x with
    | error e =>
      have hsame : (s.on h).Traceless (.error e, s') := ho ▸ settle_traceless
      obtain rfl : s' = s.on h := hsame e rfl
      exact .makeRoot (congrArg Prod.snd hm)
    | ok reply =>
      obtain ⟨n, hn, rfl, rfl⟩ := bindRoot_eq_ok (settle_eq_ok_iff.mp ho)
      exact .attach (congrArg Prod.snd hm) hn

theorem walk_act {names : List String} (ho : s.walk id newId names = .ok (reply, s')) :
    Act s (.walk id newId names) (.ok reply) s' := by
  obtain ⟨fid, hid, rfl, ⟨hwhole, path, hpath, rfl⟩ | ⟨hhalted, rfl⟩⟩ := walk_eq_ok ho
  · exact .walk hid hwhole hpath
  · exact .look (.walk hid hhalted)

theorem openFor_act {acc : Access} {make : Qid → UInt32 → Reply} (hr : r.Opening id make)
    (ho : s.openFor id acc make = (x, s')) : Act s r x s' := by
  have hkeeps : ¬ r.LetsGo := by cases hr <;> exact not_false
  refine act_of_traceless hkeeps (ho ▸ openFor_traceless) fun reply hx => ?_
  subst hx
  obtain ⟨fid, n, hid, hn, rfl, hcase⟩ := openFor_eq_ok ho
  obtain rfl | ⟨names, hl, rfl⟩ | ⟨d, h, place, hf, hd, hedit, rfl⟩ := hcase
  · exact .open hr hid hn .unopened
  · exact .open hr hid hn (.dir hl)
  · exact .open hr hid hn (.file hf hd hedit)

/-- The size and the times are set at the same place, since the tree is the same. -/
theorem setattr_act {attr : SetAttr} (ho : s.setattr id attr = (x, s')) :
    Act s (.setattr id attr) x s' := by
  obtain ⟨e, rfl, rfl⟩ | ⟨fid, n, h, h', t, hid, hn, rfl, hh, hh', ht, hr⟩ := setattr_cases ho
  · exact .fail not_false
  have hsize : Host.EditsIn
      (fun i => ∃ place, s.host.find .follow (s.hostPath fid.path) = .ok place ∧ i = place.ino)
      s.host h := by
    obtain rfl | ⟨place, hf, hedit⟩ := hh
    · exact .refl
    · exact hedit.mono fun i hi => ⟨place, hf, hi⟩
  refine .set hid hn (hsize.trans ?_) ht hr
  obtain rfl | ⟨place, hf, hedit⟩ := hh'
  · exact .refl
  · rw [hsize.sameTree.find] at hf
    exact hedit.mono fun i hi => ⟨place, hf, hi⟩

theorem renameat_act {oldId : FidId} {oldName newName : String}
    (ho : s.renameat oldId oldName newId newName = .ok (reply, s')) :
    Act s (.renameat oldId oldName newId newName) (.ok reply) s' := by
  obtain ⟨old, new, i, n, h, hold, hnew, hon, hnn, -, hr, rfl, rfl⟩ := renameat_eq_ok ho
  rw [hostPath_concat, hostPath_concat] at hr
  obtain ⟨dir, dir', j, hf, hl, hf', hnul, htree⟩ := Host.rename_child_eq_ok hr
  exact .move hold hnew hon hnn ⟨hf, hl, hf', hnul, htree⟩

theorem unlinkat_act {flags : UInt32} (ho : s.unlinkat id name flags = .ok (reply, s')) :
    Act s (.unlinkat id name flags) (.ok reply) s' := by
  obtain ⟨fid, mustBeDir, hid, hname, hr, rfl⟩ := unlinkat_eq_ok ho
  obtain ⟨dir, i, n, -, hf, hl, hi, rfl⟩ := removeAt_eq_ok hr
  exact .unlink hid hname ⟨hf, hl, hi⟩

theorem remove_act (ho : s.remove id = (x, s')) : Act s (.remove id) x s' := by
  obtain ⟨e, rfl, rfl⟩ | ⟨fid, p, name, hid, hpath, hr, rfl⟩ := remove_cases ho
  · exact .drop (.inr ⟨rfl, e, rfl⟩)
  · obtain ⟨dir, i, n, -, hf, hl, hi, rfl⟩ := removeAt_eq_ok hr
    exact .remove hid hpath ⟨hf, hl, hi⟩

/-- **Every request comes to one of these acts.** -/
theorem perform_act (ho : s.perform r = (x, s')) : Act s r x s' := by
  cases r with
  | version msize v =>
    cases ho
    exact .begin
  | attach fid afid uname aname uid => exact attach_act ho
  | flush oldTag =>
    cases ho
    exact .look .flush
  | walk fid newFid names => exact act_of_settle not_false ho fun _ ho => walk_act ho
  | lopen fid flags => exact openFor_act .lopen ho
  | «open» fid mode => exact openFor_act .open ho
  | lcreate fid name flags mode gid =>
    refine act_of_traceless not_false (ho ▸ lcreate_traceless) fun reply hx => ?_
    subst hx
    obtain ⟨f, d, h, n, hd, hn, -, hcase, hs', hnode, rfl⟩ := lcreate_eq_ok ho
    exact .create hd hn hcase hs' hnode
  | symlink fid name target gid =>
    refine act_of_traceless not_false (ho ▸ symlink_traceless) fun reply hx => ?_
    subst hx
    obtain ⟨f, h, n, hd, hn, hm, hs', hnode, rfl⟩ := symlink_eq_ok ho
    exact .make hd hn hm .symlink hs' hnode
  | mknod fid name mode major minor gid =>
    refine act_of_traceless not_false (ho ▸ mknod_traceless) fun reply hx => ?_
    subst hx
    obtain ⟨f, h, n, kind, device, hkind, hdev, hd, hn, hm, hs', hnode, rfl⟩ := mknod_eq_ok ho
    exact .make hd hn hm (.mknod hkind hdev) hs' hnode
  | readlink fid =>
    refine act_of_settle not_false ho fun _ ho => ?_
    obtain ⟨f, t, hf, ht, rfl, rfl⟩ := readlink_eq_ok_iff.mp ho
    exact .look (.readlink hf ht)
  | getattr fid mask =>
    refine act_of_settle not_false ho fun _ ho => ?_
    obtain ⟨f, n, hf, hn, rfl, rfl⟩ := getattr_eq_ok_iff.mp ho
    exact .look (.getattr hf hn)
  | setattr fid attr => exact setattr_act ho
  | readdir fid offset count =>
    refine act_of_settle not_false ho fun _ ho => ?_
    obtain ⟨f, names, hf, hh, rfl, rfl⟩ := readdir_eq_ok ho
    exact .look (.readdir hf hh)
  | fsync fid datasync =>
    refine act_of_settle not_false ho fun _ ho => ?_
    obtain ⟨rfl, rfl⟩ := fsync_eq_ok ho
    exact .look .fsync
  | mkdir fid name mode gid =>
    refine act_of_traceless not_false (ho ▸ mkdir_traceless) fun reply hx => ?_
    subst hx
    obtain ⟨f, h, n, hd, hn, hm, hs', hnode, rfl⟩ := mkdir_eq_ok ho
    exact .make hd hn hm .mkdir hs' hnode
  | renameat oldFid oldName newFid newName =>
    exact act_of_settle not_false ho fun _ ho => renameat_act ho
  | unlinkat fid name flags => exact act_of_settle not_false ho fun _ ho => unlinkat_act ho
  | read fid offset count =>
    refine act_of_settle not_false ho fun _ ho => ?_
    obtain ⟨f, hf, rfl, ⟨d, data, hh, hd, rfl⟩ | ⟨t, ht, rfl⟩⟩ := read_eq_ok ho
    · exact .look (.read hf hh hd)
    · exact .look (.readTarget hf ht)
  | write fid offset data =>
    obtain ⟨e, rfl, rfl⟩ | ⟨f, d, h, hf, hh, hedit, rfl, hr⟩ := write_cases ho
    · exact .fail not_false
    · exact .write hf hh hedit hr
  | clunk fid =>
    cases ho
    exact .drop (.inl ⟨rfl, rfl⟩)
  | remove fid => exact remove_act ho
  | unknown code =>
    cases ho
    exact .fail not_false

/-! ## What becomes of the host -/

theorem NewEntry.bare {t t' : Store} {uid : UInt32} {now : Instant} {b : Body} {make : Qid → Reply}
    (he : NewEntry t p uid now r id name b make t') : b.Bare := by
  cases he with
  | symlink | mknod => exact Body.bare_file _
  | mkdir => exact Body.bare_directory

/-- What an act makes of the host, wherever in the tree that is. -/
inductive Alters (s : Share) : Host → Prop
  | same : Alters s s.host
  | makeRoot {h : Host} (made : (Host.makeDirs (Path.ofNames s.root) s.host).2 = h) : Alters s h
  | edit {I : Ino → Prop} {h : Host} (edits : Host.EditsIn I s.host h) : Alters s h
  | make {p : GuestPath} {name : String} {b : Body} {h : Host} (makes : s.Makes p name b h)
      (bare : b.Bare) (entry : isEntryName name = true) : Alters s h
  | move {p p' : GuestPath} {name name' : String} {dir dir' : Place} {i : Ino} {h : Host}
      (entry' : isEntryName name' = true) (renames : s.Renames p name p' name' dir dir' i h) :
      Alters s h
  | unlink {d : Ino} {name : Name} : Alters s (s.host.unbind d name)

theorem Act.alters (ha : Act s r x s') : s.Alters s'.host := by
  cases ha with
  | makeRoot made | attach made node => exact .makeRoot made
  | «open» opening source node opened =>
    cases opened with
    | unopened | dir => exact .same
    | file found node edits => exact .edit edits
  | create source entry there after node =>
    subst after
    obtain ⟨dir, -, -, -, edits⟩ | ⟨-, makes⟩ := there
    · exact .edit edits
    · exact .make makes (Body.bare_file _) entry
  | make source entry makes records after node =>
    subst after
    exact .make makes records.bare entry
  | set source node edits => exact .edit edits
  | write source held edits => exact .edit edits
  | move source source' entry entry' renames => exact .move entry' renames
  | unlink | remove => exact .unlink
  | _ => exact .same

end Share

end GuestShare
