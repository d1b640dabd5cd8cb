import GuestShare.Proofs.Share.Lookup

/-!
# What a request does

Each request that goes well is one of a few steps: it looks at nodes, binds a fid, makes a node in a
directory, edits a file, moves an entry or removes one. The lemmas here take a request apart once
and for all.

* `Fids.of_insert`, `Fids.of_erase`, `Fids.of_relocate`: what holds of all fids after they changed.
* `Share.Makes`: a new node in a directory.
* `Share.Traceless`: requests that leave no trace when they fail.
* **`lcreate_eq_ok`**, **`symlink_eq_ok`**, **`mknod_eq_ok`**, **`mkdir_eq_ok`**: making nodes.
* **`renameat_eq_ok`**, **`removeAt_eq_ok`**: moving and removing entries.
* **`setattr_cases`**, **`openFor_eq_ok`**, **`write_cases`**: editing files and opening them.
-/

namespace GuestShare

namespace Fids

variable {P : Fid → Prop} {t : Fids} {id k : FidId} {fid f : Fid} {old new : GuestPath}

theorem of_insert (ht : ∀ (k : FidId) f, t[k]? = some f → P f) (hf : P fid)
    (hk : (t.insert id fid)[k]? = some f) : P f := by
  rw [Std.ExtTreeMap.getElem?_insert] at hk
  split_ifs at hk
  · cases hk
    exact hf
  · exact ht k f hk

theorem of_erase (ht : ∀ (k : FidId) f, t[k]? = some f → P f) (hk : (t.erase id)[k]? = some f) :
    P f := by
  rw [Std.ExtTreeMap.getElem?_erase] at hk
  split_ifs at hk
  exact ht k f hk

theorem of_relocate (ht : ∀ (k : FidId) f, t[k]? = some f → P f)
    (hm : ∀ f rest, f.path = old ++ rest → P f → P { f with path := new ++ rest })
    (hk : (t.relocate old new)[k]? = some f) : P f := by
  unfold relocate at hk
  rw [Std.ExtTreeMap.getElem?_map, Option.map_eq_some_iff] at hk
  obtain ⟨f', hf', rfl⟩ := hk
  have hP : P f' := ht k f' hf'
  split
  next rest hrest => exact hm f' rest (behind?_eq_some_iff.mp hrest) hP
  next => exact hP

end Fids

namespace Share

variable {s s' : Share} {id newId : FidId} {fid : Fid} {p q : GuestPath} {name : String}
  {reply : Reply} {h : Host} {flags mode gid uid : UInt32}

/-- The directory of a path gets a new node. -/
def Makes (s : Share) (p : GuestPath) (name : String) (b : Body) (h : Host) : Prop :=
  ∃ dir mode, s.host.find .follow (s.hostPath p) = .ok dir ∧ Host.Fits (Name.ofText name) ∧
    s.host.lookup dir (Name.ofText name) = .ok none ∧
    h = (s.host.create dir.ino (Name.ofText name) b mode).2

/-! ## Failing -/

/-- A request that fails leaves no trace. -/
def Traceless (s : Share) (x : Except ShareError Reply × Share) : Prop :=
  ∀ e, x.1 = .error e → x.2 = s

section Settle

variable {α : Type} {a : Answer} {first : Except ShareError (α × Share)}
  {second : α → Share → Answer}

theorem settle_eq_ok_iff : s.settle a = (.ok reply, s') ↔ a = .ok (reply, s') := by
  rcases a with e | ⟨r, t⟩ <;> simp [settle]

theorem settle_traceless : s.Traceless (s.settle a) := by
  rcases a with e | ⟨r, t⟩
  · exact fun _ _ => rfl
  · exact fun _ he => by cases he

theorem settleThen_eq_ok_iff :
    s.settleThen first second = (.ok reply, s') ↔
      ∃ a t, first = .ok (a, t) ∧ second a t = .ok (reply, s') := by
  rcases first with e | ⟨a, t⟩
  · simp [settleThen]
  · simp only [settleThen, settle_eq_ok_iff, Except.ok.injEq, Prod.mk.injEq]
    exact ⟨fun h => ⟨a, t, ⟨rfl, rfl⟩, h⟩, by rintro ⟨_, _, ⟨rfl, rfl⟩, h⟩; exact h⟩

theorem settleThen_traceless
    (hsecond : ∀ a t, first = .ok (a, t) → (∃ reply s', second a t = .ok (reply, s')) ∨ t = s) :
    s.Traceless (s.settleThen first second) := by
  rcases first with e | ⟨a, t⟩
  · exact fun _ _ => rfl
  · obtain ⟨reply, s', hs'⟩ | rfl := hsecond a t rfl
    · intro e he
      rw [settleThen, hs'] at he
      cases he
    · exact settle_traceless

end Settle

theorem entryPath_eq_ok_iff :
    entryPath p name = .ok q ↔ isEntryName name = true ∧ q = p ++ [name] := by
  unfold entryPath
  split_ifs with hn
  · simp [hn, eq_comm]
  · simp [hn]

/-! ## Walking -/

theorem bindRoot_eq_ok (ho : s.bindRoot id uid = .ok (reply, s')) :
    ∃ n, s.node [] = .ok n ∧ reply = .attach n.qid ∧
      s' = s.bindFid id ⟨[], if uid = noId then 0 else uid, .unopened⟩ := by
  obtain ⟨n, hn, ho⟩ := Outcome.bind_eq_ok_iff.mp ho
  cases ho
  exact ⟨n, hn, rfl, rfl⟩

theorem attach_cases (s : Share) (id : FidId) (uid : UInt32) :
    (∃ e h, Host.makeDirs (Path.ofNames s.root) s.host = (.error e, h) ∧
        s.attach id uid = (.error (.host e), s.on h)) ∨
      ∃ h, Host.makeDirs (Path.ofNames s.root) s.host = (.ok (), h) ∧
        s.attach id uid = (s.on h).settle ((s.on h).bindRoot id uid) := by
  unfold attach
  rcases hm : Host.makeDirs (Path.ofNames s.root) s.host with ⟨e | ⟨⟩, h⟩
  · exact .inl ⟨e, h, rfl, rfl⟩
  · exact .inr ⟨h, rfl, rfl⟩

theorem Sound.makeRoot_eq (hs : s.Sound) :
    (Host.makeDirs (Path.ofNames s.root) s.host).2 = s.host := by
  rw [Host.makeDirs_of_leadsToDirectory hs.leadsToDirectory_root]

theorem step_eq_some {n : Node} (hn : s.step p name = some n) :
    isPlainName name = true ∧ s.node (p.next name) = .ok n ∧
      s.staysInside (p.next name) = true := by
  unfold step at hn
  split_ifs at hn with hplain
  simp only at hn
  split at hn
  next => cases hn
  next m hm =>
    split_ifs at hn with hin
    cases hn
    exact ⟨by simpa using hplain, hm, hin⟩

theorem path_of_node {n : Node} (hn : s.node p = .ok n) : n.path = p := by
  rw [(node_eq_ok_iff.mp hn).2]
  rfl

theorem walk_eq_ok {names : List String} (ho : s.walk id newId names = .ok (reply, s')) :
    ∃ fid, s.fids[id]? = some fid ∧ reply = .walk ((s.steps fid.path names).map Node.qid) ∧
      (((s.steps fid.path names).length = names.length ∧
          ∃ path, (path = fid.path ∨ ∃ n ∈ s.steps fid.path names, path = n.path) ∧
            s' = s.bindFid newId { fid with path, handle := .unopened }) ∨
        ((s.steps fid.path names).length ≠ names.length ∧ s' = s)) := by
  obtain ⟨fid, hid, ho⟩ := Outcome.bind_eq_ok_iff.mp ho
  refine ⟨fid, fids_find_eq_ok_iff.mp hid, ?_⟩
  by_cases hnil : names.isEmpty = true
  · simp only [hnil, if_true] at ho
    cases ho
    obtain rfl := List.isEmpty_iff.mp hnil
    exact ⟨rfl, .inl ⟨rfl, fid.path, .inl rfl, rfl⟩⟩
  · simp only [hnil, Bool.false_eq_true, if_false] at ho
    split at ho
    next => cases ho
    next last hlast =>
      by_cases hlen : (s.steps fid.path names).length = names.length
      · simp only [hlen, if_true] at ho
        cases ho
        exact ⟨rfl, .inl ⟨hlen, last.path, .inr ⟨last, List.mem_of_getLast? hlast, rfl⟩, rfl⟩⟩
      · simp only [hlen, if_false] at ho
        cases ho
        exact ⟨rfl, .inr ⟨hlen, rfl⟩⟩

/-! ## Looking -/

theorem linkText_eq_ok {o : Option String} (ho : s.linkText p = .ok o) :
    (∃ t, s.store.symlink p.key = some t ∧ o = some t) ∨
      (s.store.symlink p.key = none ∧ ∃ i n, s.inspect p = .ok (i, n) ∧
        ((∃ b, n.body = .link b ∧ o = some (Text.ofBytes b)) ∨
          (n.body.isLink = false ∧ o = none))) := by
  unfold linkText at ho
  split at ho
  next t ht =>
    cases ho
    exact .inl ⟨t, ht, rfl⟩
  next ht =>
    obtain ⟨⟨i, n⟩, hi, ho⟩ := Outcome.bind_eq_ok_iff.mp ho
    refine .inr ⟨ht, i, n, hi, ?_⟩
    simp only at ho
    cases hb : n.body with
    | link b =>
      rw [hb] at ho
      cases ho
      exact .inl ⟨b, rfl, rfl⟩
    | _ =>
      rw [hb] at ho
      cases ho
      exact .inr ⟨rfl, rfl⟩

theorem readlink_eq_ok_iff :
    s.readlink id = .ok (reply, s') ↔
      ∃ fid t, s.fids[id]? = some fid ∧ s.linkText fid.path = .ok (some t) ∧
        reply = .readlink t ∧ s' = s := by
  unfold readlink
  simp only [Outcome.bind_eq_ok_iff, fids_find_eq_ok_iff]
  constructor
  · rintro ⟨fid, hid, o, ho, he⟩
    cases o with
    | none => cases he
    | some t =>
      cases he
      exact ⟨fid, t, hid, ho, rfl, rfl⟩
  · rintro ⟨fid, t, hid, ho, rfl, rfl⟩
    exact ⟨fid, hid, some t, ho, rfl⟩

theorem getattr_eq_ok_iff :
    s.getattr id = .ok (reply, s') ↔
      ∃ fid n, s.fids[id]? = some fid ∧ s.node fid.path = .ok n ∧
        reply = .getattr (n.attr s.store s.host) ∧ s' = s := by
  unfold getattr
  simp only [Outcome.bind_eq_ok_iff, fids_find_eq_ok_iff, Outcome.pure_eq_ok, Except.ok.injEq,
    Prod.mk.injEq]
  constructor
  · rintro ⟨fid, hid, n, hn, rfl, rfl⟩
    exact ⟨fid, n, hid, hn, rfl, rfl⟩
  · rintro ⟨fid, n, hid, hn, rfl, rfl⟩
    exact ⟨fid, hid, n, hn, rfl, rfl⟩

theorem getattr_eq_ok {i : Ino} {n : Inode} (hid : s.fids[id]? = some fid)
    (hi : s.inspect fid.path = .ok (i, n)) :
    s.getattr id = .ok (.getattr ((s.nodeOf fid.path i n).attr s.store s.host), s) :=
  getattr_eq_ok_iff.mpr ⟨fid, _, hid, node_of_inspect hi, rfl, rfl⟩

/-! ## Opening -/

theorem openNode_eq_ok {a : Access} {n : Node} {t : Share}
    (ho : s.openNode id a = .ok ((fid, n), t)) :
    ∃ f handle, s.fids[id]? = some f ∧ s.node f.path = .ok n ∧ fid = { f with handle } ∧
      ((handle = .unopened ∧ t = s) ∨
        (∃ names, s.listing f.path = .ok names ∧ handle = .dir names ∧ t = s) ∨
        ∃ d h, s.host.openAt (s.hostPath f.path) a.how = .ok (d, h) ∧ handle = .file d ∧
          t = s.on h) := by
  obtain ⟨f, hid, ho⟩ := Outcome.bind_eq_ok_iff.mp ho
  obtain ⟨m, hm, ho⟩ := Outcome.bind_eq_ok_iff.mp ho
  simp only at ho
  split at ho
  next =>
    obtain ⟨names, hnames, ho⟩ := Outcome.bind_eq_ok_iff.mp ho
    cases ho
    exact ⟨f, _, fids_find_eq_ok_iff.mp hid, hm, rfl, .inr (.inl ⟨names, hnames, rfl, rfl⟩)⟩
  next =>
    cases ho
    exact ⟨f, _, fids_find_eq_ok_iff.mp hid, hm, rfl, .inl ⟨rfl, rfl⟩⟩
  next =>
    by_cases hfile : m.inode.body.isFile = true
    · simp only [hfile, if_true] at ho
      obtain ⟨⟨d, h₁⟩, hopen, ho⟩ := Outcome.bind_eq_ok_iff.mp ho
      cases ho
      exact ⟨f, _, fids_find_eq_ok_iff.mp hid, hm, rfl,
        .inr (.inr ⟨d, h₁, Outcome.mapError_eq_ok_iff.mp hopen, rfl, rfl⟩)⟩
    · simp only [hfile, Bool.false_eq_true, if_false] at ho
      cases ho
      exact ⟨f, _, fids_find_eq_ok_iff.mp hid, hm, rfl, .inl ⟨rfl, rfl⟩⟩

theorem openAt_how_eq_ok {a : Access} {path : Path} {h h' : Host} {d : Descriptor}
    (ho : h.openAt path a.how = .ok (d, h')) :
    ∃ place, h.find .follow path = .ok place ∧ d.ino = place.ino ∧
      h.openNode place.ino a.how = .ok (d, h') := by
  rcases Host.openAt_eq_ok ho with ⟨place, hf, -, hnode⟩ | ⟨dir, n, -, hnever, -⟩
  · obtain ⟨rfl, -⟩ := Host.openNode_eq_ok hnode
    exact ⟨place, hf, rfl, hnode⟩
  · exact absurd rfl hnever

theorem emptyOpened_editsIn {a : Access} {d : Descriptor} {h h' : Host}
    (ho : a.emptyOpened (.file d) h = .ok h') : Host.EditsIn (· = d.ino) h h' := by
  simp only [Access.emptyOpened] at ho
  split_ifs at ho
  · exact Host.setLength_editsIn ho
  · cases ho
    exact .refl

/-- **Opening a fid** edits at most the file to which its path leads. -/
theorem openFor_eq_ok {a : Access} {make : Qid → UInt32 → Reply}
    (ho : s.openFor id a make = (.ok reply, s')) :
    ∃ fid n, s.fids[id]? = some fid ∧ s.node fid.path = .ok n ∧ reply = make n.qid s.iounit ∧
      ((s' = s.bindFid id { fid with handle := .unopened }) ∨
        (∃ names, s.listing fid.path = .ok names ∧
          s' = s.bindFid id { fid with handle := .dir names }) ∨
        ∃ d h place, s.host.find .follow (s.hostPath fid.path) = .ok place ∧ d.ino = place.ino ∧
          Host.EditsIn (· = place.ino) s.host h ∧
          s' = (s.on h).bindFid id { fid with handle := .file d }) := by
  obtain ⟨⟨fid', n⟩, t, hopen, ho⟩ := settleThen_eq_ok_iff.mp ho
  obtain ⟨h', hempty, ho⟩ := Outcome.bind_eq_ok_iff.mp ho
  have hempty := Outcome.mapError_eq_ok_iff.mp hempty
  obtain ⟨fid, handle, hid, hn, rfl, hcase⟩ := openNode_eq_ok hopen
  rcases hcase with ⟨rfl, rfl⟩ | ⟨names, hnames, rfl, rfl⟩ | ⟨d, h, hat, rfl, rfl⟩
  · cases hempty
    cases ho
    exact ⟨fid, n, hid, hn, rfl, .inl rfl⟩
  · cases hempty
    cases ho
    exact ⟨fid, n, hid, hn, rfl, .inr (.inl ⟨names, hnames, rfl⟩)⟩
  · cases ho
    obtain ⟨place, hf, hd, hnode⟩ := openAt_how_eq_ok hat
    obtain ⟨-, hedit, -⟩ := Host.openNode_eq_ok hnode
    refine ⟨fid, n, hid, hn, rfl, .inr (.inr ⟨d, h', place, hf, hd, ?_, rfl⟩)⟩
    exact hedit.trans (hd ▸ emptyOpened_editsIn hempty)

/-- A file that is to be emptied once it is open is not changed by opening it, and otherwise nothing
fails after that. -/
theorem openFor_traceless {a : Access} {make : Qid → UInt32 → Reply} :
    s.Traceless (s.openFor id a make) := by
  refine settleThen_traceless fun ⟨fid', n⟩ t hopen => ?_
  obtain ⟨fid, handle, -, -, rfl, hcase⟩ := openNode_eq_ok hopen
  rcases hcase with ⟨rfl, rfl⟩ | ⟨names, -, rfl, rfl⟩ | ⟨d, h, hat, rfl, rfl⟩
  · exact .inl ⟨_, _, rfl⟩
  · exact .inl ⟨_, _, rfl⟩
  · by_cases hc : (a.write && a.truncate && a.append) = true
    · refine .inr ?_
      obtain ⟨place, -, -, hnode⟩ := openAt_how_eq_ok hat
      rw [Host.openNode_eq_self hnode (by simp_all [Access.how])]
      rfl
    · exact .inl ⟨_, _, by simp only [Access.emptyOpened, hc]; rfl⟩

/-! ## Making nodes -/

theorem openAt_entry_eq_ok {how : OpenHow} {d : Descriptor} (hkeep : how.whenLink = .keep)
    (ho : s.host.openAt (s.hostPath (p ++ [name])) how = .ok (d, h)) :
    (∃ dir n, s.inspect (p ++ [name]) = .ok (d.ino, n) ∧
        s.host.find .follow (s.hostPath p) = .ok dir ∧
        s.host.lookup dir (Name.ofText name) = .ok (some d.ino) ∧
        how.creation ≠ .mustBeNew ∧ s.host.openNode d.ino how = .ok (d, h)) ∨
      (d.ino = s.host.nodes.size ∧ s.Makes p name (.file .empty) h) := by
  rw [hostPath_concat] at ho
  rcases Host.openAt_eq_ok ho with ⟨place, hf, hnew, hnode⟩ | ⟨dir, n, hl, -, rfl, rfl⟩
  · rw [hkeep] at hf
    obtain ⟨hn, dir, i, hdir, hi, rfl⟩ := Host.find_keep_child_eq_ok_iff.mp hf
    obtain ⟨n, hnode'⟩ := Option.isSome_iff_exists.mp
      (Host.node?_isSome_iff.mpr (Host.lt_size_of_openNode hnode))
    obtain ⟨rfl, -⟩ := Host.openNode_eq_ok hnode
    exact .inl ⟨dir, n, inspect_concat_eq_ok_iff.mpr ⟨hn, dir, hdir, hi, hnode'⟩, hdir, hi, hnew,
      hnode⟩
  · rw [hkeep, Host.locate_keep_child] at hl
    obtain ⟨hn, dir', hdir, he⟩ := Host.slot_child_eq_ok_iff.mp hl
    obtain ⟨hlook, he⟩ | ⟨i, -, he⟩ := Host.enter_down_eq_ok_iff.mp he
    · cases he
      exact .inr ⟨rfl, dir, _, hdir, ⟨hn, (Host.lookup_eq_ok_iff.mp hlook).2.1⟩, hlook, rfl⟩
    · cases he

theorem makePlace_eq_ok (ho : s.makePlace (p ++ [name]) = .ok h) :
    s.Makes p name (.file .empty) h := by
  obtain ⟨⟨d, h₁⟩, ho, he⟩ := Outcome.bind_eq_ok_iff.mp ho
  cases he
  rcases openAt_entry_eq_ok rfl (Outcome.mapError_eq_ok_iff.mp ho) with
    ⟨_, _, -, -, -, hnew, -⟩ | ⟨-, hm⟩
  · exact absurd rfl hnew
  · exact hm

/-- The key of a new entry. -/
def entryKey (p : GuestPath) (name : String) : String := GuestPath.key (p ++ [name])

theorem Makes.node {b : Body} {t : Store} (hm : s.Makes p name b h) (hb : b.Bare) :
    ∃ n, ({ s with host := h, store := t } : Share).node (p ++ [name]) = .ok n := by
  obtain ⟨dir, mode, hf, hfits, hl, rfl⟩ := hm
  obtain ⟨hd, hlen, hnone⟩ := Host.lookup_eq_ok_iff.mp hl
  have hgrows : Host.Grows s.host (s.host.create dir.ino (Name.ofText name) b mode).2 :=
    Host.create_grows hd hb fun i he => by
      rw [hnone] at he
      cases he
  refine ⟨_, node_of_inspect (inspect_concat_eq_ok_iff.mpr ⟨hfits.1, dir, hgrows.find hd hf,
    Host.lookup_eq_ok_iff.mpr ⟨hgrows.isDirectory hd, hlen, ?_⟩, Host.node?_create_size ?_⟩)⟩
  · rw [Host.child?_create hb hd, if_pos ⟨rfl, rfl⟩]
  · exact Nat.ne_of_lt (Host.lt_size_of_isDirectory hd)

theorem node_of_editsIn {I : Ino → Prop} {i : Ino} {n : Inode} {t : Store}
    (hi : s.inspect p = .ok (i, n)) (he : Host.EditsIn I s.host h) :
    ∃ m, ({ s with host := h, store := t } : Share).node p = .ok m := by
  obtain ⟨place, hf, rfl, hn⟩ := inspect_eq_ok_iff.mp hi
  have hlt : place.ino < h.nodes.size := by
    rw [he.sameTree.size_eq]
    exact Host.lt_size_of_node? hn
  obtain ⟨n', hn'⟩ := Option.isSome_iff_exists.mp (Host.node?_isSome_iff.mpr hlt)
  exact ⟨_, node_of_inspect
    (inspect_eq_ok_iff.mpr ⟨place, he.sameTree.find.trans hf, rfl, hn'⟩)⟩

/-- **Creating a file** edits a file that is there or makes one, and then there is a node. -/
theorem newFile_eq_ok {t : Share} (ho : s.newFile id name flags mode gid = .ok (fid, t)) :
    ∃ dir d h, s.directory id = .ok dir ∧ isEntryName name = true ∧
      s.isHostLink (dir.path ++ [name]) = false ∧
      ((∃ place, s.host.find .follow (s.hostPath dir.path) = .ok place ∧
          s.host.lookup place (Name.ofText name) = .ok (some d.ino) ∧
          s.host.isDirectory d.ino = false ∧ Host.EditsIn (· = d.ino) s.host h) ∨
        (d.ino = s.host.nodes.size ∧ s.Makes dir.path name (.file .empty) h)) ∧
      fid = { dir with path := dir.path ++ [name], handle := .file d } ∧
      t = { s with
        host := h
        store := recordNew s.store (entryKey dir.path name) .file mode dir.uid gid h.clock } ∧
      ∃ n, t.node fid.path = .ok n := by
  obtain ⟨dir, hid, ho⟩ := Outcome.bind_eq_ok_iff.mp ho
  obtain ⟨path, hpath, ho⟩ := Outcome.bind_eq_ok_iff.mp ho
  obtain ⟨hname, rfl⟩ := entryPath_eq_ok_iff.mp hpath
  by_cases hlink : s.isHostLink (dir.path ++ [name]) = true
  · simp only [hlink, if_true] at ho
    cases ho
  · simp only [hlink, Bool.false_eq_true, if_false] at ho
    obtain ⟨⟨d, h⟩, hopen, ho⟩ := Outcome.bind_eq_ok_iff.mp ho
    cases ho
    have hkeep : ((Access.ofFlags flags).howToCreate (flags &&& exclusiveFlag ≠ 0)).whenLink =
        .keep := by
      unfold OpenHow.whenLink Access.howToCreate
      split_ifs <;> rfl
    have hlink' : s.isHostLink (dir.path ++ [name]) = false := by simpa using hlink
    rcases openAt_entry_eq_ok hkeep (Outcome.mapError_eq_ok_iff.mp hopen) with
      ⟨place, n, hi, hdir, hl, -, hnode⟩ | ⟨hd, hm⟩
    · obtain ⟨-, hedit, -, hc | hc⟩ := Host.openNode_eq_ok hnode
      · simp [OpenHow.changes, Access.howToCreate] at hc
      · exact ⟨dir, d, h, hid, hname, hlink', .inl ⟨place, hdir, hl, hc, hedit⟩, rfl, rfl,
          node_of_editsIn hi hedit⟩
    · exact ⟨dir, d, h, hid, hname, hlink', .inr ⟨hd, hm⟩, rfl, rfl,
        hm.node (Body.bare_file _)⟩

theorem lcreate_eq_ok (ho : s.lcreate id name flags mode gid = (.ok reply, s')) :
    ∃ fid d h n, s.directory id = .ok fid ∧ isEntryName name = true ∧
      s.isHostLink (fid.path ++ [name]) = false ∧
      ((∃ dir, s.host.find .follow (s.hostPath fid.path) = .ok dir ∧
          s.host.lookup dir (Name.ofText name) = .ok (some d.ino) ∧
          s.host.isDirectory d.ino = false ∧ Host.EditsIn (· = d.ino) s.host h) ∨
        (d.ino = s.host.nodes.size ∧ s.Makes fid.path name (.file .empty) h)) ∧
      s' = { s with
        host := h
        store := recordNew s.store (entryKey fid.path name) .file mode fid.uid gid h.clock
        fids := s.fids.insert id { fid with path := fid.path ++ [name], handle := .file d } } ∧
      s'.node (fid.path ++ [name]) = .ok n ∧ reply = .lcreate n.qid s.iounit := by
  obtain ⟨fid, t, hnew, ho⟩ := settleThen_eq_ok_iff.mp ho
  obtain ⟨dir, d, h, hid, hname, hlink, hcase, rfl, rfl, -⟩ := newFile_eq_ok hnew
  obtain ⟨n, hn, ho⟩ := Outcome.bind_eq_ok_iff.mp ho
  cases ho
  exact ⟨dir, d, h, n, hid, hname, hlink, hcase, rfl, hn, rfl⟩

theorem lcreate_traceless : s.Traceless (s.lcreate id name flags mode gid) := by
  refine settleThen_traceless fun fid t hnew => ?_
  obtain ⟨_, _, _, -, -, -, -, -, -, n, hn⟩ := newFile_eq_ok hnew
  exact .inl ⟨_, _, by rw [hn]; rfl⟩

theorem describe_eq_ok_iff {make : Qid → Reply} :
    describe make p s = .ok (reply, s') ↔
      ∃ n, s.node p = .ok n ∧ reply = make n.qid ∧ s' = s := by
  unfold describe
  simp only [Outcome.bind_eq_ok_iff, Outcome.pure_eq_ok, Except.ok.injEq, Prod.mk.injEq]
  constructor
  · rintro ⟨n, hn, rfl, rfl⟩
    exact ⟨n, hn, rfl, rfl⟩
  · rintro ⟨n, hn, rfl, rfl⟩
    exact ⟨n, hn, rfl, rfl⟩

/-- A request that makes a node leaves no trace if it fails, if the node is found once it is
made. -/
theorem describe_traceless {first : Except ShareError (GuestPath × Share)} {make : Qid → Reply}
    (hfirst : ∀ p t, first = .ok (p, t) → ∃ n, t.node p = .ok n) :
    s.Traceless (s.settleThen first (describe make)) := by
  refine settleThen_traceless fun p t hnew => ?_
  obtain ⟨n, hn⟩ := hfirst p t hnew
  exact .inl ⟨_, _, describe_eq_ok_iff.mpr ⟨n, hn, rfl, rfl⟩⟩

theorem newLink_eq_ok {target : String} {t : Share}
    (ho : s.newLink id name target gid = .ok (p, t)) :
    ∃ fid h, s.directory id = .ok fid ∧ isEntryName name = true ∧
      s.Makes fid.path name (.file .empty) h ∧ p = fid.path ++ [name] ∧
      t = { s with
        host := h
        store := (recordNew s.store (entryKey fid.path name) .symlink linkMode fid.uid gid
          h.clock).setSymlink (entryKey fid.path name) target } := by
  obtain ⟨fid, hid, ho⟩ := Outcome.bind_eq_ok_iff.mp ho
  obtain ⟨path, hpath, ho⟩ := Outcome.bind_eq_ok_iff.mp ho
  obtain ⟨hname, rfl⟩ := entryPath_eq_ok_iff.mp hpath
  obtain ⟨h, hm, ho⟩ := Outcome.bind_eq_ok_iff.mp ho
  cases ho
  exact ⟨fid, h, hid, hname, makePlace_eq_ok hm, rfl, rfl⟩

/-- **Making a link** makes an empty file and records the target. -/
theorem symlink_eq_ok {target : String} (ho : s.symlink id name target gid = (.ok reply, s')) :
    ∃ fid h n, s.directory id = .ok fid ∧ isEntryName name = true ∧
      s.Makes fid.path name (.file .empty) h ∧
      s' = { s with
        host := h
        store := (recordNew s.store (entryKey fid.path name) .symlink linkMode fid.uid gid
          h.clock).setSymlink (entryKey fid.path name) target } ∧
      s'.node (fid.path ++ [name]) = .ok n ∧ reply = .symlink n.qid := by
  obtain ⟨p, t, hnew, ho⟩ := settleThen_eq_ok_iff.mp ho
  obtain ⟨fid, h, hid, hname, hm, rfl, rfl⟩ := newLink_eq_ok hnew
  obtain ⟨n, hn, rfl, rfl⟩ := describe_eq_ok_iff.mp ho
  exact ⟨fid, h, n, hid, hname, hm, rfl, hn, rfl⟩

theorem symlink_traceless {target : String} : s.Traceless (s.symlink id name target gid) :=
  describe_traceless fun p t hnew => by
    obtain ⟨fid, h, -, -, hm, rfl, rfl⟩ := newLink_eq_ok hnew
    exact hm.node (Body.bare_file _)

/-- The records of a device that has been made. -/
def recordDevice (s : Store) (key : String) : Option Device → Store
  | some d => s.setDevice key d
  | none => s

theorem newNode_eq_ok {major minor : UInt32} {t : Share}
    (ho : s.newNode id name mode major minor gid = .ok (p, t)) :
    ∃ fid h kind device, NodeKind.ofMode? mode = some kind ∧
      deviceOf kind major minor = .ok device ∧ s.directory id = .ok fid ∧
      isEntryName name = true ∧ s.Makes fid.path name (.file .empty) h ∧ p = fid.path ++ [name] ∧
      t = { s with
        host := h
        store := recordDevice (recordNew s.store (entryKey fid.path name) kind mode fid.uid gid
          h.clock) (entryKey fid.path name) device } := by
  unfold newNode at ho
  split at ho
  next kind hkind =>
    obtain ⟨device, hdevice, ho⟩ := Outcome.bind_eq_ok_iff.mp ho
    obtain ⟨fid, hid, ho⟩ := Outcome.bind_eq_ok_iff.mp ho
    obtain ⟨path, hpath, ho⟩ := Outcome.bind_eq_ok_iff.mp ho
    obtain ⟨hname, rfl⟩ := entryPath_eq_ok_iff.mp hpath
    obtain ⟨h, hm, ho⟩ := Outcome.bind_eq_ok_iff.mp ho
    cases ho
    refine ⟨fid, h, kind, device, hkind, hdevice, hid, hname, makePlace_eq_ok hm, rfl, ?_⟩
    cases device <;> rfl
  next => cases ho

/-- **Making a node of another kind** makes an empty file and records the kind. -/
theorem mknod_eq_ok {major minor : UInt32}
    (ho : s.mknod id name mode major minor gid = (.ok reply, s')) :
    ∃ fid h n kind device, NodeKind.ofMode? mode = some kind ∧
      deviceOf kind major minor = .ok device ∧ s.directory id = .ok fid ∧
      isEntryName name = true ∧ s.Makes fid.path name (.file .empty) h ∧
      s' = { s with
        host := h
        store := recordDevice (recordNew s.store (entryKey fid.path name) kind mode fid.uid gid
          h.clock) (entryKey fid.path name) device } ∧
      s'.node (fid.path ++ [name]) = .ok n ∧ reply = .mknod n.qid := by
  obtain ⟨p, t, hnew, ho⟩ := settleThen_eq_ok_iff.mp ho
  obtain ⟨fid, h, kind, device, hkind, hdevice, hid, hname, hm, rfl, rfl⟩ := newNode_eq_ok hnew
  obtain ⟨n, hn, rfl, rfl⟩ := describe_eq_ok_iff.mp ho
  exact ⟨fid, h, n, kind, device, hkind, hdevice, hid, hname, hm, rfl, hn, rfl⟩

theorem mknod_traceless {major minor : UInt32} :
    s.Traceless (s.mknod id name mode major minor gid) :=
  describe_traceless fun p t hnew => by
    obtain ⟨fid, h, kind, device, -, -, -, -, hm, rfl, rfl⟩ := newNode_eq_ok hnew
    exact hm.node (Body.bare_file _)

theorem newDir_eq_ok {t : Share} (ho : s.newDir id name mode gid = .ok (p, t)) :
    ∃ fid h, s.directory id = .ok fid ∧ isEntryName name = true ∧
      s.Makes fid.path name (.directory ∅) h ∧ p = fid.path ++ [name] ∧
      t = { s with
        host := h
        store := recordNew s.store (entryKey fid.path name) .directory mode fid.uid gid
          h.clock } := by
  obtain ⟨fid, hid, ho⟩ := Outcome.bind_eq_ok_iff.mp ho
  obtain ⟨path, hpath, ho⟩ := Outcome.bind_eq_ok_iff.mp ho
  obtain ⟨hname, rfl⟩ := entryPath_eq_ok_iff.mp hpath
  obtain ⟨h, hm, ho⟩ := Outcome.bind_eq_ok_iff.mp ho
  cases ho
  have hmake := Outcome.mapError_eq_ok_iff.mp hm
  rw [hostPath_concat] at hmake
  obtain ⟨dir, hf, hnul, hl, rfl⟩ := Host.makeDir_child_eq_ok hmake
  exact ⟨fid, _, hid, hname,
    ⟨dir, _, hf, ⟨hnul, (Host.lookup_eq_ok_iff.mp hl).2.1⟩, hl, rfl⟩, rfl, rfl⟩

/-- **Making a directory** makes it on the host. -/
theorem mkdir_eq_ok (ho : s.mkdir id name mode gid = (.ok reply, s')) :
    ∃ fid h n, s.directory id = .ok fid ∧ isEntryName name = true ∧
      s.Makes fid.path name (.directory ∅) h ∧
      s' = { s with
        host := h
        store := recordNew s.store (entryKey fid.path name) .directory mode fid.uid gid
          h.clock } ∧
      s'.node (fid.path ++ [name]) = .ok n ∧ reply = .mkdir n.qid := by
  obtain ⟨p, t, hnew, ho⟩ := settleThen_eq_ok_iff.mp ho
  obtain ⟨fid, h, hid, hname, hm, rfl, rfl⟩ := newDir_eq_ok hnew
  obtain ⟨n, hn, rfl, rfl⟩ := describe_eq_ok_iff.mp ho
  exact ⟨fid, h, n, hid, hname, hm, rfl, hn, rfl⟩

theorem mkdir_traceless : s.Traceless (s.mkdir id name mode gid) :=
  describe_traceless fun p t hnew => by
    obtain ⟨fid, h, -, -, hm, rfl, rfl⟩ := newDir_eq_ok hnew
    exact hm.node Body.bare_directory

/-! ## Attributes -/

theorem setSize_eq_ok {n : Node} {size : UInt64} (ho : s.setSize n size = .ok h) :
    n.isDirectory = false ∧ ∃ place, s.host.find .follow (s.hostPath n.path) = .ok place ∧
      Host.EditsIn (· = place.ino) s.host h := by
  unfold setSize at ho
  by_cases hd : n.isDirectory = true
  · simp only [hd, if_true] at ho
    cases ho
  · simp only [hd, Bool.false_eq_true, if_false] at ho
    obtain ⟨⟨d, h₁⟩, hopen, hlen⟩ := Outcome.bind_eq_ok_iff.mp ho
    rcases Host.openAt_eq_ok (Outcome.mapError_eq_ok_iff.mp hopen) with
      ⟨place, hf, -, hnode⟩ | ⟨_, _, -, hnever, -⟩
    · obtain ⟨rfl, hedit, -⟩ := Host.openNode_eq_ok hnode
      exact ⟨by simpa using hd, place, hf,
        hedit.trans (Host.setLength_editsIn (Outcome.mapError_eq_ok_iff.mp hlen))⟩
    · exact absurd rfl hnever

theorem setTimes_eq_ok {h h' : Host} {path : Path} {accessed modified : Option Instant}
    (ho : setTimes h path accessed modified = .ok h') :
    ∃ place, h.find .follow path = .ok place ∧ Host.EditsIn (· = place.ino) h h' := by
  obtain ⟨⟨d, h₁⟩, hopen, ho⟩ := Outcome.bind_eq_ok_iff.mp ho
  cases ho
  rcases Host.openAt_eq_ok (Outcome.mapError_eq_ok_iff.mp hopen) with
    ⟨place, hf, -, hnode⟩ | ⟨_, _, -, hnever, -⟩
  · obtain ⟨rfl, hedit, -⟩ := Host.openNode_eq_ok hnode
    refine ⟨place, hf, hedit.trans ?_⟩
    exact Host.setTimes_editsIn (d := OpenHow.reading.descriptor place.ino)
  · exact absurd rfl hnever

theorem setRest_eq_ok {n : Node} {a : SetAttr} (ho : s.setRest n a = .ok (reply, s')) :
    reply = .setattr ∧ ∃ h store, s' = { s with host := h, store } ∧
      (h = s.host ∨ ∃ place, s.host.find .follow (s.hostPath n.path) = .ok place ∧
        Host.EditsIn (· = place.ino) s.host h) ∧
      (store = s.store ∨ ∃ r, store = s.store.setPermission n.key r ∧
        r.mode = (changedRecord ((s.store.permission n.key).getD n.defaultPermission) a).mode) := by
  unfold setRest at ho
  obtain ⟨accessed, -, ho⟩ := Outcome.bind_eq_ok_iff.mp ho
  obtain ⟨modified, -, ho⟩ := Outcome.bind_eq_ok_iff.mp ho
  have hstore : ∀ (c : Bool) (r : Permissions),
      (if c = true then s.store.setPermission n.key r else s.store) = s.store ∨
        ∃ r', (if c = true then s.store.setPermission n.key r else s.store) =
          s.store.setPermission n.key r' ∧ r'.mode = r.mode := by
    intro c r
    cases c
    · exact .inl rfl
    · exact .inr ⟨r, rfl, rfl⟩
  simp only at ho
  split at ho
  next =>
    obtain ⟨h, hh, ho⟩ := Outcome.bind_eq_ok_iff.mp ho
    cases ho
    exact ⟨rfl, h, _, rfl, .inr (setTimes_eq_ok hh), hstore _ _⟩
  next =>
    cases ho
    exact ⟨rfl, s.host, _, rfl, .inl rfl, hstore _ _⟩

/-- **Setting attributes** edits the node that the path leads to, and the records of the node that
is there. -/
theorem setattr_cases {a : SetAttr} {r : Except ShareError Reply}
    (ho : s.setattr id a = (r, s')) :
    (∃ e, r = .error e ∧ s' = s) ∨
      ∃ fid n h h' store, s.fids[id]? = some fid ∧ s.node fid.path = .ok n ∧
        s' = { s with host := h', store } ∧
        (h = s.host ∨ ∃ place, s.host.find .follow (s.hostPath fid.path) = .ok place ∧
          Host.EditsIn (· = place.ino) s.host h) ∧
        (h' = h ∨ ∃ place, h.find .follow (s.hostPath fid.path) = .ok place ∧
          Host.EditsIn (· = place.ino) h h') ∧
        (store = s.store ∨ ∃ r, store = s.store.setPermission n.key r ∧
          r.mode = (changedRecord ((s.store.permission n.key).getD n.defaultPermission) a).mode) ∧
        ∀ reply, r = .ok reply → reply = .setattr := by
  unfold setattr at ho
  cases hn : (do s.node (← s.fids.find id).path) with
  | error e =>
    rw [hn] at ho
    cases ho
    exact .inl ⟨e, rfl, rfl⟩
  | ok n =>
    obtain ⟨fid, hid, hnode⟩ := Outcome.bind_eq_ok_iff.mp hn
    have hpath : n.path = fid.path := path_of_node hnode
    rw [hn] at ho
    simp only at ho
    cases hsize : (if a.has SetAttr.sizeBit = true then s.setSize n a.size else .ok s.host) with
    | error e =>
      rw [hsize] at ho
      cases ho
      exact .inl ⟨e, rfl, rfl⟩
    | ok h =>
      rw [hsize] at ho
      have hh : h = s.host ∨ ∃ place, s.host.find .follow (s.hostPath fid.path) = .ok place ∧
          Host.EditsIn (· = place.ino) s.host h := by
        split_ifs at hsize
        · obtain ⟨-, hedit⟩ := setSize_eq_ok hsize
          exact .inr (hpath ▸ hedit)
        · cases hsize
          exact .inl rfl
      simp only at ho
      split at ho
      next e hrest =>
        cases ho
        exact .inr ⟨fid, n, h, h, s.store, fids_find_eq_ok_iff.mp hid, hnode, rfl, hh, .inl rfl,
          .inl rfl, fun _ hr => by cases hr⟩
      next reply s₁ hrest =>
        cases ho
        obtain ⟨rfl, h', store, rfl, hh', hstore⟩ := setRest_eq_ok hrest
        refine .inr ⟨fid, n, h, h', store, fids_find_eq_ok_iff.mp hid, hnode, rfl, hh, ?_, hstore,
          fun _ hr => by cases hr; rfl⟩
        rw [← hpath]
        exact hh'

/-! ## Reading and writing -/

theorem readdir_eq_ok {offset : UInt64} {count : UInt32}
    (ho : s.readdir id offset count = .ok (reply, s')) :
    ∃ fid names, s.fids[id]? = some fid ∧ fid.handle = .dir names ∧
      reply = .readdir (s.entriesFrom fid.path (s.budget count) offset.toNat
        (names.drop offset.toNat)) ∧ s' = s := by
  obtain ⟨fid, hid, ho⟩ := Outcome.bind_eq_ok_iff.mp ho
  split at ho
  next names hh =>
    cases ho
    exact ⟨fid, names, fids_find_eq_ok_iff.mp hid, hh, rfl, rfl⟩
  next => cases ho

theorem read_eq_ok {offset : UInt64} {count : UInt32}
    (ho : s.read id offset count = .ok (reply, s')) :
    ∃ fid, s.fids[id]? = some fid ∧ s' = s ∧
      ((∃ d data, fid.handle = .file d ∧
          d.read offset.toNat (s.budget count) s.host = .ok data ∧ reply = .read data) ∨
        ∃ t, s.linkText fid.path = .ok (some t) ∧
          reply = .read (((Bytes.ofText t).drop offset.toNat).take (s.budget count))) := by
  obtain ⟨fid, hid, ho⟩ := Outcome.bind_eq_ok_iff.mp ho
  refine ⟨fid, fids_find_eq_ok_iff.mp hid, ?_⟩
  split at ho
  next d hh =>
    obtain ⟨data, hdata, ho⟩ := Outcome.bind_eq_ok_iff.mp ho
    cases ho
    exact ⟨rfl, .inl ⟨d, data, hh, Outcome.mapError_eq_ok_iff.mp hdata, rfl⟩⟩
  next => cases ho
  next =>
    obtain ⟨o, hlink, ho⟩ := Outcome.bind_eq_ok_iff.mp ho
    cases o with
    | some t =>
      cases ho
      exact ⟨rfl, .inr ⟨t, hlink, rfl⟩⟩
    | none =>
      simp only at ho
      split_ifs at ho
      cases ho

theorem writeFile_eq_ok {offset : UInt64} {data : Bytes} {t : Share}
    (ho : s.writeFile id offset data = .ok ((), t)) :
    ∃ fid d h, s.fids[id]? = some fid ∧ fid.handle = .file d ∧
      Host.EditsIn (· = d.ino) s.host h ∧ t = s.on h := by
  obtain ⟨fid, hid, ho⟩ := Outcome.bind_eq_ok_iff.mp ho
  split at ho
  next d hh =>
    obtain ⟨h, hw, ho⟩ := Outcome.bind_eq_ok_iff.mp ho
    cases ho
    exact ⟨fid, d, h, fids_find_eq_ok_iff.mp hid, hh,
      Host.write_editsIn (Outcome.mapError_eq_ok_iff.mp hw), rfl⟩
  next => cases ho
  next => cases ho

/-- **Writing** edits the file that the fid holds open, even if too much has been written to tell
how much. -/
theorem write_cases {offset : UInt64} {data : Bytes} {r : Except ShareError Reply}
    (ho : s.write id offset data = (r, s')) :
    (∃ e, r = .error e ∧ s' = s) ∨
      ∃ fid d h, s.fids[id]? = some fid ∧ fid.handle = .file d ∧
        Host.EditsIn (· = d.ino) s.host h ∧ s' = s.on h ∧
        ∀ reply, r = .ok reply → ∃ count, reply = .write count := by
  unfold write at ho
  cases hw : s.writeFile id offset data with
  | error e =>
    rw [hw] at ho
    cases ho
    exact .inl ⟨e, rfl, rfl⟩
  | ok x =>
    obtain ⟨⟨⟩, t⟩ := x
    obtain ⟨fid, d, h, hid, hh, hedit, rfl⟩ := writeFile_eq_ok hw
    rw [hw] at ho
    simp only [settleThen] at ho
    split_ifs at ho
    · cases ho
      exact .inr ⟨fid, d, h, hid, hh, hedit, rfl, fun _ hr => by cases hr⟩
    · cases ho
      exact .inr ⟨fid, d, h, hid, hh, hedit, rfl, fun _ hr => by cases hr; exact ⟨_, rfl⟩⟩

theorem fsync_eq_ok (ho : s.fsync id = .ok (reply, s')) : reply = .fsync ∧ s' = s := by
  obtain ⟨fid, -, ho⟩ := Outcome.bind_eq_ok_iff.mp ho
  simp only at ho
  split at ho
  next =>
    obtain ⟨_, -, ho⟩ := Outcome.bind_eq_ok_iff.mp ho
    cases ho
    exact ⟨rfl, rfl⟩
  next =>
    cases ho
    exact ⟨rfl, rfl⟩

/-! ## Moving and removing -/

/-- **Renaming** moves an entry, with its records and fids. -/
theorem renameat_eq_ok {oldName newName : String} {oldId : FidId}
    (ho : s.renameat oldId oldName newId newName = .ok (reply, s')) :
    ∃ oldDir newDir i n h, s.directory oldId = .ok oldDir ∧ s.directory newId = .ok newDir ∧
      isEntryName oldName = true ∧ isEntryName newName = true ∧
      s.inspect (oldDir.path ++ [oldName]) = .ok (i, n) ∧
      s.host.rename (s.hostPath (oldDir.path ++ [oldName]))
        (s.hostPath (newDir.path ++ [newName])) = .ok h ∧
      reply = .renameat ∧
      s' = { s with
        host := h
        store := s.store.rename (entryKey oldDir.path oldName) (entryKey newDir.path newName)
        fids := s.fids.relocate (oldDir.path ++ [oldName]) (newDir.path ++ [newName]) } := by
  obtain ⟨oldDir, hold, ho⟩ := Outcome.bind_eq_ok_iff.mp ho
  obtain ⟨newDir, hnew, ho⟩ := Outcome.bind_eq_ok_iff.mp ho
  obtain ⟨old, hop, ho⟩ := Outcome.bind_eq_ok_iff.mp ho
  obtain ⟨new, hnp, ho⟩ := Outcome.bind_eq_ok_iff.mp ho
  obtain ⟨⟨i, n⟩, hi, ho⟩ := Outcome.bind_eq_ok_iff.mp ho
  obtain ⟨h, hr, ho⟩ := Outcome.bind_eq_ok_iff.mp ho
  obtain ⟨hon, rfl⟩ := entryPath_eq_ok_iff.mp hop
  obtain ⟨hnn, rfl⟩ := entryPath_eq_ok_iff.mp hnp
  cases ho
  exact ⟨oldDir, newDir, i, n, h, hold, hnew, hon, hnn, hi, Outcome.mapError_eq_ok_iff.mp hr, rfl,
    rfl⟩

/-- **Removing** takes a name away, of an empty directory or of a node that is none. -/
theorem removeAt_eq_ok {mustBeDir : Bool}
    (ho : s.removeAt (p ++ [name]) mustBeDir = .ok s') :
    ∃ dir i n, s.inspect (p ++ [name]) = .ok (i, n) ∧
      s.host.find .follow (s.hostPath p) = .ok dir ∧
      s.host.lookup dir (Name.ofText name) = .ok (some i) ∧
      (s.host.isDirectory i = false ∨ s.host.entries? i = some ∅) ∧
      s' = { s with
        host := s.host.unbind dir.ino (Name.ofText name)
        store := s.store.delete (entryKey p name) } := by
  obtain ⟨⟨i, n⟩, hi, ho⟩ := Outcome.bind_eq_ok_iff.mp ho
  obtain ⟨-, dir, hf, hl, -⟩ := inspect_concat_eq_ok_iff.mp hi
  have hcase : ∃ h, s' = { s with host := h, store := s.store.delete (entryKey p name) } ∧
      ∃ dir j, s.host.find .follow (s.hostPath p) = .ok dir ∧
        s.host.lookup dir (Name.ofText name) = .ok (some j) ∧
        (s.host.isDirectory j = false ∨ s.host.entries? j = some ∅) ∧
        h = s.host.unbind dir.ino (Name.ofText name) := by
    simp only [hostPath_concat] at ho
    by_cases hd : n.body.isDirectory = true
    · simp only [hd, if_true] at ho
      obtain ⟨h, hh, ho⟩ := Outcome.bind_eq_ok_iff.mp ho
      cases ho
      obtain ⟨dir, j, hf, hl, he, rfl⟩ :=
        Host.removeDir_child_eq_ok (Outcome.mapError_eq_ok_iff.mp hh)
      exact ⟨_, rfl, dir, j, hf, hl, .inr he, rfl⟩
    · cases mustBeDir with
      | true =>
        simp only [hd, Bool.false_eq_true, if_false, if_true] at ho
        cases ho
      | false =>
        simp only [hd, Bool.false_eq_true, if_false] at ho
        obtain ⟨h, hh, ho⟩ := Outcome.bind_eq_ok_iff.mp ho
        cases ho
        obtain ⟨dir, j, hf, hl, he, rfl⟩ :=
          Host.unlink_child_eq_ok (Outcome.mapError_eq_ok_iff.mp hh)
        exact ⟨_, rfl, dir, j, hf, hl, .inl he, rfl⟩
  obtain ⟨h, rfl, dir', j, hf', hl', hj, rfl⟩ := hcase
  rw [hf] at hf'
  cases hf'
  rw [hl] at hl'
  cases hl'
  exact ⟨dir, i, n, hi, hf, hl, hj, rfl⟩

theorem unlinkat_eq_ok (ho : s.unlinkat id name flags = .ok (reply, s')) :
    ∃ fid mustBeDir, s.directory id = .ok fid ∧ isEntryName name = true ∧
      s.removeAt (fid.path ++ [name]) mustBeDir = .ok s' ∧ reply = .unlinkat := by
  obtain ⟨fid, hid, ho⟩ := Outcome.bind_eq_ok_iff.mp ho
  obtain ⟨path, hpath, ho⟩ := Outcome.bind_eq_ok_iff.mp ho
  obtain ⟨hname, rfl⟩ := entryPath_eq_ok_iff.mp hpath
  obtain ⟨s₁, hr, ho⟩ := Outcome.bind_eq_ok_iff.mp ho
  cases ho
  exact ⟨fid, _, hid, hname, hr, rfl⟩

theorem dropFid_eq_self (hid : s.fids[id]? = none) : s.dropFid id = s := by
  have herase : s.fids.erase id = s.fids := by
    refine Std.ExtTreeMap.ext_getElem? fun k => ?_
    rw [Std.ExtTreeMap.getElem?_erase]
    split_ifs with hk
    · rw [← Std.LawfulEqCmp.eq_of_compare hk, hid]
    · rfl
  rw [dropFid, herase]

theorem remove_cases {r : Except ShareError Reply} (ho : s.remove id = (r, s')) :
    (∃ e, r = .error e ∧ s' = s.dropFid id) ∨
      ∃ fid p name, s.fids[id]? = some fid ∧ fid.path = p ++ [name] ∧
        (s.dropFid id).removeAt (p ++ [name]) false = .ok s' ∧ r = .ok .remove := by
  unfold remove at ho
  cases hid : s.fids.find id with
  | error e =>
    rw [hid] at ho
    cases ho
    have hnone : s.fids[id]? = none := by
      cases hf : s.fids[id]? with
      | none => rfl
      | some fid => cases hid.symm.trans (fids_find_eq_ok_iff.mpr hf)
    exact .inl ⟨e, rfl, (dropFid_eq_self hnone).symm⟩
  | ok fid =>
    rw [hid] at ho
    simp only at ho
    split_ifs at ho with hempty
    · cases ho
      exact .inl ⟨_, rfl, rfl⟩
    · rcases List.eq_nil_or_concat' fid.path with hnil | ⟨p, name, hpath⟩
      · simp [hnil] at hempty
      · rw [hpath] at ho
        cases hr : (s.dropFid id).removeAt (p ++ [name]) false with
        | error e =>
          rw [hr] at ho
          cases ho
          exact .inl ⟨e, rfl, rfl⟩
        | ok s₁ =>
          rw [hr] at ho
          cases ho
          exact .inr ⟨fid, p, name, fids_find_eq_ok_iff.mp hid, hpath, hr, rfl⟩

end Share

end GuestShare
