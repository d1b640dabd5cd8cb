import GuestShare.Proofs.Share.Act
import GuestShare.Proofs.Share.Boundary

/-!
# Requests stay in the export

A walk checks that every step really lies in the export; later requests follow the path of a fid
again without that check. As long as the paths of the fids that a request names would still pass it,
the request changes nodes of the export only, opens nodes of the export only, and tells of nodes of
the export only. An export without links of the host always passes.

* `Share.Tells`: what a reply may say, all of it about nodes of the export.
* `Share.Confined`: what a request may do, and what it may answer.
* `Request.fids`, `Share.Guards`: the fids whose paths a request follows, and the check on them.
* **`perform_confined`**: a request under the check is confined.
-/

namespace GuestShare

namespace Share

/-! ## What a reply may say -/

/-- The node is one of the export, as it is on the host. -/
def Knows (s : Share) (n : Node) : Prop := s.Inside n.ino ∧ s.host.node? n.ino = some n.inode

/-- The identity of a node of the export. -/
def TellsQid (s : Share) (q : Qid) : Prop := ∃ n, s.Knows n ∧ q = n.qid

/-- The target of a link: one that is recorded, or one of the export. -/
def TellsLink (s : Share) (t : String) : Prop :=
  (∃ key, s.store.symlink key = some t) ∨
    ∃ i b, s.Inside i ∧ s.host.target? i = some b ∧ t = Text.ofBytes b

/-- Bytes of a file that lies in the export or is held open, or of a link. -/
def TellsBytes (s : Share) (data : Bytes) : Prop :=
  (∃ i c offset count, (s.Inside i ∨ s.Holds i) ∧ s.host.body? i = some (.file c) ∧
      data = c.slice offset count) ∨
    (∃ t offset count, s.TellsLink t ∧ data = ((Bytes.ofText t).drop offset).take count) ∨
    data = []

/-- Entries of a listing that a fid has, each of a node of the export. -/
def TellsEntries (s : Share) (es : List DirEntry) : Prop :=
  ∃ (id : FidId) (fid : Fid) (names : List String), s.fids[id]? = some fid ∧
    fid.handle = .dir names ∧
    ∀ e ∈ es, e.name ∈ names ∧ ∃ n, s.Knows n ∧ e.qid = n.qid ∧ e.kind = n.entryType

/-- What a reply may say of the host. -/
def Tells (s : Share) : Reply → Prop
  | .attach q | .symlink q | .mknod q | .mkdir q => s.TellsQid q
  | .lopen q _ | .open q _ | .lcreate q _ => s.TellsQid q
  | .walk qs => ∀ q ∈ qs, s.TellsQid q
  | .getattr a => ∃ n, s.Knows n ∧ a = n.attr s.store s.host
  | .readdir es => s.TellsEntries es
  | .readlink t => s.TellsLink t
  | .read data => s.TellsBytes data
  | .version .. | .flush | .setattr | .fsync | .renameat | .unlinkat | .write _ | .clunk | .remove
  | .error _ => True

/-! ## What a request may do -/

/-- Where the handle of a fid comes from: an earlier one, a file of the export, or the listing of a
directory of the export. -/
inductive HandleFrom (s s' : Share) : FidHandle → Prop
  | kept {id : FidId} {fid : Fid} : s.fids[id]? = some fid → HandleFrom s s' fid.handle
  | unopened : HandleFrom s s' .unopened
  | file {d : Descriptor} : s'.Inside d.ino → HandleFrom s s' (.file d)
  | dir {i : Ino} {es : Entries} : s.Inside i → s.host.entries? i = some es →
      HandleFrom s s' (.dir (es.keys.filterMap Bytes.toText?))

/-- A request with its reply and the share after it keeps to the export. -/
structure Confined (s : Share) (r : Except ShareError Reply) (s' : Share) : Prop where
  root_eq : s'.root = s.root
  changes : s.ChangesInside s'.host
  handles : ∀ (id : FidId) (fid : Fid), s'.fids[id]? = some fid → HandleFrom s s' fid.handle
  tells : ∀ reply, r = .ok reply → s.Tells reply ∨ s'.Tells reply

variable {s s' : Share} {r : Except ShareError Reply} {h : Host} {i : Ino} {n : Node}
  {p : GuestPath} {name : String} {id : FidId} {fid : Fid} {reply : Reply}
  {names : List String}

theorem inside_on_iff (hr : s'.root = s.root) : (s.on s'.host).Inside i ↔ s'.Inside i := by
  unfold Inside
  rw [hr]
  rfl

theorem Confined.sound (hc : Confined s r s') : s'.Sound := by
  have := hc.changes.sound
  refine ⟨this.isTree, ?_⟩
  rw [hc.root_eq]
  exact this.root

theorem Confined.holds (hc : Confined s r s') (hi : s'.Holds i) : s.Holds i ∨ s'.Inside i := by
  obtain ⟨id, fid, d, hid, hh, rfl⟩ := hi
  have := hc.handles id fid hid
  rw [hh] at this
  generalize hd : FidHandle.file d = handle at this
  cases this with
  | kept hid' => exact .inl ⟨_, _, d, hid', hd.symm, rfl⟩
  | unopened => cases hd
  | file hin =>
    cases hd
    exact .inr hin
  | dir _ _ => cases hd

theorem handles_refl (id : FidId) (fid : Fid) (hid : s.fids[id]? = some fid) :
    HandleFrom s s' fid.handle := .kept hid

theorem handles_of_fids_eq (he : s'.fids = s.fids) (k : FidId) (f : Fid)
    (hk : s'.fids[k]? = some f) : HandleFrom s s' f.handle := .kept (he ▸ hk)

theorem handles_bindFid (he : s'.fids = s.fids.insert id fid) (hf : HandleFrom s s' fid.handle)
    (k : FidId) (f : Fid) (hk : s'.fids[k]? = some f) : HandleFrom s s' f.handle :=
  Fids.of_insert (P := fun f => HandleFrom s s' f.handle) handles_refl hf (he ▸ hk)

theorem handles_erase (he : s'.fids = s.fids.erase id) (k : FidId) (f : Fid)
    (hk : s'.fids[k]? = some f) : HandleFrom s s' f.handle :=
  Fids.of_erase (P := fun f => HandleFrom s s' f.handle) handles_refl (he ▸ hk)

theorem handles_relocate {old new : GuestPath} (he : s'.fids = s.fids.relocate old new)
    (k : FidId) (f : Fid) (hk : s'.fids[k]? = some f) : HandleFrom s s' f.handle :=
  Fids.of_relocate (P := fun f => HandleFrom s s' f.handle) handles_refl (fun _ _ _ hf => hf)
    (he ▸ hk)

theorem confined_same (hs : s.Sound) (ht : ∀ reply, r = .ok reply → s.Tells reply) :
    Confined s r s where
  root_eq := rfl
  changes := changesInside_refl hs
  handles := handles_refl
  tells reply hr := .inl (ht reply hr)

theorem confined_error {e : ShareError} (hs : s.Sound) : Confined s (.error e) s :=
  confined_same hs fun _ hr => by cases hr

/-! ## Looking -/

theorem StaysInside.knows (hs : s.Sound) (hp : s.StaysInside p) (hn : s.node p = .ok n) :
    s.Knows n := hp.inside_of_inspect hs (node_eq_ok_iff.mp hn).1

theorem knows_of_step (hs : s.Sound) (hp : s.StaysInside p) (hn : s.step p name = some n) :
    s.Knows n ∧ s.StaysInside n.path := by
  obtain ⟨-, hm, hin⟩ := step_eq_some hn
  have hpath : n.path = p.next name := path_of_node hm
  have hstays : s.StaysInside (p.next name) := by
    unfold GuestPath.next at hin ⊢
    split_ifs at hin ⊢
    · exact hp
    · exact hp.of_prefix (List.dropLast_prefix p)
    · exact hp.concat hin
  exact ⟨hstays.knows hs hm, hpath ▸ hstays⟩

theorem knows_of_steps (hs : s.Sound) (hp : s.StaysInside p) :
    ∀ m ∈ s.steps p names, s.Knows m := by
  induction names generalizing p with
  | nil => exact fun _ hm => absurd hm List.not_mem_nil
  | cons name names ih =>
    intro m hm
    rw [steps] at hm
    split at hm
    next => cases hm
    next n hn =>
      obtain ⟨hknows, hstays⟩ := knows_of_step hs hp hn
      rcases List.mem_cons.mp hm with rfl | hm
      · exact hknows
      · exact ih hstays m hm

theorem tells_walk (hs : s.Sound) (hp : s.StaysInside p) :
    s.Tells (.walk ((s.steps p names).map Node.qid)) := by
  intro q hq
  obtain ⟨m, hm, rfl⟩ := List.mem_map.mp hq
  exact ⟨m, knows_of_steps hs hp m hm, rfl⟩

theorem tellsLink_of_linkText {t : String} (hs : s.Sound) (hp : s.StaysInside p)
    (ht : s.linkText p = .ok (some t)) : s.TellsLink t := by
  rcases linkText_eq_ok ht with ⟨t', ht', he⟩ | ⟨-, i, n, hi, ⟨b, hb, he⟩ | ⟨-, he⟩⟩
  · cases he
    exact .inl ⟨_, ht'⟩
  · cases he
    obtain ⟨hin, hnode⟩ := hp.inside_of_inspect hs hi
    refine .inr ⟨i, b, hin, ?_, rfl⟩
    rw [Host.target?_eq_some_iff, Host.body?_of_node? hnode, hb]
  · cases he

theorem tells_entriesFrom (hp : s.StaysInside p) {budget position : Nat} :
    ∀ e ∈ s.entriesFrom p budget position names,
      e.name ∈ names ∧ ∃ n, s.Knows n ∧ e.qid = n.qid ∧ e.kind = n.entryType := by
  induction names generalizing budget position with
  | nil => exact fun _ he => absurd he List.not_mem_nil
  | cons name names ih =>
    intro e he
    rw [entriesFrom] at he
    split at he
    next =>
      obtain ⟨hmem, hn⟩ := ih e he
      exact ⟨List.mem_cons_of_mem _ hmem, hn⟩
    next n hn =>
      simp only at he
      split_ifs at he
      · cases he
      · rcases List.mem_cons.mp he with rfl | he
        · refine ⟨List.mem_cons_self, n, ?_, rfl, rfl⟩
          obtain ⟨-, dir, hf, hl, hnode⟩ := inspect_concat_eq_ok_iff.mp (node_eq_ok_iff.mp hn).1
          exact ⟨(hp.inside hf).child? (Host.lookup_eq_ok_iff.mp hl).2.2, hnode⟩
        · obtain ⟨hmem, hn⟩ := ih e he
          exact ⟨List.mem_cons_of_mem _ hmem, hn⟩

theorem handleFrom_listing (hp : s.StaysInside p) (hl : s.listing p = .ok names) :
    HandleFrom s s' (.dir names) := by
  obtain ⟨ns, hns, hl⟩ := Outcome.bind_eq_ok_iff.mp hl
  cases hl
  have hlist := Outcome.mapError_eq_ok_iff.mp hns
  unfold Host.listDir at hlist
  obtain ⟨place, hf, hlist⟩ := Outcome.bind_eq_ok_iff.mp hlist
  obtain ⟨es, hes, hlist⟩ := Outcome.bind_eq_ok_iff.mp hlist
  cases hlist
  exact .dir (hp.inside hf) (Host.entriesAt_eq_ok_iff.mp hes)

theorem tellsBytes_of_read {d : Descriptor} {offset count : Nat} {data : Bytes}
    (hid : s.fids[id]? = some fid) (hh : fid.handle = .file d)
    (hd : d.read offset count s.host = .ok data) : s.TellsBytes data := by
  unfold Descriptor.read at hd
  split_ifs at hd
  · cases hd
    exact .inr (.inr rfl)
  · split at hd
    next c hc =>
      cases hd
      exact .inl ⟨d.ino, c, _, _, .inr ⟨id, fid, d, hid, hh, rfl⟩, hc, rfl⟩
    next => cases hd
    next => cases hd

/-! ## Opening -/

theorem Opened.confined {handle : FidHandle} (ho : s.Opened p handle h) (hs : s.Sound)
    (hp : s.StaysInside p) :
    s.ChangesInside h ∧ ∀ s' : Share, s'.root = s.root → s'.host = h → HandleFrom s s' handle := by
  cases ho with
  | unopened => exact ⟨changesInside_refl hs, fun _ _ _ => .unopened⟩
  | dir listed => exact ⟨changesInside_refl hs, fun _ _ _ => handleFrom_listing hp listed⟩
  | file found node edits =>
    have hin := hp.inside found
    refine ⟨changesInside_edit hs (.inl hin) edits, fun s' hr hh => .file ?_⟩
    subst hh
    rw [node, ← inside_on_iff hr]
    exact (Sound.inside_sameTree edits.sameTree).mpr hin

/-! ## Making nodes -/

theorem knows_entry {dir : Place} (hr : s'.root = s.root)
    (hd : s'.host.find .follow (s.hostPath p) = .ok dir) (hin : s'.Inside dir.ino)
    (hn : s'.node (p ++ [name]) = .ok n) : s'.Knows n := by
  obtain ⟨-, dir', hf, hl, hnode⟩ := inspect_concat_eq_ok_iff.mp (node_eq_ok_iff.mp hn).1
  have hpath : s'.hostPath p = s.hostPath p := by rw [hostPath, hostPath, hostNames, hr, hostNames]
  rw [hpath, hd] at hf
  cases hf
  exact ⟨hin.child? (Host.lookup_eq_ok_iff.mp hl).2.2, hnode⟩

theorem StaysInside.makes {b : Body} (hs : s.Sound) (hp : s.StaysInside p) (hb : b.Bare)
    (hm : s.Makes p name b h) :
    s.ChangesInside h ∧
      ∃ dir, h.find .follow (s.hostPath p) = .ok dir ∧ (s.on h).Inside dir.ino := by
  obtain ⟨dir, mode, hf, hn, hl, rfl⟩ := hm
  obtain ⟨hdir, -, hnone⟩ := Host.lookup_eq_ok_iff.mp hl
  have hin := hp.inside hf
  have hfree : ∀ j, s.host.child? dir.ino (Name.ofText name) = some j →
      s.host.isDirectory j = false ∧ s.host.target? j = none := by
    intro j hj
    rw [hnone] at hj
    cases hj
  have hput : Host.Puts (· = dir.ino) s.host
      (s.host.create dir.ino (Name.ofText name) b mode).2 :=
    Host.Puts.refl.put rfl hdir hn (fun j hj => by rw [hnone] at hj; cases hj) hb
  refine ⟨changesInside_create hs hin hn hl hb, dir,
    (Host.create_grows hdir hb hfree).find hdir hf, ?_⟩
  obtain ⟨ns, hns⟩ := hin
  exact ⟨ns, hput.descend_of_isDirectory hdir hns⟩

theorem StaysInside.creates {d : Descriptor} (hs : s.Sound) (hp : s.StaysInside p)
    (hcase : (∃ dir, s.host.find .follow (s.hostPath p) = .ok dir ∧
        s.host.lookup dir (Name.ofText name) = .ok (some d.ino) ∧
        s.host.isDirectory d.ino = false ∧ Host.EditsIn (· = d.ino) s.host h) ∨
      (d.ino = s.host.nodes.size ∧ s.Makes p name (.file .empty) h)) :
    s.ChangesInside h ∧ (s.on h).Inside d.ino ∧
      ∃ dir, h.find .follow (s.hostPath p) = .ok dir ∧ (s.on h).Inside dir.ino := by
  obtain ⟨dir, hf, hl, -, hedit⟩ | ⟨hd, hm⟩ := hcase
  · have hin := hp.inside hf
    obtain ⟨hdd, -, he⟩ := Host.lookup_eq_ok_iff.mp hl
    have hout : ∀ i, s.Inside i → (s.on h).Inside i := fun i hi =>
      (Sound.inside_sameTree hedit.sameTree).mpr hi
    exact ⟨changesInside_edit hs (.inl (hin.child? he)) hedit, hout _ (hin.child? he), dir,
      hedit.sameTree.grows.find hdd hf, hout _ hin⟩
  · obtain ⟨hc, hfind⟩ := hp.makes hs (Body.bare_file _) hm
    have hsize : h.nodes.size = s.host.nodes.size + 1 := by
      obtain ⟨_, _, -, -, -, rfl⟩ := hm
      exact Host.size_create
    refine ⟨hc, hc.fresh d.ino (Nat.le_of_eq hd.symm) ?_, hfind⟩
    rw [hsize, hd]
    exact Nat.lt_succ_self _

/-! ## Moving and removing -/

theorem Renames.changesInside {p' : GuestPath} {name' : String} {dir dir' : Place}
    (hr : s.Renames p name p' name' dir dir' i h) (hs : s.Sound) (hp : s.StaysInside p)
    (hp' : s.StaysInside p') : s.ChangesInside h := by
  obtain ⟨-, rfl⟩ | ⟨hfree, -, rfl⟩ := hr.tree
  · exact changesInside_refl hs
  · obtain ⟨hdd, -, he⟩ := Host.lookup_eq_ok_iff.mp hr.entry
    obtain ⟨hdd', hlen⟩ := hfree.isDirectory
    exact changesInside_move hs (hp.inside hr.found) hdd (hp'.inside hr.found') hdd'
      ⟨hr.noNul, hlen⟩ he

theorem Unlinks.changesInside {dir : Place} (hu : s.Unlinks p name dir i) (hs : s.Sound)
    (hp : s.StaysInside p) : s.ChangesInside (s.host.unbind dir.ino (Name.ofText name)) :=
  changesInside_unbind hs (hp.inside hu.found) (Host.lookup_eq_ok_iff.mp hu.entry).1

end Share

/-- The fids whose paths a request follows. -/
def Request.fids : Request → List FidId
  | .walk fid .. | .lopen fid _ | .open fid _ | .lcreate fid .. | .symlink fid .. | .mknod fid ..
  | .readlink fid | .getattr fid _ | .setattr fid _ | .readdir fid .. | .mkdir fid ..
  | .unlinkat fid .. | .read fid .. | .remove fid => [fid]
  | .renameat oldDir _ newDir _ => [oldDir, newDir]
  | .version .. | .attach .. | .flush _ | .fsync .. | .write .. | .clunk _ | .unknown _ => []

namespace Share

/-- The paths of the fids that a request follows stay inside. -/
def Guards (s : Share) (r : Request) : Prop :=
  ∀ id ∈ r.fids, ∀ fid, s.fids[id]? = some fid → s.StaysInside fid.path

variable {s s' : Share} {r : Request} {x : Except ShareError Reply} {reply : Reply}

theorem Sees.tells (hv : s.Sees r reply) (hs : s.Sound) (hg : s.Guards r) : s.Tells reply := by
  cases hv with
  | flush | fsync => trivial
  | walk source => exact tells_walk hs (hg _ List.mem_cons_self _ source)
  | readlink source link =>
    exact tellsLink_of_linkText hs (hg _ List.mem_cons_self _ source) link
  | getattr source node => exact ⟨_, (hg _ List.mem_cons_self _ source).knows hs node, rfl⟩
  | readdir source listed =>
    refine ⟨_, _, _, source, listed, fun e he => ?_⟩
    obtain ⟨hmem, hn⟩ := tells_entriesFrom (hg _ List.mem_cons_self _ source) e he
    exact ⟨List.drop_subset _ _ hmem, hn⟩
  | read source held found => exact tellsBytes_of_read source held found
  | readTarget source link =>
    exact .inr (.inl ⟨_, _, _, tellsLink_of_linkText hs (hg _ List.mem_cons_self _ source) link,
      rfl⟩)

/-- **Every act is confined** while the paths that it follows stay inside. -/
theorem Act.confined (ha : Act s r x s') (hs : s.Sound) (hg : s.Guards r) : Confined s x s' := by
  have quiet : ∀ {t : Share} {reply : Reply}, s.Tells reply →
      ∀ reply', (.ok reply : Except ShareError Reply) = .ok reply' →
        s.Tells reply' ∨ t.Tells reply' := fun ht _ he => by
    cases he
    exact .inl ht
  cases ha with
  | fail => exact confined_error hs
  | look sees => exact confined_same hs fun _ he => by cases he; exact sees.tells hs hg
  | begin =>
    exact ⟨rfl, changesInside_refl hs, fun k f hk => by simp [reset] at hk, quiet trivial⟩
  | makeRoot made =>
    obtain rfl := made.symm.trans hs.makeRoot_eq
    exact confined_error hs
  | @attach id afid uname aname uid n h made node =>
    obtain rfl : h = s.host := made.symm.trans hs.makeRoot_eq
    have hknows : s.Knows n := by
      obtain ⟨place, hf, hi, hnode⟩ := inspect_eq_ok_iff.mp (node_eq_ok_iff.mp node).1
      change s.host.find .keep (s.hostPath []) = _ at hf
      rw [hostPath, hostNames_nil, hs.find_root_eq_ok_iff] at hf
      exact ⟨⟨[], by rw [List.append_nil, hf.1, hi]⟩, hnode⟩
    exact ⟨rfl, changesInside_refl hs, handles_bindFid rfl .unopened, quiet ⟨n, hknows, rfl⟩⟩
  | walk source =>
    exact ⟨rfl, changesInside_refl hs, handles_bindFid rfl .unopened,
      quiet (tells_walk hs (hg _ List.mem_cons_self _ source))⟩
  | «open» opening source node opened =>
    have hp := hg _ (by cases opening <;> exact List.mem_cons_self) _ source
    obtain ⟨hc, hh⟩ := opened.confined hs hp
    refine ⟨rfl, hc, handles_bindFid rfl (hh _ rfl rfl), quiet ?_⟩
    cases opening <;> exact ⟨_, hp.knows hs node, rfl⟩
  | create source entry there after node =>
    obtain ⟨hc, hd, dir, hf, hin⟩ := StaysInside.creates hs
      (hg _ List.mem_cons_self _ (directory_eq_ok_iff.mp source).1) there
    subst after
    refine ⟨rfl, hc, handles_bindFid rfl (.file hd), fun _ he => ?_⟩
    cases he
    exact .inr ⟨_, knows_entry (s := s) rfl hf hin node, rfl⟩
  | make source entry makes records after node =>
    have hp := hg _ (by cases records <;> exact List.mem_cons_self) _
      (directory_eq_ok_iff.mp source).1
    obtain ⟨hc, dir, hf, hin⟩ := hp.makes hs records.bare makes
    subst after
    refine ⟨rfl, hc, handles_of_fids_eq rfl, fun _ he => ?_⟩
    cases he
    exact .inr (by cases records <;> exact ⟨_, knows_entry (s := s) rfl hf hin node, rfl⟩)
  | set source node edits records answers =>
    have hp := hg _ List.mem_cons_self _ source
    have hin : Host.EditsIn s.Inside s.host _ := edits.mono fun i hi => by
      obtain ⟨place, hf, rfl⟩ := hi
      exact hp.inside hf
    refine ⟨rfl, changesInside_edits hs (fun i hi => .inl hi) hin, handles_of_fids_eq rfl,
      fun reply he => ?_⟩
    rw [answers reply he]
    exact .inl trivial
  | write source held edits answers =>
    refine ⟨rfl, changesInside_edit hs (.inr ⟨_, _, _, source, held, rfl⟩) edits,
      handles_of_fids_eq rfl, fun reply he => ?_⟩
    obtain ⟨count, rfl⟩ := answers reply he
    exact .inl trivial
  | move source source' entry entry' renames =>
    have hp := hg _ List.mem_cons_self _ (directory_eq_ok_iff.mp source).1
    have hp' := hg _ (List.mem_cons_of_mem _ List.mem_cons_self) _
      (directory_eq_ok_iff.mp source').1
    exact ⟨rfl, renames.changesInside hs hp hp', handles_relocate rfl, quiet trivial⟩
  | unlink source entry unlinks =>
    have hp := hg _ List.mem_cons_self _ (directory_eq_ok_iff.mp source).1
    exact ⟨rfl, unlinks.changesInside hs hp, handles_of_fids_eq rfl, quiet trivial⟩
  | @remove id fid p name dir i source path unlinks =>
    have hp : s.StaysInside (p ++ [name]) := path ▸ hg _ List.mem_cons_self _ source
    exact ⟨rfl, unlinks.changesInside hs (hp.of_prefix (List.prefix_append p [name])),
      handles_erase rfl, quiet trivial⟩
  | drop drops =>
    refine ⟨rfl, changesInside_refl hs, handles_erase rfl, fun reply he => ?_⟩
    obtain ⟨-, rfl⟩ | ⟨-, e, rfl⟩ := drops
    · cases he
      exact .inl trivial
    · cases he

/-- **A request is confined** while the paths that it follows stay inside. -/
theorem perform_confined (hs : s.Sound) (hg : s.Guards r) :
    Confined s (s.perform r).1 (s.perform r).2 := (perform_act rfl).confined hs hg

end Share

end GuestShare
