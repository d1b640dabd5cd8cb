import GuestShare.Proofs.Share.Kinds
import GuestShare.Proofs.Share.Lasting

/-!
# A node reports what it was made with

Whoever makes a node and comes back later, after whatever other clients have done elsewhere and
after new starts of the server, finds it as it was made. This needs an export without links of the
host, records that are kept outside of it, and a server that can write them when it is asked.

* `Share.Reports`: what a fid tells is what its node was made with.
* **`Born.lasts`**: the records of a new node last once they are written.
* **`Sound.recordsAt_ofNames`**: an absolute path of names that the export is not above keeps
  leading to its directory.
* **`reachable_reports`**: a walk to the path of a node that was made finds it, and it reports so.
* **`exists_not_reports`**: not so if there are records that cannot be written.
-/

namespace GuestShare

namespace Share

/-- What is told of the node of a fid is what it was made with. -/
structure Reports (s : Share) (id : FidId) (b : Birth) : Prop where
  getattr : ∀ mask, ∃ a, (s.answer (.getattr id mask)).1 = .ok (.getattr a) ∧
    a.mode = b.kind.typeBits ||| (b.mode &&& permissionMask) ∧ a.qid.kind = b.kind.qidKind ∧
    a.uid = b.uid ∧ a.gid = b.gid ∧
    (∀ major minor, b.numbers = some (major, minor) →
      majorOf a.rdev = major.toUInt64 ∧ minorOf a.rdev = minor.toUInt64) ∧
    ∀ target, b.target = some target → a.size.toNat = (Bytes.ofText target).length
  readlink : ∀ target, b.target = some target →
    (s.answer (.readlink id)).1 = .ok (.readlink target)

variable {s s₀ t t' : Share} {r : Request} {b : Birth} {p rest : GuestPath} {i m : Ino}
  {o : ShareOptions} {id : FidId} {fid : Fid} {name : String} {reply : Reply} {h : Host}
  {ns : List Name}

/-! ## New records -/

theorem Reachable.holdsNodes (hr : s₀.Reachable s) (hp : s₀.Plain) (hs : s₀.HoldsNodes) :
    s.HoldsNodes := by
  induction hr with
  | refl => exact hs
  | @respond t frame hr ih =>
    obtain ⟨-, -, hafter, -⟩ | ⟨r, -, hafter, -⟩ := t.respond_cases frame
    · rw [hafter]
      exact ih
    · rw [hafter]
      exact ((hp.of_reachable hr).perform_holdsNodes ih).flushRecords
  | reset _ _ => exact fun _ hi => (not_holds rfl hi).elim

theorem Reachable.dir_eq (hr : s₀.Reachable s) : s.store.dir = s₀.store.dir :=
  hr.invariant (P := fun s => s.store.dir = s₀.store.dir) rfl
    (fun t r ht => Store.flush_sameRecords.dir.trans ((perform_kept t r).dir.trans ht))
    fun _ ht => ht

/-- **The records of a new node last** once they are written. -/
theorem Born.lasts (hb : s.Born b) (hp : s.Plain) (hs : s.HoldsNodes)
    (hok : s.flushRecords.1 = .ok ()) (hm : s.flushRecords.2.RecordsAt m) :
    s.flushRecords.2.Lasts m b.path (s.store.overlay b.path.key) s.flushRecords.2 := by
  have hplain := hp.flushRecords
  obtain ⟨i, hi⟩ := hb.has
  obtain ⟨i', hi', -⟩ :=
    (Store.flush_puts (s := s.store)).exists_descend hp.sound.isTree hi
  obtain ⟨place, hplace, rfl⟩ := hm.leads _ hplain.sound.isTree (.refl _ _)
  have hdir : s.flushRecords.2.store.dir = s.store.dir := Store.flush_sameRecords.dir
  rw [hdir] at hplace
  refine ⟨hplain, rfl, rfl, ⟨i', hi'⟩, hs.flushRecords, Nat.le_refl _, fun _ _ h => h, .refl _ _,
    ?_, fun c hc => ?_⟩
  · rw [overlay_flushRecords]
    exact .refl _
  · obtain ⟨j, hj, hnew, hnames⟩ :=
      Store.filed_of_flush hp.sound.isTree hok (hb.pending c hc) (.refl _) hplace
    refine ⟨j, hj, ?_, fun h => Nat.not_lt.mpr hnew (hs j h)⟩
    exact hplain.sound.not_inside_of_names hj.not_isDirectory fun d name he =>
      hnames d name he ▸ hm.not_inside

/-- **An absolute path of names keeps leading to its directory** if the export is not above it. -/
theorem Sound.recordsAt_ofNames (hs : s.Sound)
    (hpath : Store.dirPath s.store.dir = Path.ofNames ns) (hns : s.host.descend 0 ns = some m)
    (hdir : s.host.isDirectory m = true) (hout : ¬ s.root <+: ns) : s.RecordsAt m where
  not_inside h := hout (hs.prefix_of_inside h hdir hns)
  leads h ht hg := by
    rw [hpath]
    refine hg.hasDir_ofNames ht hns hdir fun front name d hfront hd => ?_
    obtain ⟨rest, rfl⟩ := hfront
    rw [List.append_assoc, List.singleton_append, Host.descend_append_of_eq hd] at hns
    have hdirectory := Host.isDirectory_of_descend hns
    rintro (hin | ⟨rfl, -⟩)
    · have hroot : s.root <+: front := hs.prefix_of_inside hin hdirectory hd
      exact hout (hroot.trans ((List.prefix_append _ _).trans (List.prefix_append _ _)))
    · have hall : s.host.descend 0 (front ++ (name :: rest)) = some d := by
        rw [Host.descend_append_of_eq hd, hns]
      simpa using hs.isTree.descend_unique hdirectory hd hall

/-! ## Walking to a path -/

theorem Has.of_append (hi : s.Has (p ++ rest) i) : ∃ j, s.Has p j := by
  unfold Has at hi ⊢
  rw [hostNames_append, Host.descend_append] at hi
  obtain ⟨j, hj, -⟩ := Option.bind_eq_some_iff.mp hi
  exact ⟨j, hj⟩

theorem Plain.step_of_has (hp : s.Plain) (hn : isEntryName name = true)
    (hi : s.Has (p ++ [name]) i) : ∃ n, s.step p name = some n ∧ n.path = p ++ [name] := by
  obtain ⟨hplain, hhere, hup⟩ := isEntryName_iff.mp hn
  obtain ⟨n, hinspect⟩ := hi.exists_inspect hp.linkFree hp.sound
  have hnode := node_of_inspect hinspect
  have hstays : s.staysInside (p ++ [name]) = true := by
    obtain ⟨place, hplace, hnames, rfl⟩ := Host.exists_place hi
    have hfind : s.host.find .follow (s.hostPath (p ++ [name])) = .ok place :=
      (hp.linkFree.find_eq_ok_iff hp.sound).mpr ⟨hi, hnames, hplace⟩
    exact hp.linkFree.staysInside hp.sound _ List.prefix_rfl place.names
      (Outcome.map_eq_ok_iff.mpr ⟨place, hfind, rfl⟩)
  refine ⟨s.nodeOf (p ++ [name]) i n, ?_, rfl⟩
  unfold step
  simp only [hplain, Bool.not_true, Bool.false_eq_true, if_false, GuestPath.next, hhere, hup,
    hnode, hstays, if_true]

theorem Plain.steps_of_has (hp : s.Plain) (hv : rest.Valid) (hi : s.Has (p ++ rest) i) :
    (s.steps p rest).length = rest.length ∧
      ∀ n, (s.steps p rest).getLast? = some n → n.path = p ++ rest := by
  induction rest generalizing p with
  | nil => exact ⟨rfl, fun _ hn => by cases hn⟩
  | cons name rest ih =>
    rw [List.append_cons] at hi
    obtain ⟨j, hj⟩ := hi.of_append
    obtain ⟨n, hn, hpath⟩ := hp.step_of_has (hv name List.mem_cons_self) hj
    obtain ⟨hlen, hlast⟩ := ih (fun x hx => hv x (List.mem_cons_of_mem _ hx)) hi
    rw [steps, hn, List.append_cons]
    simp only [hpath, List.length_cons, hlen, true_and]
    intro l hl
    cases hsteps : s.steps (p ++ [name]) rest with
    | nil =>
      rw [hsteps] at hl hlen
      obtain rfl : rest = [] := List.length_eq_zero_iff.mp hlen.symm
      obtain rfl : n = l := Option.some.inj hl
      rw [hpath, List.append_nil]
    | cons n' ns =>
      rw [hsteps, List.getLast?_cons_cons] at hl
      exact hlast l (hsteps ▸ hl)

/-- **A walk to what is below a fid binds a fid to it**, of the same owner. -/
theorem Plain.walk_of_has (newId : FidId) (hp : s.Plain) (hid : s.fids[id]? = some fid)
    (hv : rest.Valid) (hi : s.Has (fid.path ++ rest) i) :
    ∃ qids, s.perform (.walk id newId rest) = (.ok (.walk qids),
      s.bindFid newId { fid with path := fid.path ++ rest, handle := .unopened }) ∧
      qids.length = rest.length := by
  obtain ⟨hlen, hlast⟩ := hp.steps_of_has hv hi
  cases rest with
  | nil =>
    refine ⟨[], settle_eq_ok_iff.mpr ?_, rfl⟩
    simp [walk, Fids.find, hid]
  | cons name rest =>
    refine ⟨(s.steps fid.path (name :: rest)).map Node.qid, settle_eq_ok_iff.mpr ?_, by
      rw [List.length_map, hlen]⟩
    have hne : s.steps fid.path (name :: rest) ≠ [] := fun h => by
      rw [h] at hlen
      cases hlen
    have hl := List.getLast?_eq_some_getLast hne
    simp only [walk, Fids.find, hid, Outcome.ok_bind, List.isEmpty_cons, Bool.false_eq_true,
      if_false, hl, hlen, if_true, hlast _ hl]
    rfl

/-! ## Owners -/

/-- An attach on the way from one state to another asked for an owner, or for none and got the first
user. -/
def Asked (s₀ s : Share) (owner : UInt32) : Prop :=
  ∃ t frame tag k afid uname aname uid, s₀.Reachable t ∧
    Frame.toRequest frame = .ok ⟨tag, .attach k afid uname aname uid⟩ ∧
    (t.respond frame).2.2.Reachable s ∧ owner = if uid = noId then 0 else uid

theorem Asked.respond {owner : UInt32} (frame : Bytes) (ha : Asked s₀ s owner) :
    Asked s₀ (s.respond frame).2.2 owner := by
  obtain ⟨t, frame', tag, k, afid, uname, aname, uid, ht, hf, hreach, howner⟩ := ha
  exact ⟨t, frame', tag, k, afid, uname, aname, uid, ht, hf, hreach.respond frame, howner⟩

/-- **Every fid has an owner whom an attach asked for.** -/
theorem Reachable.asked (hr : s₀.Reachable s) (h0 : s₀.fids = ∅)
    (hid : s.fids[id]? = some fid) : Asked s₀ s fid.uid := by
  induction hr generalizing id fid with
  | refl =>
    rw [h0] at hid
    cases hid
  | @respond t frame hr ih =>
    obtain ⟨-, -, hafter, -⟩ | ⟨⟨tag, r⟩, hframe, hafter, -⟩ := t.respond_cases frame
    · rw [hafter] at hid
      exact (ih hid).respond frame
    · rw [hafter] at hid
      obtain ⟨k, f, hf, huid⟩ | ⟨k, afid, uname, aname, uid, rfl, huid⟩ := perform_owned hid
      · exact huid ▸ (ih hf).respond frame
      · exact ⟨t, frame, tag, k, afid, uname, aname, uid, hr, hframe, .refl, huid⟩
  | reset _ _ => cases hid

theorem exists_fid_of_birth (hb : s.birth r = some b) :
    ∃ (k : FidId) (f : Fid), s.fids[k]? = some f ∧ f.uid = b.uid := by
  cases r with
  | lcreate k _ _ _ _ | symlink k _ _ _ | mkdir k _ _ _ =>
    obtain ⟨f, hf, rfl⟩ := Option.map_eq_some_iff.mp hb
    exact ⟨k, f, hf, rfl⟩
  | mknod k _ _ _ _ _ =>
    obtain ⟨f, hf, hb⟩ := Option.bind_eq_some_iff.mp hb
    obtain ⟨kind, -, hb⟩ := Option.bind_eq_some_iff.mp hb
    cases hb
    exact ⟨k, f, hf, rfl⟩
  | _ => cases hb

/-! ## What is told -/

/-- **Records that say what a node was made with are told.** -/
theorem Plain.reports (hp : s.Plain) (hid : s.fids[id]? = some fid) (hi : s.Has fid.path i)
    (hrec : (s.store.overlay fid.path.key).Records b) (hok : s.flushRecords.1 = .ok ())
    (hlen : ∀ target, b.target = some target →
      (Bytes.ofText target).length ≤ CategoryFile.limit) : s.Reports id b where
  getattr mask := by
    obtain ⟨n, hn⟩ := hi.exists_inspect hp.linkFree hp.sound
    obtain ⟨⟨perms, hperms, hmode, huid, hgid⟩, hkind, htarget, hnumbers⟩ := hrec
    have hkey : s.store.kind fid.path.key = some b.kind := hkind
    have hperms' : s.store.permission fid.path.key = some perms := hperms
    refine (answer_getattr_iff hid hn).mpr ⟨⟨?_, ?_, ?_, ?_, fun major minor hd => ?_,
      fun target ht => ?_⟩, hok⟩
    · simp only [Node.attr, nodeOf, Node.key, hkey, hperms', Option.getD_some, hmode]
    · simp only [Node.attr, Node.qid, nodeOf, hkey, Option.getD_some]
    · simp only [Node.attr, nodeOf, Node.key, hperms', Option.map_some, Option.getD_some, huid]
    · simp only [Node.attr, nodeOf, Node.key, hperms', Option.map_some, Option.getD_some, hgid]
    · obtain ⟨d, hdev, hmajor, hminor⟩ := hnumbers major minor hd
      have hdev' : s.store.device fid.path.key = some d := hdev
      simp only [Node.attr, nodeOf, Node.key, hdev', Option.map_some, Option.getD_some]
      exact ⟨hmajor, hminor⟩
    · obtain ⟨hlink, hsym⟩ := htarget target ht
      have hsym' : s.store.symlink fid.path.key = some target := hsym
      have hsize : (s.nodeOf fid.path i n).size s.store = (Bytes.ofText target).length := by
        simp only [Node.size, nodeOf, Node.key, hkey, hlink, hsym', Option.getD_some]
      rw [show ((s.nodeOf fid.path i n).attr s.store s.host).size =
        UInt64.ofNat ((s.nodeOf fid.path i n).size s.store) from rfl, hsize]
      exact UInt64.toNat_ofNat_of_lt' (Nat.lt_of_le_of_lt (hlen target ht) (by decide))
  readlink target ht := by
    have hsym : s.store.symlink fid.path.key = some target := (hrec.target target ht).2
    have hlook : ∀ reply s', s.readlink id = .ok (reply, s') → s' = s := by
      intro reply s' ho
      obtain ⟨_, _, -, -, -, hs⟩ := readlink_eq_ok_iff.mp ho
      exact hs
    refine (answer_look (r := .readlink id) rfl hlook).mpr ⟨?_, hok⟩
    refine readlink_eq_ok_iff.mpr ⟨fid, target, hid, ?_, rfl, rfl⟩
    simp [linkText, hsym]

/-- **A node reports what it was made with** for as long as nobody touches it, if the records are
outside the export and can be written. Whoever walks to its path finds it. -/
theorem reachable_reports (hh : h.WellFormed) (hs : (start o h).1 = .ok s₀) (hl : s₀.LinkFree)
    (hr : s₀.Reachable s) (hb : s.birth r = some b) (hreply : (s.answer r).1 = .ok reply)
    (hm : (s.answer r).2.2.RecordsAt m) (ht : Later o b.path (s.answer r).2.2 t)
    (hid : t.fids[id]? = some fid) (hrest : fid.path ++ rest = b.path)
    (hok : t.flushRecords.1 = .ok ()) :
    Asked s₀ s b.uid ∧
      ∀ newId, ∃ qids, (t.answer (.walk id newId rest)).1 = .ok (.walk qids) ∧
        qids.length = rest.length ∧ (t.answer (.walk id newId rest)).2.2.Reports newId b := by
  have hstart := start_eq_ok hs
  have hp₀ := start_plain hh hs hl
  have hp := hp₀.of_reachable hr
  have hnew := hr.holdsNodes hp₀ fun _ hi => (not_holds hstart.2.2.2.2 hi).elim
  refine ⟨?_, fun newId => ?_⟩
  · obtain ⟨k, f, hf, huid⟩ := exists_fid_of_birth hb
    exact huid ▸ hr.asked hstart.2.2.2.2 hf
  -- the records are made, written, and last
  obtain ⟨hdone, hflush⟩ := answer_eq_ok_iff.mp hreply
  have hborn := hp.perform_birth hb ⟨reply, hdone⟩
  have hdir : (s.perform r).2.flushRecords.2.store.dir = o.metadataDir := by
    rw [show (s.perform r).2.flushRecords.2.store.dir = (s.perform r).2.store.dir from
      Store.flush_sameRecords.dir, (perform_kept s r).dir, hr.dir_eq, hstart.2.2.2.1]
    rfl
  rw [answer_snd] at hm ht
  have hbase := hborn.lasts (hp.perform r) (hp.perform_holdsNodes hnew) hflush hm
  have hlasts := ht.lasts hbase hm hdir hborn.valid
  obtain ⟨i, hi⟩ := hlasts.has
  rw [← hrest] at hi
  obtain ⟨qids, hwalk, hlen⟩ := hlasts.plain.walk_of_has newId hid
    (GuestPath.Valid.of_append_right (hrest ▸ hborn.valid)) hi
  have hfst : (t.perform (.walk id newId rest)).2.flushRecords.1 = .ok () := by
    rw [hwalk]
    exact hok
  refine ⟨qids, answer_eq_ok_iff.mpr ⟨congrArg Prod.fst hwalk, hfst⟩, hlen, ?_⟩
  -- the walk leaves the path alone too, and after it nothing is left to be written
  have hafter := (hlasts.perform (r := .walk id newId rest) hbase.plain.sound hm hborn.valid
    ⟨⟨fun _ h => (by cases h), fun _ _ _ h => (by cases h)⟩, fun _ h => (by cases h),
      fun h => (by cases h)⟩).flushRecords hbase.plain.sound hm
  rw [answer_snd]
  have hfid : (t.perform (.walk id newId rest)).2.flushRecords.2.fids[newId]? =
      some { fid with path := b.path, handle := .unopened } := by
    show (t.perform (.walk id newId rest)).2.fids[newId]? = _
    rw [hwalk, hrest]
    exact Std.ExtTreeMap.getElem?_insert_self
  obtain ⟨j, hj⟩ := hafter.has
  refine hafter.plain.reports hfid hj (hborn.records.of_le hafter.memory) ?_
    fun target htarget => ?_
  · exact congrArg Prod.fst (Store.flush_of_not_pending (Store.hasPending_flush hfst))
  · have hsym := (hborn.records.target target htarget).2
    obtain ⟨_, hfile, -⟩ := hafter.files .symlinks (by simp [Overlay.Has, hsym])
    exact hfile.length_target_le hsym

/-! ## Servers with a node that was made -/

theorem Plain.answer_sound (hp : s.Plain) : (s.answer r).2.2.Sound := by
  rw [answer_snd]
  exact (hp.perform r).flushRecords.sound

theorem exists_of_isOk {α : Type} {x : Except ShareError α} (hx : x.isOk = true) :
    ∃ a, x = .ok a := by
  cases x with
  | error e => cases hx
  | ok a => exact ⟨a, rfl⟩

theorem leavesAlone_attach {k afid : FidId} {uname aname : String} {uid : UInt32} :
    s.LeavesAlone (.attach k afid uname aname uid) p where
  removed _ h := by cases h
  moved _ _ _ h := by cases h
  made _ h := by cases h
  permitted h := by cases h

theorem Later.restart_attach (hl : Later o p s t) (ht : (start o t.host).1 = .ok t')
    (hroot : t'.root = t.root) : Later o p s (t'.respond attachFrame).2.2 := by
  refine (hl.restart ht hroot).respond attachFrame fun m hm => ?_
  rw [frames_eq_ok.1] at hm
  cases hm
  exact leavesAlone_attach

/-- A request that makes a link. -/
def linkRequest : Request := .symlink 0 "l" "target" 7

/-- What it makes the link with. -/
def linkBirth : Birth := ⟨["l"], .symlink, linkMode, 0, 7, none, some "target"⟩

theorem run_linkRequest :
    ((start ⟨"/export", "/meta", defaultIounit⟩ spareHost).1.bind fun s₀ =>
      let s := s₀.run [attachFrame]
      let u := (s.answer linkRequest).2.2
      (start ⟨"/export", "/meta", defaultIounit⟩ u.host).1.map fun t' =>
        let t := (t'.respond attachFrame).2.2
        (s.birth linkRequest, (s.answer linkRequest).1.isOk, u.root, Store.dirPath u.store.dir,
          u.host.child? 0 (Name.ofText "meta"), u.host.isDirectory 1, t'.root,
          t.fids[(0 : FidId)]?, t.flushRecords.1)) =
      .ok (some linkBirth, true, [Name.ofText "export"], Path.ofNames [Name.ofText "meta"], some 1,
        true, [Name.ofText "export"], some ⟨[], 0, .unopened⟩, .ok ()) := by
  cbv

/-- A link is found as it was made after a new start of the server. -/
theorem reachable_reports_link :
    ∃ s₀ s t qids, (start ⟨"/export", "/meta", defaultIounit⟩ spareHost).1 = .ok s₀ ∧
      s₀.LinkFree ∧ s₀.Reachable s ∧ s.birth linkRequest = some linkBirth ∧
      (s.answer linkRequest).2.2.RecordsAt 1 ∧
      Later ⟨"/export", "/meta", defaultIounit⟩ ["l"] (s.answer linkRequest).2.2 t ∧
      t.fids[(0 : FidId)]? = some ⟨[], 0, .unopened⟩ ∧
      (t.answer (.walk 0 1 ["l"])).1 = .ok (.walk qids) ∧
      (t.answer (.walk 0 1 ["l"])).2.2.Reports 1 linkBirth := by
  have hh : spareHost.WellFormed := ⟨by decide, Host.hasPlace_root⟩
  obtain ⟨s₀, hs⟩ :
      ∃ s, (start ⟨"/export", "/meta", defaultIounit⟩ spareHost).1 = .ok s := ⟨_, rfl⟩
  have hl : s₀.LinkFree := start_linkFree hs fun i => by rcases i with _ | _ | _ | _ | i <;> rfl
  have hrun := run_linkRequest
  rw [hs] at hrun
  simp only [Except.bind] at hrun
  have hr : s₀.Reachable (s₀.run [attachFrame]) := .run .refl
  generalize s₀.run [attachFrame] = s at hr hrun
  obtain ⟨t', ht', hrun⟩ := Outcome.map_eq_ok_iff.mp hrun
  simp only [Prod.mk.injEq] at hrun
  obtain ⟨hb, hreply, hroot, hpath, hchild, hdir, hroot', hid, hok⟩ := hrun
  obtain ⟨reply, hreply⟩ := exists_of_isOk hreply
  have hsound := ((start_plain hh hs hl).of_reachable hr).answer_sound (r := linkRequest)
  have hm : (s.answer linkRequest).2.2.RecordsAt 1 :=
    hsound.recordsAt_ofNames hpath (Host.descend_singleton.trans hchild) hdir
      (by rw [hroot]; decide)
  have ht := Later.refl.restart_attach (p := ["l"]) ht' (hroot'.trans hroot.symm)
  obtain ⟨-, hfound⟩ := reachable_reports hh hs hl hr hb hreply hm ht hid
    (show [] ++ ["l"] = linkBirth.path from rfl) hok
  obtain ⟨qids, hwalk, -, hreports⟩ := hfound 1
  exact ⟨s₀, s, _, qids, hs, hl, hr, hb, hm, ht, hid, hwalk, hreports⟩

/-- A host on which the file of the links is a directory. -/
def blockedHost : Host :=
  let add (path : String) (h : Host) : Host := ((Chore.dir 0o755).perform (Path.ofText path) h).2
  add "/export" <| add "/meta/symlinks.bin" <| .empty ⟨0, 0⟩

/-- A request that makes a directory. -/
def dirRequest : Request := .mkdir 0 "d" 0o700 0

/-- A node that is made with the records outside the export, and then left alone, does not report
what it was made with. -/
def Unreported (o : ShareOptions) (h : Host) (r : Request) : Prop :=
  ∃ s₀ s t b reply place, (start o h).1 = .ok s₀ ∧ s₀.LinkFree ∧ s₀.Reachable s ∧
    s.birth r = some b ∧ (s.answer r).1 = .ok reply ∧
    (s.answer r).2.2.host.HasDir (Store.dirPath (s.answer r).2.2.store.dir) place ∧
    ¬ (s.answer r).2.2.Inside place.ino ∧ Later o b.path (s.answer r).2.2 t ∧
    t.fids[(0 : FidId)]? = some ⟨[], 0, .unopened⟩ ∧
    ¬ (t.answer (.walk 0 1 b.path)).2.2.Reports 1 b

/-- A directory is made, but the records of a link cannot be written, and so nothing is told. -/
theorem run_blockedHost :
    ((start ⟨"/export", "/meta", defaultIounit⟩ blockedHost).1.map fun s₀ =>
      let s := s₀.run [attachFrame]
      let u := (s.answer dirRequest).2.2
      let t := (u.respond (requestFrame linkRequest)).2.2
      (s.birth dirRequest, (s.answer dirRequest).1.isOk, u.root,
        u.host.find .follow (Store.dirPath u.store.dir), u.host.isDirectory 1,
        u.host.child? 0 (Name.ofText "meta"), u.madePath linkRequest, t.fids[(0 : FidId)]?,
        ((t.answer (.walk 0 1 ["d"])).2.2.answer (.getattr 1 0)).1)) =
      .ok (some ⟨["d"], .directory, 0o700, 0, 0, none, none⟩, true, [Name.ofText "export"],
        .ok ⟨[(Name.ofText "meta", 1)]⟩, true, some 1, some ["l"], some ⟨[], 0, .unopened⟩,
        .error (.store .io)) := by
  cbv

theorem unreported_blockedHost :
    Unreported ⟨"/export", "/meta", defaultIounit⟩ blockedHost dirRequest := by
  have hh : blockedHost.WellFormed := ⟨by decide, Host.hasPlace_root⟩
  obtain ⟨s₀, hs⟩ :
      ∃ s, (start ⟨"/export", "/meta", defaultIounit⟩ blockedHost).1 = .ok s := ⟨_, rfl⟩
  have hl : s₀.LinkFree := start_linkFree hs fun i => by rcases i with _ | _ | _ | _ | i <;> rfl
  have hrun := run_blockedHost
  rw [hs] at hrun
  simp only [Except.map, Except.ok.injEq, Prod.mk.injEq] at hrun
  have hr : s₀.Reachable (s₀.run [attachFrame]) := .run .refl
  generalize s₀.run [attachFrame] = s at hr hrun
  obtain ⟨hb, hreply, hroot, hfind, hdir, hchild, hmade, hid, htold⟩ := hrun
  obtain ⟨reply, hreply⟩ := exists_of_isOk hreply
  have hsound := ((start_plain hh hs hl).of_reachable hr).answer_sound (r := dirRequest)
  refine ⟨s₀, s, _, _, reply, _, hs, hl, hr, hb, hreply, ⟨hfind, hdir⟩, fun hin => ?_,
    Later.refl.respond (requestFrame linkRequest) fun m hm => ?_, hid, fun hreports => ?_⟩
  · have hroot' := hsound.prefix_of_inside hin hdir (Host.descend_singleton.trans hchild)
    rw [hroot] at hroot'
    exact absurd hroot' (by decide)
  · rw [show Frame.toRequest (requestFrame linkRequest) = .ok ⟨1, linkRequest⟩ from rfl] at hm
    cases hm
    exact ⟨⟨fun _ h => (by cases h), fun _ _ _ h => (by cases h)⟩,
      fun _ h => absurd (hmade.symm.trans h) (by decide), fun h => (by cases h)⟩
  · obtain ⟨a, ha, -⟩ := hreports.getattr 0
    cases htold.symm.trans ha

/-- A host with a directory in the export that a metadata path may lead through. -/
def crossedHost : Host :=
  let add (path : String) (h : Host) : Host := ((Chore.dir 0o755).perform (Path.ofText path) h).2
  add "/export/a" <| add "/m" <| .empty ⟨0, 0⟩

/-- A request that makes a pipe. -/
def pipeRequest : Request := .mknod 0 "p" 0o010644 0 0 0

/-- A pipe is made, but with the directory that is renamed the way to the records is gone, and the
pipe is a file for a new server. -/
theorem run_crossedHost :
    ((start ⟨"/export", "/export/a/../../m", defaultIounit⟩ crossedHost).1.bind fun s₀ =>
      let s := s₀.run [attachFrame]
      let u := (s.answer pipeRequest).2.2
      let t := (u.respond (requestFrame (.renameat 0 "a" 0 "b"))).2.2
      (start ⟨"/export", "/export/a/../../m", defaultIounit⟩ t.host).1.map fun n =>
        let t' := (n.respond attachFrame).2.2
        (s.birth pipeRequest, (s.answer pipeRequest).1.isOk, u.root,
          u.host.find .follow (Store.dirPath u.store.dir), u.host.isDirectory 1,
          u.host.child? 0 (Name.ofText "m"), u.movedPaths (.renameat 0 "a" 0 "b"), t.root, n.root,
          t'.fids[(0 : FidId)]?, (t'.answer (.walk 0 1 ["p"])).2.2.told 1)) =
      .ok (some ⟨["p"], .fifo, 0o010644, 0, 0, none, none⟩, true, [Name.ofText "export"],
        .ok ⟨[(Name.ofText "m", 1)]⟩, true, some 1, some (["a"], ["b"]), [Name.ofText "export"],
        [Name.ofText "export"], some ⟨[], 0, .unopened⟩,
        some (NodeKind.file.typeBits ||| 0o644, Qid.file)) := by
  cbv

theorem unreported_crossedHost :
    Unreported ⟨"/export", "/export/a/../../m", defaultIounit⟩ crossedHost pipeRequest := by
  have hh : crossedHost.WellFormed := ⟨by decide, Host.hasPlace_root⟩
  obtain ⟨s₀, hs⟩ : ∃ s,
      (start ⟨"/export", "/export/a/../../m", defaultIounit⟩ crossedHost).1 = .ok s := ⟨_, rfl⟩
  have hl : s₀.LinkFree := start_linkFree hs fun i => by rcases i with _ | _ | _ | _ | i <;> rfl
  have hrun := run_crossedHost
  rw [hs] at hrun
  simp only [Except.bind] at hrun
  have hr : s₀.Reachable (s₀.run [attachFrame]) := .run .refl
  generalize s₀.run [attachFrame] = s at hr hrun
  obtain ⟨n, hn, hrun⟩ := Outcome.map_eq_ok_iff.mp hrun
  simp only [Prod.mk.injEq] at hrun
  obtain ⟨hb, hreply, hroot, hfind, hdir, hchild, hmoved, hroot₁, hroot₂, hid, htold⟩ := hrun
  obtain ⟨reply, hreply⟩ := exists_of_isOk hreply
  have hsound := ((start_plain hh hs hl).of_reachable hr).answer_sound (r := pipeRequest)
  have hlater : Later ⟨"/export", "/export/a/../../m", defaultIounit⟩ ["p"]
      (s.answer pipeRequest).2.2
      ((s.answer pipeRequest).2.2.respond (requestFrame (.renameat 0 "a" 0 "b"))).2.2 :=
    Later.refl.respond _ fun m hm => by
      rw [show Frame.toRequest (requestFrame (.renameat 0 "a" 0 "b")) =
        .ok ⟨1, .renameat 0 "a" 0 "b"⟩ from rfl] at hm
      cases hm
      refine ⟨⟨fun _ h => (by cases h), fun old new _ h => ?_⟩, fun _ h => (by cases h),
        fun h => (by cases h)⟩
      cases hmoved.symm.trans h
      decide
  refine ⟨s₀, s, _, _, reply, _, hs, hl, hr, hb, hreply, ⟨hfind, hdir⟩, fun hin => ?_,
    hlater.restart_attach hn (hroot₂.trans hroot₁.symm), hid, fun hreports => ?_⟩
  · have hroot' := hsound.prefix_of_inside hin hdir (Host.descend_singleton.trans hchild)
    rw [hroot] at hroot'
    exact absurd hroot' (by decide)
  · obtain ⟨a, ha, hmode, -⟩ := hreports.getattr 0
    unfold told at htold
    rw [(answer_eq_ok_iff.mp ha).1] at htold
    simp only [Option.some.injEq, Prod.mk.injEq] at htold
    exact absurd (hmode.symm.trans htold.1) (by decide)

/-- Not so if there are records that cannot be written, nor if the metadata path leads through the
export. -/
theorem exists_not_reports :
    Unreported ⟨"/export", "/meta", defaultIounit⟩ blockedHost dirRequest ∧
      Unreported ⟨"/export", "/export/a/../../m", defaultIounit⟩ crossedHost pipeRequest :=
  ⟨unreported_blockedHost, unreported_crossedHost⟩

end Share

end GuestShare
