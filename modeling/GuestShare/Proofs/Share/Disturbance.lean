import GuestShare.Proofs.Host.Parting
import GuestShare.Proofs.Share.OwnKeys
import GuestShare.Proofs.Share.Whereabouts

/-!
# Nodes that a rename leaves where they are

A rename moves one node, and the records at and below its path. A path that leads to one node before
and after it should be told the same of that node. That is so of all paths apart from the two that
the rename names, and of those at or below them unless there is a link on the way, or both paths are
names of one node. There the host leaves the node where it is, but the records are moved.

* **`perform_isTree`**: every request keeps the tree of the host.
* `Share.SameReport`: what is told of a node: mode, owner, group, device and target.
* `Share.Undisturbs`: where a path leads to one node, it is told the same of it.
* `Share.OneNode`: two paths are names of one node.
* **`reachable_undisturbs`**: what a rename leaves as it is.
-/

namespace GuestShare

namespace Share

variable {s s' s₀ : Share} {h : Host} {o : ShareOptions} {p q old new : GuestPath} {name : String}
  {b : Body} {r : Request} {n n' : Node}

/-! ## Trees -/

theorem Makes.isTree (hb : b.Bare) (hm : s.Makes p name b h) (ht : s.host.IsTree) : h.IsTree := by
  obtain ⟨dir, mode, -, hfits, -, rfl⟩ := hm
  exact ht.create hfits hb

theorem Alters.isTree (ha : s.Alters h) (ht : s.host.IsTree) : h.IsTree := by
  cases ha with
  | same => exact ht
  | makeRoot made => exact made ▸ Host.makeDirs_makes.puts.isTree ht
  | edit edits => exact ht.sameTree edits.sameTree
  | make makes bare => exact makes.isTree bare ht
  | move entry' renames =>
    obtain ⟨-, rfl⟩ | ⟨hfree, -, rfl⟩ := renames.tree
    · exact ht
    · exact ht.move ⟨renames.noNul, hfree.isDirectory.2⟩
        (Host.lookup_eq_ok_iff.mp renames.entry).2.2
  | unlink => exact ht.unbind

/-- **Every request keeps the tree of the host.** -/
theorem perform_isTree (ht : s.host.IsTree) (r : Request) : (s.perform r).2.host.IsTree :=
  (perform_act rfl).alters.isTree ht

theorem flushRecords_isTree (ht : s.host.IsTree) : s.flushRecords.2.host.IsTree :=
  (Store.flush_puts (s := s.store)).isTree ht

theorem Reachable.isTree (hr : s₀.Reachable s) (h₀ : s₀.host.IsTree) : s.host.IsTree :=
  hr.invariant (P := fun s => s.host.IsTree) h₀
    (fun _ r ht => flushRecords_isTree (perform_isTree ht r)) fun _ ht => ht

theorem Reachable.validPaths (hr : s₀.Reachable s) (h₀ : s₀.ValidPaths) : s.ValidPaths :=
  hr.invariant (P := ValidPaths) h₀ (fun _ r hv => validPaths_congr (perform_validPaths hv r) rfl)
    fun _ _ _ _ hk => by cases hk

/-! ## What is told of a node -/

/-- What is told of a node at a path is the same before and after: its mode, its owner, its group,
its device, and where it leads. -/
structure SameReport (s s' : Share) (p : GuestPath) (n n' : Node) : Prop where
  mode : (n'.attr s'.store s'.host).mode = (n.attr s.store s.host).mode
  uid : (n'.attr s'.store s'.host).uid = (n.attr s.store s.host).uid
  gid : (n'.attr s'.store s'.host).gid = (n.attr s.store s.host).gid
  rdev : (n'.attr s'.store s'.host).rdev = (n.attr s.store s.host).rdev
  linkText : s'.linkText p = s.linkText p

/-- If a path leads to one node before and after, it is told the same of it. -/
def Undisturbs (s s' : Share) (p : GuestPath) : Prop :=
  ∀ n n', s.node p = .ok n → s'.node p = .ok n' → n'.ino = n.ino → SameReport s s' p n n'

/-- Two paths are names of one node. -/
def OneNode (s : Share) (p q : GuestPath) : Prop :=
  ∃ i n, s.inspect p = .ok (i, n) ∧ s.inspect q = .ok (i, n)

theorem ofBody_of_like {m m' : Inode} (hl : m.Like m') :
    NodeKind.ofBody m'.body = NodeKind.ofBody m.body := by
  obtain hb | ⟨hd, hd'⟩ := hl.body
  · rw [hb]
  · obtain ⟨es, hb⟩ := Body.isDirectory_iff.mp hd
    obtain ⟨es', hb'⟩ := Body.isDirectory_iff.mp hd'
    rw [hb, hb']
    rfl

theorem linkText_eq (hn : s.node p = .ok n) :
    s.linkText p = .ok (match s.store.symlink p.key with
      | some target => some target
      | none => match n.inode.body with
        | .link target => some (Text.ofBytes target)
        | _ => none) := by
  unfold linkText
  cases s.store.symlink p.key with
  | some target => rfl
  | none =>
    rw [(node_eq_ok_iff.mp hn).1]
    cases hb : n.inode.body <;> simp [hb]

/-- **Of like nodes with the same records the same is told.** -/
theorem sameReport_of_like (hn : s.node p = .ok n) (hn' : s'.node p = .ok n')
    (hl : n.inode.Like n'.inode) (ho : s'.store.overlay p.key = s.store.overlay p.key) :
    SameReport s s' p n n' := by
  have hpermission : s'.store.permission p.key = s.store.permission p.key :=
    congrArg Overlay.permission ho
  have hdevice : s'.store.device p.key = s.store.device p.key := congrArg Overlay.device ho
  have hkey : n.key = p.key := key_of_node hn
  have hkey' : n'.key = p.key := key_of_node hn'
  have hkind : n'.kind = n.kind := by
    rw [(node_eq_ok_iff.mp hn).2, (node_eq_ok_iff.mp hn').2]
    simp only [nodeOf]
    rw [ofBody_of_like hl, show s'.store.kind p.key = s.store.kind p.key from
      congrArg Overlay.kind ho]
  refine ⟨?_, ?_, ?_, ?_, ?_⟩
  · simp only [Node.attr, hkind, hkey, hkey', hpermission, hl.mode]
  · simp only [Node.attr, hkey, hkey', hpermission]
  · simp only [Node.attr, hkey, hkey', hpermission]
  · simp only [Node.attr, hkey, hkey', hdevice]
  · rw [linkText_eq hn, linkText_eq hn', show s'.store.symlink p.key = s.store.symlink p.key from
      congrArg Overlay.symlink ho]
    obtain hb | ⟨hd, hd'⟩ := hl.body
    · rw [hb]
    · obtain ⟨es, hb⟩ := Body.isDirectory_iff.mp hd
      obtain ⟨es', hb'⟩ := Body.isDirectory_iff.mp hd'
      rw [hb, hb']

/-! ## What a rename leaves as it is -/

theorem answer_renameat_steady (hm : s.movedPaths r = some (old, new)) (hd : s.Does r) :
    s.host.Steady (s.answer r).2.2.host := by
  obtain ⟨p, name, p', name', dir, dir', i, n, -, -, -, -, -, -, -, htree, -⟩ :=
    renameat_of_does hm hd
  have hflush : (s.perform r).2.host.Steady (s.answer r).2.2.host := by
    rw [answer_snd]
    exact (Store.flush_puts (s := (s.perform r).2.store)).steady
  refine Host.Steady.trans ?_ hflush
  obtain ⟨-, -, hh⟩ | ⟨-, -, hh⟩ := htree
  · rw [hh]
    exact .refl _
  · rw [hh]
    exact Host.move_steady

theorem overlay_renameat (hv : s.ValidPaths) (hm : s.movedPaths r = some (old, new))
    (hd : s.Does r) (hp : p.Valid) (hout : old ≠ new → ¬ (old <+: p ∨ new <+: p)) :
    (s.answer r).2.2.store.overlay p.key = s.store.overlay p.key := by
  obtain ⟨q, name, q', name', -, -, -, -, rfl, rfl, hvalid, -, -, -, -, -, hstore⟩ :=
    renameat_of_does hm hd
  obtain ⟨hold, hnew⟩ := hvalid hv
  rw [answer_snd, overlay_flushRecords, hstore]
  by_cases hsame : q ++ [name] = q' ++ [name']
  · rw [hsame, Store.rename_self]
  · obtain ⟨hold', hnew'⟩ := not_or.mp (hout hsame)
    refine Store.overlay_rename_of_not_covers ?_ ?_
    · rwa [hold.covers_key_iff hp (by simp)]
    · rwa [hnew.covers_key_iff hp (by simp)]

theorem names_below {dir : Place} (ht : s.host.IsTree) (hopen : s.host.OpenAbove (s.hostNames p))
    (hf : s.host.find .follow (s.hostPath q) = .ok dir) (hp : q ++ [name] <+: p) :
    dir.names ++ [Name.ofText name] <+: s.hostNames p := by
  have hnames : s.hostNames q ++ [Name.ofText name] <+: s.hostNames p := by
    rw [← hostNames_concat]
    exact hostNames_prefix_iff.mpr hp
  rwa [hopen.names_eq ht hnames hf]

/-- **At and below the paths that a rename names there is another node afterwards**, if these are
not names of one node, and there is no link on the way. -/
theorem ino_ne_of_renameat (ht : s.host.IsTree) (hm : s.movedPaths r = some (old, new))
    (hd : s.Does r) (hone : ¬ s.OneNode old new) (hopen : s.host.OpenAbove (s.hostNames p))
    (hp : old <+: p ∨ new <+: p) (hn : s.node p = .ok n)
    (hn' : (s.answer r).2.2.node p = .ok n') : n'.ino ≠ n.ino := by
  obtain ⟨q, name, q', name', dir, dir', i, m, rfl, rfl, -, hi, hf, hl, hf', htree, -⟩ :=
    renameat_of_does hm hd
  obtain ⟨place, hplace, hino, hnode⟩ := inspect_eq_ok_iff.mp (node_eq_ok_iff.mp hn).1
  obtain ⟨place', hplace', hino', -⟩ := inspect_eq_ok_iff.mp (node_eq_ok_iff.mp hn').1
  rw [← hino']
  obtain ⟨-, hi', -⟩ | ⟨hfree, hpass, hh⟩ := htree
  · exact absurd ⟨i, m, hi, hi'⟩ hone
  -- The directories are where their names say, as far as the path passes them.
  have hdir : s.host.HasPlace dir := Host.find_ofNames_hasPlace hf
  have hdir' : s.host.HasPlace dir' := Host.find_ofNames_hasPlace hf'
  have hentry : s.host.child? dir.ino (Name.ofText name) = some i :=
    (Host.lookup_eq_ok_iff.mp hl).2.2
  have hisdir : s.host.isDirectory dir'.ino = true := hfree.isDirectory.1
  have hnames : dir.names ++ [Name.ofText name] <+: s.hostNames p ∨
      dir'.names ++ [Name.ofText name'] <+: s.hostNames p :=
    hp.imp (names_below ht hopen hf) (names_below ht hopen hf')
  have hrelocates : s.host.Relocates dir.names (Name.ofText name) dir'.names (Name.ofText name')
      dir.ino dir'.ino i := {
    old := hdir.descend
    entry := hentry
    new := hdir'.descend
    directory := hisdir
    yields := hfree.yields
    not_below := hdir'.not_below hisdir
      (Host.descend_concat_eq_some_iff.mpr ⟨_, hdir.descend, hentry⟩) hpass }
  obtain ⟨I, hputs⟩ : ∃ I, Host.Puts I (s.perform r).2.host (s.perform r).2.flushRecords.2.host :=
    ⟨_, Store.flush_puts⟩
  rw [hh] at hputs
  have hroot : (s.answer r).2.2.root = s.root := by
    rw [answer_snd]
    exact (perform_evolves s r).root_eq
  have hnames' : (s.answer r).2.2.hostNames p = s.hostNames p := by rw [hostNames, hroot, hostNames]
  rw [hostPath, hnames', answer_snd] at hplace'
  exact hrelocates.parts_puts ht (flushRecords_isTree (perform_isTree ht r)) hputs hopen
    (hino ▸ hopen.find_keep ht hplace) (Host.lt_size_of_node? hnode) hnames hplace'

/-- **A rename disturbs no node that stays where it is**, on a path that is neither at nor below
those that the rename names, or that leads there without links, unless both are names of one
node. -/
theorem reachable_undisturbs (hh : h.WellFormed) (hs : (start o h).1 = .ok s₀)
    (hr : s₀.Reachable s) (hm : s.movedPaths r = some (old, new)) (hd : s.Does r) (hp : p.Valid)
    (hmoved : old ≠ new → old <+: p ∨ new <+: p →
      ¬ s.OneNode old new ∧ s.host.OpenAbove (s.hostNames p)) :
    s.Undisturbs (s.answer r).2.2 p := by
  have ht : s.host.IsTree := hr.isTree (start_sound hh hs).isTree
  have hv : s.ValidPaths := hr.validPaths (start_validPaths hs)
  intro n n' hn hn' hino
  refine sameReport_of_like hn hn' ?_ ?_
  · obtain ⟨-, -, -, hnode⟩ := inspect_eq_ok_iff.mp (node_eq_ok_iff.mp hn).1
    obtain ⟨-, -, -, hnode'⟩ := inspect_eq_ok_iff.mp (node_eq_ok_iff.mp hn').1
    obtain ⟨m, hm', hlike⟩ := answer_renameat_steady hm hd _ _ hnode
    rw [hino, hm'] at hnode'
    cases hnode'
    exact hlike
  · refine overlay_renameat hv hm hd hp fun hne hat => ?_
    obtain ⟨hone, hopen⟩ := hmoved hne hat
    exact ino_ne_of_renameat ht hm hd hone hopen hat hn hn' hino

/-! ## Names of one node -/

/-- A host with a file in a directory of the export that has two names there, and with a link in the
export that leads to the export itself. -/
def aliasedHost : Host :=
  let add (chore : Chore) (path : String) (h : Host) : Host :=
    (chore.perform (Path.ofText path) h).2
  add (.link (Bytes.ofText ".")) "/export/l" <|
    add (.name (Path.ofText "/export/x/a")) "/export/x/b" <|
      add (.file (Bytes.ofText "data") Host.fileMode) "/export/x/a" <| .empty ⟨0, 0⟩

/-- Attributes that set who may do what. -/
def guarded : SetAttr :=
  ⟨SetAttr.modeBit ||| SetAttr.uidBit ||| SetAttr.gidBit, 0o600, 5, 6, 0, 0, 0, 0, 0⟩

/-- A client gets the directory by its name and by way of the link, and sets attributes of the
file by one of its names. -/
def guardFrames : List Bytes :=
  [attachFrame, requestFrame (.walk 0 1 ["x"]), requestFrame (.walk 0 2 ["l", "x"]),
    requestFrame (.walk 0 3 ["x", "a"]), requestFrame (.setattr 3 guarded)]

/-- The node to which a path leads, and whom it belongs to. -/
def ownerAt (s : Share) (p : GuestPath) : Except ShareError (Ino × UInt32 × UInt32 × UInt32) :=
  (s.node p).map fun n =>
    let attr := n.attr s.store s.host
    (n.ino, attr.mode, attr.uid, attr.gid)

theorem not_undisturbs {i : Ino} {x x' : UInt32 × UInt32 × UInt32} (hx : s.ownerAt p = .ok (i, x))
    (hx' : s'.ownerAt p = .ok (i, x')) (hne : x ≠ x') : ¬ s.Undisturbs s' p := by
  obtain ⟨n, hn, he⟩ := Outcome.map_eq_ok_iff.mp hx
  obtain ⟨n', hn', he'⟩ := Outcome.map_eq_ok_iff.mp hx'
  obtain ⟨hi, rfl⟩ := Prod.mk.inj he
  obtain ⟨hi', rfl⟩ := Prod.mk.inj he'
  intro hu
  have hsame := hu n n' hn hn' (hi'.trans hi.symm)
  exact hne (by rw [hsame.mode, hsame.uid, hsame.gid])

theorem run_aliasedHost :
    ((start ⟨"/export", "/meta", defaultIounit⟩ aliasedHost).1.map fun s₀ =>
      let s := s₀.run guardFrames
      let after := fun p r => ((s.perform r).1, (s.answer r).2.2.ownerAt p)
      (s.ownerAt ["x", "a"], after ["x", "a"] (.renameat 1 "a" 1 "b"),
        after ["x", "a"] (.renameat 1 "a" 2 "a"), s.ownerAt ["x", "b"],
        s.movedPaths (.renameat 1 "a" 1 "c"), after ["x", "b"] (.renameat 1 "a" 1 "c"))) =
      .ok (.ok (3, 0o100600, 5, 6), (.ok .renameat, .ok (3, 0o100644, 0, 0)),
        (.ok .renameat, .ok (3, 0o100644, 0, 0)), .ok (3, 0o100644, 0, 0),
        some (["x", "a"], ["x", "c"]), (.ok .renameat, .ok (3, 0o100644, 0, 0))) := by
  cbv

/-- The other name of a node that is moved goes on being told the same of it. -/
theorem reachable_undisturbs_other :
    ∃ s₀ s n n', (start ⟨"/export", "/meta", defaultIounit⟩ aliasedHost).1 = .ok s₀ ∧
      s₀.Reachable s ∧ s.movedPaths (.renameat 1 "a" 1 "c") = some (["x", "a"], ["x", "c"]) ∧
      s.Does (.renameat 1 "a" 1 "c") ∧ s.node ["x", "b"] = .ok n ∧
      (s.answer (.renameat 1 "a" 1 "c")).2.2.node ["x", "b"] = .ok n' ∧ n'.ino = n.ino ∧
      SameReport s (s.answer (.renameat 1 "a" 1 "c")).2.2 ["x", "b"] n n' := by
  have hh : aliasedHost.WellFormed := ⟨by decide, Host.hasPlace_root⟩
  obtain ⟨s₀, hs⟩ :
      ∃ s, (start ⟨"/export", "/meta", defaultIounit⟩ aliasedHost).1 = .ok s := ⟨_, rfl⟩
  have hrun := run_aliasedHost
  rw [hs] at hrun
  simp only [Except.map, Except.ok.injEq, Prod.mk.injEq] at hrun
  obtain ⟨-, -, -, htold, hm, hreply, htold'⟩ := hrun
  obtain ⟨n, hn, he⟩ := Outcome.map_eq_ok_iff.mp htold
  obtain ⟨n', hn', he'⟩ := Outcome.map_eq_ok_iff.mp htold'
  have hino : n'.ino = n.ino := (congrArg Prod.fst he').trans (congrArg Prod.fst he).symm
  have hr : s₀.Reachable (s₀.run guardFrames) := .run .refl
  have hp : GuestPath.Valid ["x", "b"] := by
    intro name hname
    simp only [List.mem_cons, List.not_mem_nil, or_false] at hname
    obtain rfl | rfl := hname <;> cbv
  refine ⟨s₀, _, n, n', hs, hr, hm, ⟨_, hreply⟩, hn, hn', hino, ?_⟩
  exact reachable_undisturbs hh hs hr hm ⟨_, hreply⟩ hp
    (fun _ hat => absurd hat (by decide)) n n' hn hn' hino

/-- **What has two names, or is named in two ways, is disturbed** by renaming the one to the other.
The host leaves the node where it is. Its records go to the other path, and it has none at the
first. -/
theorem exists_disturbed :
    ∃ s₀ s, (start ⟨"/export", "/meta", defaultIounit⟩ aliasedHost).1 = .ok s₀ ∧
      s₀.Reachable s ∧
      ∀ r ∈ [Request.renameat 1 "a" 1 "b", .renameat 1 "a" 2 "a"],
        s.Does r ∧ ¬ s.Undisturbs (s.answer r).2.2 ["x", "a"] := by
  obtain ⟨s₀, hs⟩ :
      ∃ s, (start ⟨"/export", "/meta", defaultIounit⟩ aliasedHost).1 = .ok s := ⟨_, rfl⟩
  have hrun := run_aliasedHost
  rw [hs] at hrun
  simp only [Except.map, Except.ok.injEq, Prod.mk.injEq] at hrun
  obtain ⟨htold, ⟨hname, hname'⟩, ⟨hway, hway'⟩, -⟩ := hrun
  refine ⟨s₀, s₀.run guardFrames, hs, .run .refl, ?_⟩
  simp only [List.forall_mem_cons, List.not_mem_nil, false_implies, implies_true, and_true]
  exact ⟨⟨⟨_, hname⟩, not_undisturbs htold hname' (by decide)⟩,
    ⟨_, hway⟩, not_undisturbs htold hway' (by decide)⟩

end Share

end GuestShare
