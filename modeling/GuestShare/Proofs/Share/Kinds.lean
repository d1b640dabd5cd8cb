import GuestShare.Proofs.Share.CoherentRun
import GuestShare.Proofs.Share.Stray

/-!
# The kind of a node in every reply

A node has one kind: that of its record, or what it is on the host. Modes, qids and listings tell it
by numbers of their own, which are all made of it. A mode tells it in bits above the permission
bits, so it is told as long as no record of permissions reaches up there.

* `Share.TellsKind`: the replies in which a node's kind is told.
* `Store.MaskedFile`: the file of permissions holds permission bits only.
* **`reachable_tellsKind`**: every reply tells the node's kind, and if the share started with a
  masked file of permissions, the mode tells nothing more than the kind and permission bits.
* **`exists_not_agree`**: a file that was not masked may make a regular file a link in its mode.
-/

namespace GuestShare

/-! ## Numbers of kinds -/

namespace NodeKind

variable {k k' : NodeKind} {bits : UInt32}

/-- A mode, the kind in a qid and the kind in a listing are those of the same kind of node. -/
structure Agree (mode : UInt32) (qid entry : UInt8) : Prop where
  entry : ∀ k : NodeKind, mode &&& typeMask = k.typeBits ↔ entry = k.entryType
  directory : mode &&& typeMask = directory.typeBits ↔ qid = Qid.directory
  symlink : mode &&& typeMask = symlink.typeBits ↔ qid = Qid.symlink

theorem agree (hb : bits &&& permissionMask = bits) :
    Agree (k.typeBits ||| bits) k.qidKind k.entryType where
  entry k' := by rw [Share.typeBits_or_and_typeMask hb, Share.typeBits_inj, Share.entryType_inj]
  directory := by
    rw [Share.typeBits_or_and_typeMask hb, Share.typeBits_inj,
      Share.qidKind_eq_directory_iff]
  symlink := by rw [Share.typeBits_or_and_typeMask hb, Share.typeBits_inj,
      Share.qidKind_eq_symlink_iff]

end NodeKind

/-! ## Records that are loaded -/

namespace Store

/-- Every record in the file of permissions, if there is such a file, holds permission bits only. -/
def MaskedFile (dir : Path) (h : Host) : Prop :=
  ∀ bs rs, h.fileBytes (dir.child (Name.ofText Category.permissions.fileName)) = .ok bs →
    CategoryFile.decode .permission bs = some rs → ∀ (k : String) r, rs[k]? = some r → r.Masked

/-- What a file of permissions holds. -/
def permissionsIn (dir : Path) (h : Host) : Option (List (String × Permissions)) := do
  let bs ← (h.fileBytes (dir.child (Name.ofText Category.permissions.fileName))).toOption
  let rs ← CategoryFile.decode .permission bs
  return rs.toList

theorem maskedFile_of_permissionsIn {dir : Path} {h : Host} {es : List (String × Permissions)}
    (he : permissionsIn dir h = some es) (hm : ∀ e ∈ es, e.2.Masked) : MaskedFile dir h := by
  intro bs rs hbs hrs k r hk
  have hes : rs.toList = es := by
    simpa only [permissionsIn, hbs, hrs, Except.toOption, Option.bind_eq_bind, Option.bind_some,
      Option.pure_def, Option.some.injEq] using he
  exact hm _ (hes ▸ Std.ExtTreeMap.mem_toList_iff_getElem?_eq_some.mpr hk)

theorem masked_of_permission {v : JsonValue} {r : Permissions}
    (hr : JsonFile.permission v = some r) : r.Masked := by
  unfold JsonFile.permission at hr
  obtain ⟨fields, -, hr⟩ := Option.bind_eq_some_iff.mp hr
  obtain ⟨numbers, -, hr⟩ := Option.bind_eq_some_iff.mp hr
  split at hr
  · cases hr
    exact Permissions.masked_ofMode
  · cases hr

theorem masked_of_permissions {v : JsonValue} {es : List (String × Permissions)}
    (he : JsonFile.permissions v = some es) : ∀ e ∈ es, e.2.Masked := by
  intro e hmem
  unfold JsonFile.permissions JsonFile.entries at he
  obtain ⟨fields, -, hfields⟩ := Option.bind_eq_some_iff.mp he
  clear he
  induction fields generalizing es with
  | nil =>
    cases hfields
    exact absurd hmem List.not_mem_nil
  | cons field fields ih =>
    rw [List.mapM_cons] at hfields
    obtain ⟨e', he', hrest⟩ := Option.bind_eq_some_iff.mp hfields
    obtain ⟨es', hes', hcons⟩ := Option.bind_eq_some_iff.mp hrest
    obtain ⟨r, hr, rfl⟩ := Option.map_eq_some_iff.mp he'
    cases hcons
    obtain rfl | hmem := List.mem_cons.mp hmem
    · exact masked_of_permission hr
    · exact ih hmem hes'

theorem mem_of_insertMany {α : Type} {es : List (String × α)} {key : String} {r : α}
    (hr : (Std.ExtTreeMap.empty.insertMany es : Records α)[key]? = some r) :
    ∃ e ∈ es, e.2 = r := by
  suffices h : ∀ (es : List (String × α)) (rs : Records α),
      (es.foldl (fun rs e => rs.insert e.1 e.2) rs)[key]? = some r →
        rs[key]? = some r ∨ ∃ e ∈ es, e.2 = r by
    rw [Std.ExtTreeMap.insertMany_list_eq_foldl] at hr
    obtain hempty | hmem := h es _ hr
    · cases hempty
    · exact hmem
  intro es
  induction es with
  | nil => exact fun rs hr => .inl hr
  | cons e es ih =>
    intro rs hr
    obtain hins | ⟨e', hmem, he'⟩ := ih _ hr
    · rw [Std.ExtTreeMap.getElem?_insert] at hins
      split_ifs at hins
      · exact .inr ⟨e, List.mem_cons_self, Option.some.inj hins⟩
      · exact .inl hins
    · exact .inr ⟨e', List.mem_cons_of_mem _ hmem, he'⟩

/-- **A loaded store holds permission bits only**, unless a file of permissions says otherwise. -/
theorem load_masked {dir : String} {h : Host} (hf : MaskedFile (dirPath dir) h) :
    (load dir h).Masked := by
  intro key r hr
  change (loadRecords .permission JsonFile.permissions .permissions (dirPath dir) h)[key]? = some r
    at hr
  unfold loadRecords at hr
  split at hr
  next bs hbs =>
    cases hd : CategoryFile.decode .permission bs with
    | none =>
      rw [hd] at hr
      cases hr
    | some rs =>
      rw [hd] at hr
      exact hf bs rs hbs hd key r hr
  next =>
    split at hr
    next bs _ =>
      split at hr
      next es hes =>
        obtain ⟨v, -, hes⟩ := Option.bind_eq_some_iff.mp hes
        obtain ⟨e, hmem, rfl⟩ := mem_of_insertMany hr
        exact masked_of_permissions hes e hmem
      next => cases hr
    next => cases hr
  next => cases hr

end Store

namespace Share

/-- The permission bits of a node: those of its record, or the host's. -/
def permissionBits (n : Node) (t : Store) : UInt32 :=
  match t.permission n.key with
  | some r => r.mode.toUInt32
  | none => n.inode.mode &&& permissionMask

theorem permissionBits_masked {n : Node} {t : Store} (hm : t.Masked) :
    permissionBits n t &&& permissionMask = permissionBits n t := by
  unfold permissionBits
  split
  next r hr => exact hm n.key r hr
  next => rw [UInt32.and_assoc, UInt32.and_self]

/-- The node at a path has the kind `k` and the mode bits `bits` beside it in every reply. -/
structure TellsKind (s : Share) (p : GuestPath) (k : NodeKind) (bits : UInt32) : Prop where
  getattr : ∀ (id : FidId) fid mask, s.fids[id]? = some fid → fid.path = p →
    ∃ a, s.perform (.getattr id mask) = (.ok (.getattr a), s) ∧ a.mode = k.typeBits ||| bits ∧
      a.qid.kind = k.qidKind
  walk : ∀ (id newId : FidId) fid names qids (j : Nat) q, s.fids[id]? = some fid →
    (names.take (j + 1)).foldl GuestPath.next fid.path = p →
    (s.perform (.walk id newId names)).1 = .ok (.walk qids) → qids[j]? = some q →
      q.kind = k.qidKind
  lopen : ∀ (id : FidId) fid flags q unit, s.fids[id]? = some fid → fid.path = p →
    (s.perform (.lopen id flags)).1 = .ok (.lopen q unit) → q.kind = k.qidKind
  «open» : ∀ (id : FidId) fid mode q unit, s.fids[id]? = some fid → fid.path = p →
    (s.perform (.open id mode)).1 = .ok (.open q unit) → q.kind = k.qidKind
  readdir : ∀ (id : FidId) fid offset count es, s.fids[id]? = some fid →
    (s.perform (.readdir id offset count)).1 = .ok (.readdir es) →
      ∀ e ∈ es, fid.path ++ [e.name] = p → e.qid.kind = k.qidKind ∧ e.kind = k.entryType

variable {s s₀ : Share} {p : GuestPath} {i : Ino} {n : Inode} {names : List String}
  {o : ShareOptions} {h : Host}

theorem node_of_steps {j : Nat} {m : Node} (hm : (s.steps p names)[j]? = some m) :
    s.node ((names.take (j + 1)).foldl GuestPath.next p) = .ok m := by
  induction names generalizing p j with
  | nil => cases hm
  | cons name names ih =>
    rw [steps] at hm
    cases hstep : s.step p name with
    | none =>
      rw [hstep] at hm
      cases hm
    | some n =>
      rw [hstep] at hm
      have hn := (step_eq_some hstep).2.1
      cases j with
      | zero =>
        cases hm
        exact hn
      | succ j =>
        have := ih hm
        rw [path_of_node hn] at this
        exact this

theorem entry_of_entriesFrom {budget position : Nat} :
    ∀ e ∈ s.entriesFrom p budget position names,
      ∃ m, s.node (p ++ [e.name]) = .ok m ∧ e.qid = m.qid ∧ e.kind = m.entryType := by
  induction names generalizing budget position with
  | nil => exact fun e he => absurd he List.not_mem_nil
  | cons name names ih =>
    rw [entriesFrom]
    cases hn : s.node (p ++ [name]) with
    | error e => exact ih
    | ok m =>
      simp only
      split_ifs with hb
      · exact fun e he => absurd he List.not_mem_nil
      · intro e he
        obtain rfl | he := List.mem_cons.mp he
        · exact ⟨m, hn, rfl, rfl⟩
        · exact ih e he

theorem qidKind_of_openFor {id : FidId} {fid : Fid} {acc : Access} {make : Qid → UInt32 → Reply}
    {q : Qid} {reply : Reply} (hi : s.inspect p = .ok (i, n)) (hid : s.fids[id]? = some fid)
    (hp : fid.path = p) (ho : (s.openFor id acc make).1 = .ok reply)
    (hmake : ∀ q' unit, reply = make q' unit → q' = q) :
    q.kind = (s.nodeOf p i n).kind.qidKind := by
  obtain ⟨f, m, hf, hm, hr, -⟩ := openFor_eq_ok (Prod.ext ho rfl)
  obtain rfl : f = fid := Option.some.inj (hf.symm.trans hid)
  rw [hp, node_of_inspect hi] at hm
  cases hm
  rw [← hmake _ _ hr]
  rfl

/-- **The kind of a node is told in every reply.** -/
theorem tellsKind (hi : s.inspect p = .ok (i, n)) :
    s.TellsKind p (s.nodeOf p i n).kind (permissionBits (s.nodeOf p i n) s.store) where
  getattr id fid mask hid hp := by
    subst hp
    exact ⟨_, settle_eq_ok_iff.mpr (getattr_eq_ok hid hi), rfl, rfl⟩
  walk id newId fid names qids j q hid hp ho hq := by
    obtain ⟨s', ho⟩ : ∃ s', s.perform (.walk id newId names) = (.ok (.walk qids), s') :=
      ⟨_, Prod.ext ho rfl⟩
    obtain ⟨f, hf, hw, -⟩ := walk_eq_ok (settle_eq_ok_iff.mp ho)
    obtain rfl : f = fid := Option.some.inj (hf.symm.trans hid)
    cases hw
    rw [List.getElem?_map] at hq
    obtain ⟨m, hm, rfl⟩ := Option.map_eq_some_iff.mp hq
    have hnode := node_of_steps hm
    rw [hp, node_of_inspect hi] at hnode
    cases hnode
    rfl
  lopen id fid flags q unit hid hp ho := qidKind_of_openFor hi hid hp ho fun _ _ hq => by
    cases hq
    rfl
  «open» id fid mode q unit hid hp ho := qidKind_of_openFor hi hid hp ho fun _ _ hq => by
    cases hq
    rfl
  readdir id fid offset count es hid ho e he hp := by
    obtain ⟨s', ho⟩ : ∃ s', s.perform (.readdir id offset count) = (.ok (.readdir es), s') :=
      ⟨_, Prod.ext ho rfl⟩
    obtain ⟨f, names, hf, -, hr, -⟩ := readdir_eq_ok (settle_eq_ok_iff.mp ho)
    obtain rfl : f = fid := Option.some.inj (hf.symm.trans hid)
    cases hr
    obtain ⟨m, hm, hq, hk⟩ := entry_of_entriesFrom e he
    rw [hp, node_of_inspect hi] at hm
    cases hm
    exact ⟨congrArg Qid.kind hq, hk⟩

/-! ## Every state -/

/-- **Requests keep permission bits.** -/
theorem Reachable.masked (hr : s₀.Reachable s) (hm : s₀.store.Masked) : s.store.Masked := by
  refine hr.invariant (P := fun s => s.store.Masked) hm (fun t r ht => ?_) fun _ ht => ht
  have hp := (t.perform_evolves r).records.masked ht
  exact fun key p hkey => hp key p (overlay_flushRecords key ▸ hkey)

/-- **Every reply tells one kind of each node.** Its mode tells nothing else beside the permission
bits, unless the share started with a file of permissions that told more. -/
theorem reachable_tellsKind (hs : (start o h).1 = .ok s₀) (hr : s₀.Reachable s)
    (hi : s.inspect p = .ok (i, n)) :
    ∃ k bits, k = (s.store.kind p.key).getD (.ofBody n.body) ∧ s.TellsKind p k bits ∧
      (Store.MaskedFile (Store.dirPath o.metadataDir) s₀.host →
        bits &&& permissionMask = bits ∧
          NodeKind.Agree (k.typeBits ||| bits) k.qidKind k.entryType) := by
  refine ⟨_, _, rfl, tellsKind hi, fun hf => ?_⟩
  have hm : s.store.Masked := hr.masked ((start_eq_ok hs).2.2.2.1 ▸ Store.load_masked hf)
  have hb := permissionBits_masked (n := s.nodeOf p i n) hm
  exact ⟨hb, NodeKind.agree hb⟩

/-- A host with a file of permissions in which the record of `x`, a regular file, has a mode of the
given two bytes. -/
def hostOfMode (mode : Bytes) : Host :=
  let add (path : String) (data : Bytes) (h : Host) : Host :=
    ((Chore.file data Host.fileMode).perform (Path.ofText path) h).2
  add "/export/x" [] <|
    add "/meta/permissions.bin" (Bytes.ofText "V87M" ++ [1, 0, 1, 0, 1, 0] ++ Bytes.ofText "x" ++
      [14, 0] ++ mode ++ List.replicate 12 0) <|
    .empty ⟨0, 0⟩

/-- What the attributes of the node of a fid tell of its kind. -/
def told (s : Share) (id : FidId) : Option (UInt32 × UInt8) :=
  match (s.perform (.getattr id 0)).1 with
  | .ok (.getattr a) => some (a.mode, a.qid.kind)
  | _ => none

theorem told_hostOfMode :
    ((start ⟨"/export", "/meta", defaultIounit⟩ (hostOfMode [0xa0, 1])).1.map fun s₀ =>
      let s := s₀.run [attachFrame, requestFrame (.walk 0 1 ["x"])]
      (Store.permissionsIn (Store.dirPath "/meta") s₀.host, Prod.fst <$> s.inspect ["x"],
        s.told 1)) =
      .ok (some [("x", ⟨0o640, 0, 0, 0⟩)], .ok 4,
        some (NodeKind.file.typeBits ||| 0o640, Qid.file)) := by
  cbv

/-- A file whose record has the bits of `0o640` is told to be a regular file with these bits. -/
theorem reachable_tellsKind_recorded :
    ∃ s₀ s i n, (start ⟨"/export", "/meta", defaultIounit⟩ (hostOfMode [0xa0, 1])).1 = .ok s₀ ∧
      s₀.Reachable s ∧ s.inspect ["x"] = .ok (i, n) ∧
      Store.permissionsIn (Store.dirPath "/meta") s₀.host = some [("x", ⟨0o640, 0, 0, 0⟩)] ∧
      Store.MaskedFile (Store.dirPath "/meta") s₀.host ∧
      s.told 1 = some (NodeKind.file.typeBits ||| 0o640, Qid.file) ∧
      ∃ k bits, s.TellsKind ["x"] k bits ∧
        NodeKind.Agree (k.typeBits ||| bits) k.qidKind k.entryType := by
  obtain ⟨s₀, hs⟩ :
      ∃ s, (start ⟨"/export", "/meta", defaultIounit⟩ (hostOfMode [0xa0, 1])).1 = .ok s :=
    ⟨_, rfl⟩
  have htold := told_hostOfMode
  rw [hs] at htold
  simp only [Except.map, Except.ok.injEq, Prod.mk.injEq] at htold
  obtain ⟨hes, hino, htold⟩ := htold
  obtain ⟨⟨i, n⟩, hi, -⟩ := Outcome.map_eq_ok_iff.mp hino
  have hf := Store.maskedFile_of_permissionsIn hes (List.forall_mem_singleton.mpr rfl)
  have hr := Reachable.respond (requestFrame (.walk 0 1 ["x"]))
    (.respond attachFrame (.refl (s := s₀)))
  obtain ⟨k, bits, -, ht, hk⟩ := reachable_tellsKind hs hr hi
  exact ⟨s₀, _, i, n, hs, hr, hi, hes, hf, htold, k, bits, ht, (hk hf).2⟩

/-- A host on which the record of `x` has the bits of `0o20777`. -/
def unmaskedHost : Host := hostOfMode [0xff, 0x21]

theorem told_unmaskedHost :
    ((start ⟨"/export", "/meta", defaultIounit⟩ unmaskedHost).1.map fun s =>
      (s.run [attachFrame, requestFrame (.walk 0 1 ["x"])]).told 1) =
        .ok (some (NodeKind.symlink.typeBits ||| 0o777, Qid.file)) := by
  cbv

/-- With a file of permissions that is not masked, the mode of a regular file may tell a link. -/
theorem exists_not_agree :
    ∃ s₀ s a, (start ⟨"/export", "/meta", defaultIounit⟩ unmaskedHost).1 = .ok s₀ ∧
      s₀.Reachable s ∧ (s.perform (.getattr 1 0)).1 = .ok (.getattr a) ∧
      ∀ entry, ¬ NodeKind.Agree a.mode a.qid.kind entry := by
  obtain ⟨s₀, hs⟩ :
      ∃ s, (start ⟨"/export", "/meta", defaultIounit⟩ unmaskedHost).1 = .ok s := ⟨_, rfl⟩
  have htold := told_unmaskedHost
  rw [hs] at htold
  simp only [Except.map, Except.ok.injEq] at htold
  unfold told at htold
  split at htold
  next a ha =>
    simp only [Option.some.injEq, Prod.mk.injEq] at htold
    obtain ⟨hmode, hqid⟩ := htold
    refine ⟨s₀, _, a, hs, .respond _ (.respond _ .refl), ha, fun entry hagree => ?_⟩
    have hlink := hagree.symlink
    rw [hmode, hqid] at hlink
    exact absurd (hlink.mp (by decide)) (by decide)
  next => cases htold

end Share

end GuestShare
