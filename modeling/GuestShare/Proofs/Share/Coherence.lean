import GuestShare.Proofs.Share.Effect

/-!
# Records fit each other and the host

What the guest sees of a node comes from four ledgers and from the host. Whatever a request does to
one of them it does to the others, so the records under a key fit each other, and belong to a node
that is there and is on the host what its kind needs.

* `Share.Coherent`: records that fit each other and the nodes of the export.
* `Share.Grounds`: records that belong to a node.
* **`coherent_iff`**: in an export without links, coherent records are those that belong to nodes to
  which names lead.
* **`Effect.grounded`**: what requests do keeps records grounded.
* **`Coherent.readlink_iff`**: the target of a node can be read exactly if it is recorded as a link.
-/

namespace GuestShare

namespace Share

/-- Records that fit each other and the nodes of the export. -/
structure Coherent (s : Share) : Prop where
  /-- The records under one key fit each other. -/
  records : ∀ k, (s.store.overlay k).Coherent
  /-- Each key that has a record is that of an existing node. -/
  nodes : ∀ k, s.store.overlay k ≠ .blank →
    ∃ p i n, GuestPath.Valid p ∧ p.key = k ∧ s.inspect p = .ok (i, n)
  /-- What has a kind is recorded as a directory exactly if it is one on the host. -/
  directories : ∀ p i n kind, GuestPath.Valid p → s.inspect p = .ok (i, n) →
    s.store.kind p.key = some kind → (kind = .directory ↔ n.body.isDirectory = true)

/-- The records under a key belong to a node to which the names of the key lead. -/
def Grounds (s : Share) (k : String) (o : Overlay) : Prop :=
  ∃ p i, GuestPath.Valid p ∧ p.key = k ∧ s.Has p i ∧
    ∀ kind, o.kind = some kind → (kind = .directory ↔ s.host.isDirectory i = true)

/-- All records fit each other and belong to nodes. -/
structure Grounded (s : Share) : Prop where
  records : ∀ k, (s.store.overlay k).Coherent
  grounds : ∀ k, s.store.overlay k ≠ .blank → s.Grounds k (s.store.overlay k)

variable {s s' : Share} {p q : GuestPath} {i : Ino} {n : Inode} {o : Overlay} {k : String}
  {kind : NodeKind} {id : FidId} {fid : Fid}

theorem Has.unique {j : Ino} (hi : s.Has p i) (hj : s.Has p j) : i = j :=
  Option.some.inj (hi.symm.trans hj)

theorem Has.exists_inspect (hl : s.LinkFree) (hs : s.Sound) (hi : s.Has p i) :
    ∃ n, s.inspect p = .ok (i, n) := by
  have hin : s.Inside i := ⟨p.map Name.ofText, hi⟩
  obtain ⟨n, hn⟩ := Option.isSome_iff_exists.mp (Host.node?_isSome_iff.mpr (hin.lt_size hs))
  exact ⟨n, (hl.inspect_eq_ok_iff hs).mpr ⟨hi, hn⟩⟩

theorem isDirectory_of_inspect (hi : s.inspect p = .ok (i, n)) :
    s.host.isDirectory i = n.body.isDirectory := by
  obtain ⟨_, -, -, hn⟩ := inspect_eq_ok_iff.mp hi
  unfold Host.isDirectory Host.entries?
  rw [Host.body?_of_node? hn]
  cases n.body <;> rfl

/-- **In an export without links, coherent records are those that belong to nodes.** -/
theorem coherent_iff (hl : s.LinkFree) (hs : s.Sound) : s.Coherent ↔ s.Grounded := by
  constructor
  · intro hc
    refine ⟨hc.records, fun k hk => ?_⟩
    obtain ⟨p, i, n, hp, rfl, hi⟩ := hc.nodes k hk
    refine ⟨p, i, hp, rfl, ((hl.inspect_eq_ok_iff hs).mp hi).1, fun kind hkind => ?_⟩
    rw [isDirectory_of_inspect hi]
    exact hc.directories p i n kind hp hi hkind
  · intro hg
    refine ⟨hg.records, fun k hk => ?_, fun p i n kind hp hi hkind => ?_⟩
    · obtain ⟨p, i, hp, hkey, hi, -⟩ := hg.grounds k hk
      obtain ⟨n, hn⟩ := hi.exists_inspect hl hs
      exact ⟨p, i, n, hp, hkey, hn⟩
    · have hne : s.store.overlay p.key ≠ .blank := by
        intro he
        have hnone : s.store.kind p.key = none := congrArg Overlay.kind he
        rw [hnone] at hkind
        cases hkind
      obtain ⟨q, j, hq, hkey, hj, hdir⟩ := hg.grounds p.key hne
      obtain rfl := hq.eq_of_key_eq hp hkey
      obtain rfl := hj.unique ((hl.inspect_eq_ok_iff hs).mp hi).1
      rw [← isDirectory_of_inspect hi]
      exact hdir kind hkind

/-! ## What keeps records grounded -/

theorem has_of_root_eq (hr : s'.root = s.root) :
    s'.Has p i ↔ s'.host.descend 0 (s.hostNames p) = some i := by
  unfold Has hostNames
  rw [hr]

theorem Grounds.keeps (hg : s.Grounds k o) (hr : s'.root = s.root) (ht : s.host.Keeps s'.host) :
    s'.Grounds k o := by
  obtain ⟨p, i, hp, hkey, hi, hdir⟩ := hg
  obtain ⟨j, hj, hd⟩ := ht _ i hi
  refine ⟨p, j, hp, hkey, (has_of_root_eq hr).mpr hj, ?_⟩
  rw [hd]
  exact hdir

theorem Grounded.grounds_of_has (hg : s.Grounded) (hp : p.Valid) (hi : s.Has p i) :
    s.Grounds p.key (s.store.overlay p.key) := by
  by_cases hb : s.store.overlay p.key = .blank
  · refine ⟨p, i, hp, rfl, hi, fun kind hkind => ?_⟩
    rw [hb] at hkind
    cases hkind
  · exact hg.grounds p.key hb

theorem Grounded.keep (hg : s.Grounded) (hr : s'.root = s.root) (ht : s.host.Keeps s'.host)
    (hrec : ∀ l, s'.store.overlay l = s.store.overlay l) : s'.Grounded := by
  refine ⟨fun l => hrec l ▸ hg.records l, fun l hl => ?_⟩
  rw [hrec] at hl ⊢
  exact (hg.grounds l hl).keeps hr ht

theorem Grounded.update (hg : s.Grounded) (hr : s'.root = s.root) (ht : s.host.Keeps s'.host)
    (hc : o.Coherent) (ho : s'.Grounds k o)
    (hrec : ∀ l, s'.store.overlay l = if l = k then o else s.store.overlay l) : s'.Grounded := by
  refine ⟨fun l => ?_, fun l hl => ?_⟩
  · rw [hrec]
    split_ifs
    · exact hc
    · exact hg.records l
  · rw [hrec] at hl ⊢
    by_cases hk : l = k
    · rw [if_pos hk, hk]
      exact ho
    · rw [if_neg hk] at hl ⊢
      exact (hg.grounds l hl).keeps hr ht

theorem Grounded.remove (hg : s.Grounded) (hr : s'.root = s.root)
    (ht : s.host.Removes s'.host (s.hostNames p))
    (hrec : ∀ l, s'.store.overlay l = if l = p.key then .blank else s.store.overlay l) :
    s'.Grounded := by
  refine ⟨fun l => ?_, fun l hl => ?_⟩
  · rw [hrec]
    split_ifs
    · exact Overlay.coherent_blank
    · exact hg.records l
  · rw [hrec] at hl ⊢
    by_cases hk : l = p.key
    · rw [if_pos hk] at hl
      exact absurd rfl hl
    · rw [if_neg hk] at hl ⊢
      obtain ⟨q, i, hq, rfl, hi, hdir⟩ := hg.grounds l hl
      have hne : s.hostNames q ≠ s.hostNames p := hostNames_ne fun he => hk (he ▸ rfl)
      refine ⟨q, i, hq, rfl, (has_of_root_eq hr).mpr (ht.descend _ i hne hi), ?_⟩
      rw [ht.isDirectory]
      exact hdir

section Moving

variable {old new : GuestPath} {t : String}

theorem has_of_moves (hr : s'.root = s.root) (hi : s.Has old i)
    (ht : s.host.Moves s'.host (s.hostNames old) (s.hostNames new) i) {rest : GuestPath} {j : Ino}
    (hj : s.Has (old ++ rest) j) : s'.Has (new ++ rest) j := by
  rw [has_of_root_eq hr, hostNames_append, ht.under]
  unfold Has at hj
  rw [hostNames_append, Host.descend_append_of_eq hi] at hj
  exact hj

theorem Grounds.moves (hg : s.Grounds (old.key ++ t) o) (hr : s'.root = s.root) (hold : old.Valid)
    (hnew : new.Valid) (hone : old ≠ []) (hnne : new ≠ []) (hi : s.Has old i)
    (ht : s.host.Moves s'.host (s.hostNames old) (s.hostNames new) i)
    (hhead : t = "" ∨ t.toList.head? = some '/') : s'.Grounds (new.key ++ t) o := by
  obtain ⟨q, j, hq, hkey, hj, hdir⟩ := hg
  obtain ⟨rest, rfl, rfl⟩ := (hold.suffix?_key_eq_some_iff hq hone).mp
    (suffix?_eq_some_iff.mpr ⟨hkey, hhead⟩)
  refine ⟨new ++ rest, j, hnew.append hq.of_append_right, GuestPath.key_append hnne,
    has_of_moves hr hi ht hj, ?_⟩
  rw [ht.isDirectory]
  exact hdir

theorem Grounds.apart (hg : s.Grounds k o) (hr : s'.root = s.root) (hold : old.Valid)
    (hnew : new.Valid) (hone : old ≠ []) (hnne : new ≠ [])
    (ht : s.host.Moves s'.host (s.hostNames old) (s.hostNames new) i)
    (hco : ¬ covers old.key k = true) (hcn : ¬ covers new.key k = true) : s'.Grounds k o := by
  obtain ⟨q, j, hq, rfl, hj, hdir⟩ := hg
  have hno : ¬ s.hostNames old <+: s.hostNames q := fun hp =>
    hco ((hold.covers_key_iff hq hone).mpr (hostNames_prefix_iff.mp hp))
  have hnn : ¬ s.hostNames new <+: s.hostNames q := fun hp =>
    hcn ((hnew.covers_key_iff hq hnne).mpr (hostNames_prefix_iff.mp hp))
  refine ⟨q, j, hq, rfl, ?_, ?_⟩
  · rw [has_of_root_eq hr, ht.apart _ hno hnn]
    exact hj
  · rw [ht.isDirectory]
    exact hdir

/-- Records move with their nodes. What lay at the new place goes, and its records with it. -/
theorem Grounded.move (hg : s.Grounded) (hr : s'.root = s.root) (hold : old.Valid)
    (hnew : new.Valid) (hone : old ≠ []) (hnne : new ≠ []) (hi : s.Has old i)
    (ht : s.host.Moves s'.host (s.hostNames old) (s.hostNames new) i)
    (hrec : s'.store = s.store.rename old.key new.key) : s'.Grounded := by
  by_cases hsame : old = new
  · subst hsame
    rw [Store.rename_self] at hrec
    exact hg.keep hr (ht.keeps hi) fun l => by rw [hrec]
  have hne : old.key ≠ new.key := fun he => hsame (hold.eq_of_key_eq hnew he)
  have hmoved : ∀ l t, suffix? new.key l = some t →
      s'.store.overlay l = s.store.overlay (old.key ++ t) := by
    intro l t hs
    rw [hrec]
    exact Store.overlay_rename hne hs
  have hother : ∀ l, suffix? new.key l = none →
      s'.store.overlay l = if covers old.key l = true then .blank else s.store.overlay l := by
    intro l hs
    rw [hrec]
    exact Store.overlay_rename_of_none hne hs
  refine ⟨fun l => ?_, fun l hl => ?_⟩
  · cases hs : suffix? new.key l with
    | some t =>
      rw [hmoved l t hs]
      exact hg.records _
    | none =>
      rw [hother l hs]
      split_ifs
      · exact Overlay.coherent_blank
      · exact hg.records l
  · cases hs : suffix? new.key l with
    | some t =>
      obtain ⟨rfl, hhead⟩ := suffix?_eq_some_iff.mp hs
      rw [hmoved _ t hs] at hl ⊢
      exact (hg.grounds _ hl).moves hr hold hnew hone hnne hi ht hhead
    | none =>
      rw [hother l hs] at hl ⊢
      by_cases hc : covers old.key l = true
      · rw [if_pos hc] at hl
        exact absurd rfl hl
      · rw [if_neg hc] at hl ⊢
        exact (hg.grounds l hl).apart hr hold hnew hone hnne ht hc (by simp [covers, hs])

end Moving

/-- **What requests do keeps records grounded.** -/
theorem Effect.grounded (he : Effect s s') (hr : s'.root = s.root) (hg : s.Grounded) :
    s'.Grounded := by
  cases he with
  | keep tree records => exact hg.keep hr tree records
  | @permit p i r valid tree node masked records =>
    obtain ⟨q, j, hq, hkey, hj, hdir⟩ := (hg.grounds_of_has valid node).keeps hr tree
    exact hg.update hr tree (hg.records p.key).setPermission ⟨q, j, hq, hkey, hj, hdir⟩ records
  | record valid tree node coherent masked hkind directory records =>
    refine hg.update hr tree coherent ⟨_, _, valid, rfl, node, fun t ht => ?_⟩ records
    rw [hkind] at ht
    cases ht
    exact directory
  | remove valid tree records => exact hg.remove hr tree records
  | move validOld validNew oldEntry newEntry node tree records =>
    exact hg.move hr validOld validNew oldEntry newEntry node tree records

theorem Effect.masked (he : Effect s s') (hm : s.store.Masked) : s'.store.Masked := by
  intro l r hr
  cases he with
  | keep tree records =>
    rw [records] at hr
    exact hm l r hr
  | permit valid tree node masked records =>
    rw [records] at hr
    split_ifs at hr
    · cases hr
      exact masked hm
    · exact hm l r hr
  | record valid tree node coherent masked hkind directory records =>
    rw [records] at hr
    split_ifs at hr
    · exact masked r hr
    · exact hm l r hr
  | remove valid tree records =>
    rw [records] at hr
    split_ifs at hr
    · cases hr
    · exact hm l r hr
  | move validOld validNew oldEntry newEntry node tree records =>
    rw [records] at hr
    exact hm.rename l r hr

/-! ## Links -/

theorem isSymlink_qid {m : Node} : m.qid.isSymlink = true ↔ m.kind = .symlink := by
  have hbit : ∀ kind : NodeKind, (kind.qidKind &&& Qid.symlink != 0) = true ↔ kind = .symlink := by
    intro kind
    cases kind <;> decide
  exact hbit m.kind

theorem typeBits_or_and_typeMask {bits : UInt32} (hb : bits &&& permissionMask = bits) :
    (kind.typeBits ||| bits) &&& NodeKind.typeMask = kind.typeBits := by
  have hdist : (kind.typeBits ||| bits) &&& NodeKind.typeMask =
      (kind.typeBits &&& NodeKind.typeMask) ||| (bits &&& NodeKind.typeMask) := by
    apply UInt32.toNat_inj.mp
    simp only [UInt32.toNat_and, UInt32.toNat_or, Nat.and_or_distrib_right]
  have hnone : bits &&& NodeKind.typeMask = 0 := by
    rw [← hb, UInt32.and_assoc]
    have hzero : permissionMask &&& NodeKind.typeMask = 0 := rfl
    rw [hzero, UInt32.and_zero]
  rw [hdist, hnone, UInt32.or_zero]
  cases kind <;> rfl

theorem mode_attr {m : Node} {t : Store} {h : Host} (hm : t.Masked) :
    (m.attr t h).mode &&& NodeKind.typeMask = m.kind.typeBits := by
  unfold Node.attr
  simp only
  split
  next r hr => exact typeBits_or_and_typeMask (hm m.key r hr)
  next => exact typeBits_or_and_typeMask (by rw [UInt32.and_assoc, UInt32.and_self])

theorem typeBits_inj {k k' : NodeKind} : k.typeBits = k'.typeBits ↔ k = k' := by
  cases k <;> cases k' <;> decide

theorem entryType_inj {k k' : NodeKind} : k.entryType = k'.entryType ↔ k = k' := by
  cases k <;> cases k' <;> decide

theorem qidKind_eq_directory_iff : kind.qidKind = Qid.directory ↔ kind = .directory := by
  cases kind <;> decide

theorem qidKind_eq_symlink_iff : kind.qidKind = Qid.symlink ↔ kind = .symlink := by
  cases kind <;> decide

theorem kind_eq_symlink_iff (hl : s.LinkFree) (hs : s.Sound) (hi : s.inspect p = .ok (i, n)) :
    (s.nodeOf p i n).kind = .symlink ↔ s.store.kind p.key = some .symlink := by
  obtain ⟨hhas, hn⟩ := (hl.inspect_eq_ok_iff hs).mp hi
  have hnolink : s.host.target? i = none := hl i ⟨p.map Name.ofText, hhas⟩
  unfold nodeOf
  cases hk : s.store.kind p.key with
  | some kind => simp
  | none =>
    simp only [Option.getD_none, reduceCtorEq, iff_false]
    intro hbody
    cases hb : n.body with
    | link t =>
      have : s.host.target? i = some t := by
        rw [Host.target?_eq_some_iff, Host.body?_of_node? hn, hb]
      rw [hnolink] at this
      cases this
    | _ =>
      rw [hb] at hbody
      cases hbody

theorem linkText_eq_symlink (hl : s.LinkFree) (hs : s.Sound) (hi : s.inspect p = .ok (i, n)) :
    s.linkText p = .ok (s.store.symlink p.key) := by
  unfold linkText
  cases ht : s.store.symlink p.key with
  | some t => rfl
  | none =>
    obtain ⟨hhas, hn⟩ := (hl.inspect_eq_ok_iff hs).mp hi
    have hnolink : s.host.target? i = none := hl i ⟨p.map Name.ofText, hhas⟩
    simp only [hi, Outcome.ok_bind]
    cases hb : n.body with
    | link t =>
      have : s.host.target? i = some t := by
        rw [Host.target?_eq_some_iff, Host.body?_of_node? hn, hb]
      rw [hnolink] at this
      cases this
    | _ => rfl

/-- **The target of a node can be read exactly if it is recorded as a link.** -/
theorem Coherent.readlink_iff (hc : s.Coherent) (hl : s.LinkFree) (hs : s.Sound)
    (hid : s.fids[id]? = some fid) (hi : s.inspect fid.path = .ok (i, n)) :
    (∃ t, s.readlink id = .ok (.readlink t, s)) ↔
      s.store.kind fid.path.key = some .symlink := by
  have hrecord : (s.store.symlink fid.path.key).isSome = true ↔
      s.store.kind fid.path.key = some .symlink := (hc.records fid.path.key).symlink
  rw [← hrecord, Option.isSome_iff_exists]
  simp only [readlink_eq_ok_iff]
  constructor
  · rintro ⟨t, fid', t', hid', ht, -, -⟩
    rw [hid] at hid'
    cases hid'
    rw [linkText_eq_symlink hl hs hi] at ht
    exact ⟨t', Except.ok.inj ht⟩
  · rintro ⟨t, ht⟩
    exact ⟨t, fid, t, hid, by rw [linkText_eq_symlink hl hs hi, ht], rfl, trivial⟩

end Share

end GuestShare
