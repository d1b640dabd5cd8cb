import GuestShare.Proofs.Host.Relocation
import GuestShare.Proofs.Metadata.Flush
import GuestShare.Share.Serve

/-!
# The export on its host

A share exports a directory of a host that is a tree. What the export holds are the nodes to which
names lead from that directory. Changes of the nodes in it leave the way to it alone.

* `Host.WellFormed`: the hosts on which shares are started.
* `Share.Sound`: the host is a tree, and the exported directory is there.
* `Share.Inside`: the nodes of the export.
* **`start_sound`**: a share that starts is sound.
* **`Sound.create`**, **`Sound.unbind`**, **`Sound.move`**, **`Sound.puts`**: it stays sound.
-/

namespace GuestShare

/-- A host that is a tree and has the working directory. -/
structure Host.WellFormed (h : Host) : Prop where
  isTree : h.IsTree
  workDir : h.HasPlace h.workDir

namespace Host

theorem child?_empty {clock : Instant} {d : Ino} {name : Name} :
    (empty clock).child? d name = none := by
  cases d <;> rfl

theorem wellFormed_empty (clock : Instant) : (empty clock).WellFormed where
  isTree :=
    { root := rfl
      entry_fits := fun he => by rw [child?_empty] at he; cases he
      entry_lt := fun he => by rw [child?_empty] at he; cases he
      entry_ne_root := fun he => by rw [child?_empty] at he; cases he
      entry_unique := fun _ he => by rw [child?_empty] at he; cases he }
  workDir := hasPlace_root

end Host

namespace Share

/-- A node of the export: names lead to it from the exported directory. -/
def Inside (s : Share) (i : Ino) : Prop := ∃ ns, s.host.descend 0 (s.root ++ ns) = some i

/-- The host is a tree, and the exported directory is there. -/
structure Sound (s : Share) : Prop where
  isTree : s.host.IsTree
  root : ∃ r, s.host.descend 0 s.root = some r ∧ s.host.isDirectory r = true

/-- The share on another host. -/
def on (s : Share) (h : Host) : Share := { s with host := h }

variable {s s' : Share} {h : Host} {i d : Ino} {name : Name} {ns : List Name}

theorem Inside.child? (hd : s.Inside d) (he : s.host.child? d name = some i) : s.Inside i := by
  obtain ⟨ns, hns⟩ := hd
  exact ⟨ns ++ [name], by
    rw [← List.append_assoc]
    exact Host.descend_concat_eq_some_iff.mpr ⟨d, hns, he⟩⟩

theorem Inside.lt_size (hs : s.Sound) (hi : s.Inside i) : i < s.host.nodes.size := by
  obtain ⟨ns, hns⟩ := hi
  rcases List.eq_nil_or_concat' (s.root ++ ns) with he | ⟨front, n, he⟩
  · rw [he] at hns
    cases hns
    exact Host.lt_size_of_isDirectory hs.isTree.root
  · rw [he] at hns
    obtain ⟨d, -, hd⟩ := Host.descend_concat_eq_some_iff.mp hns
    exact hs.isTree.entry_lt hd

theorem inside_of_prefix {p : Place} (hp : s.host.HasPlace p) (hn : s.root <+: p.names) :
    s.Inside p.ino := by
  obtain ⟨ns, hns⟩ := hn
  exact ⟨ns, by rw [hns, hp.descend]⟩

theorem Sound.prefix_of_inside (hs : s.Sound) (hi : s.Inside i) (hdir : s.host.isDirectory i = true)
    (hns : s.host.descend 0 ns = some i) : s.root <+: ns := by
  obtain ⟨ms, hms⟩ := hi
  exact ⟨ms, hs.isTree.descend_unique hdir hms hns⟩

theorem Sound.ne_of_prefix (hs : s.Sound) (hd : s.Inside d) (hdir : s.host.isDirectory d = true)
    {front rest : List Name} (hr : s.root = front ++ name :: rest) :
    s.host.descend 0 front ≠ some d := by
  intro hf
  have := (hs.prefix_of_inside hd hdir hf).length_le
  rw [hr, List.length_append, List.length_cons] at this
  omega

theorem Sound.root_eq (hs : s.Sound) (hd : s.Inside d) (hdir : s.host.isDirectory d = true)
    (hb : Host.SameBut d name s.host h) : h.descend 0 s.root = s.host.descend 0 s.root :=
  hb.descend_eq fun _ _ he => hs.ne_of_prefix hd hdir he

/-- Where every new entry in a directory of the export names a node of the export, no other node
comes into the export. -/
theorem inside_of_on (hroot : h.descend 0 s.root = s.host.descend 0 s.root)
    (hnew : ∀ d name i, s.Inside d → h.child? d name = some i →
      s.host.child? d name = some i ∨ s.Inside i) (hi : (s.on h).Inside i) : s.Inside i := by
  obtain ⟨ns, hns⟩ := hi
  induction ns using List.reverseRecOn generalizing i with
  | nil => exact ⟨[], by rw [List.append_nil] at hns ⊢; exact hroot ▸ hns⟩
  | append_singleton ns n ih =>
    rw [← List.append_assoc] at hns
    obtain ⟨d, hd, he⟩ := Host.descend_concat_eq_some_iff.mp hns
    have hd' := ih hd
    rcases hnew d n i hd' he with he | hi
    · exact hd'.child? he
    · exact hi

/-! ## What keeps a share sound -/

namespace Sound

theorem congr (hs : s.Sound) (hr : s'.root = s.root) (hh : s'.host = s.host) : s'.Sound where
  isTree := hh ▸ hs.isTree
  root := by
    rw [hr, hh]
    exact hs.root

theorem sameTree (hs : s.Sound) (ht : Host.SameTree s.host h) : (s.on h).Sound where
  isTree := hs.isTree.sameTree ht
  root := by
    obtain ⟨r, hr, hd⟩ := hs.root
    refine ⟨r, ?_, ?_⟩
    · exact (ht.descend 0 s.root).trans hr
    · exact (ht.isDirectory r).trans hd

theorem inside_sameTree (ht : Host.SameTree s.host h) : (s.on h).Inside i ↔ s.Inside i := by
  unfold Inside
  simp only [on, ht.descend]

/-- **New nodes, wherever they are put, keep a share sound.** -/
theorem puts {I : Ino → Prop} (hs : s.Sound) (hp : Host.Puts I s.host h) : (s.on h).Sound where
  isTree := hp.isTree hs.isTree
  root := by
    obtain ⟨r, hr, hd⟩ := hs.root
    exact ⟨r, hp.descend_of_isDirectory hd hr,
      (hp.isDirectory_eq (Host.lt_size_of_isDirectory hd)).trans hd⟩

/-- **Taking a name away in the export keeps a share sound.** -/
theorem unbind (hs : s.Sound) (hd : s.Inside d) (hdir : s.host.isDirectory d = true) :
    (s.on (s.host.unbind d name)).Sound where
  isTree := hs.isTree.unbind
  root := by
    obtain ⟨r, hr, hdr⟩ := hs.root
    refine ⟨r, (hs.root_eq hd hdir Host.sameBut_unbind).trans hr, ?_⟩
    change (s.host.unbind d name).isDirectory r = true
    rw [Host.isDirectory_unbind, hdr]

/-- **Moving an entry in the export keeps a share sound.** -/
theorem move {d' : Ino} {name' : Name} (hs : s.Sound) (hd : s.Inside d)
    (hdir : s.host.isDirectory d = true) (hd' : s.Inside d')
    (hdir' : s.host.isDirectory d' = true) (hn : Host.Fits name')
    (he : s.host.child? d name = some i) :
    (s.on ((s.host.unbind d name).bind d' name' i)).Sound where
  isTree := hs.isTree.move hn he
  root := by
    obtain ⟨r, hr, hdr⟩ := hs.root
    have hroot : ((s.host.unbind d name).bind d' name' i).descend 0 s.root =
        (s.host.unbind d name).descend 0 s.root :=
      Host.sameBut_bind.descend_eq fun front rest heq hf =>
        hs.ne_of_prefix hd' hdir' heq (Host.descend_of_unbind hf)
    refine ⟨r, ?_, ?_⟩
    · exact hroot.trans ((hs.root_eq hd hdir Host.sameBut_unbind).trans hr)
    · change ((s.host.unbind d name).bind d' name' i).isDirectory r = true
      rw [Host.isDirectory_bind, Host.isDirectory_unbind,
        hdr]

end Sound

/-! ## Starting -/

theorem start_eq_ok {o : ShareOptions} (hs : (start o h).1 = .ok s) :
    (Host.makeDirs (Path.ofText o.root) h).1 = .ok () ∧
      s.host = (Host.makeDirs (Path.ofText o.root) h).2 ∧
      s.host.canonical (Path.ofText o.root) = .ok s.root ∧
      s.store = Store.load o.metadataDir s.host ∧ s.fids = ∅ := by
  unfold start at hs
  rcases hm : Host.makeDirs (Path.ofText o.root) h with ⟨r, h₁⟩
  rw [hm] at hs
  cases r with
  | error e => cases hs
  | ok _ =>
    simp only at hs
    cases hc : h₁.canonical (Path.ofText o.root) with
    | error e =>
      rw [hc] at hs
      cases hs
    | ok root =>
      rw [hc] at hs
      cases hs
      exact ⟨rfl, rfl, hc, rfl, rfl⟩

theorem start_puts {o : ShareOptions} (hs : (start o h).1 = .ok s) :
    ∃ I, Host.Puts I h s.host :=
  ⟨_, (start_eq_ok hs).2.1 ▸ (Host.makeDirs_makes (p := Path.ofText o.root)).puts⟩

/-- **A share that starts is sound.** -/
theorem start_sound {o : ShareOptions} (hh : h.WellFormed) (hs : (start o h).1 = .ok s) :
    s.Sound := by
  obtain ⟨hok, hhost, hc, -, -⟩ := start_eq_ok hs
  have hm : Host.makeDirs (Path.ofText o.root) h = (.ok (), s.host) := Prod.ext hok hhost.symm
  have hmakes : Host.Makes (Path.ofText o.root).ancestors h s.host := by
    have := Host.makeDirs_makes (p := Path.ofText o.root) (h := h)
    rwa [hm] at this
  have htree : s.host.IsTree := hmakes.puts.isTree hh.isTree
  have hwork : s.host.HasPlace s.host.workDir := by
    rw [hmakes.puts.workDir_eq]
    exact hmakes.hasPlace hh.workDir
  obtain ⟨place, hf, hroot⟩ := Outcome.map_eq_ok_iff.mp hc
  refine ⟨htree, place.ino, hroot ▸ (Host.find_hasPlace hwork hf).descend, ?_⟩
  by_cases hmoves : (Path.ofText o.root).moves = []
  · exact Host.isDirectory_of_moves_eq_nil htree hmoves hf
  · obtain ⟨place', hf', hd⟩ :=
      Host.leadsToDirectory_iff.mp (Host.leadsToDirectory_makeDirs hmoves hm)
    rw [hf] at hf'
    cases hf'
    exact hd

end Share

end GuestShare
