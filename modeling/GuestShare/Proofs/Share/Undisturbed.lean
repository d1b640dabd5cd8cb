import GuestShare.Proofs.Metadata.Touched
import GuestShare.Proofs.Share.Lookup

/-!
# Nodes that writing the records does not disturb

Writing the records makes directories and puts files in the place of others. Where none of what it
touches is a link, every path leads where it led before, unless it leads to what is touched itself.

* `Host.find_follow_of_keep`: at the end of a path there is a link to follow, or none.
* `Store.Writes.grows_of_files`: files that take the place of files hide nothing.
* `Share.Undisturbed`: writing does not touch a node, and no link.
* **`Undisturbed.inspect`**: such a node is found by the same paths, and it is the same.
-/

namespace GuestShare

namespace Host

variable {h : Host} {ns : List Name} {name : Name} {place dir : Place} {i : Ino}

theorem find_follow_child (hn : name.contains Name.nul = false)
    (hf : h.find .follow (Path.ofNames ns) = .ok dir) (hl : h.lookup dir name = .ok (some i))
    (ht : h.target? i = none) :
    h.find .follow (Path.ofNames (ns ++ [name])) = .ok (dir.down name i) := by
  obtain ⟨hns, hlead⟩ := find_ofNames_eq_ok_iff.mp hf
  rw [find_ofNames_eq_ok_iff, List.map_append]
  refine ⟨?_, ?_⟩
  · simp only [List.mem_append, List.mem_singleton, or_imp, forall_and, forall_eq]
    exact ⟨hns, hn⟩
  · have hend : h.EndsAt .follow (.down name)
        (h.walk .follow maxLinks (h.origin true) (ns.map .down)) := by
      intro dir' name' j hdir hname hj
      cases hdir.symm.trans hlead
      cases hname
      cases hj.symm.trans (lookup_eq_ok_iff.mp hl).2.2
      exact .inr ht
    unfold Leads
    rw [List.map_singleton, walk_concat hend, show h.walk _ _ _ _ = _ from hlead, Outcome.ok_bind,
      enter_down_eq_ok_iff]
    exact .inr ⟨i, hl, rfl⟩

theorem find_ofNames_nil {atEnd : AtEnd} : h.find atEnd (Path.ofNames []) = .ok Place.root := by
  rw [find_eq_ok_iff_locate, locate_eq_ok_iff]
  obtain ⟨expand, hwalk⟩ := h.walk_eq_walkSteps atEnd maxLinks (h.origin true)
  refine ⟨rfl, rfl, ?_⟩
  rw [show (Path.ofNames []).absolute = true from rfl, hwalk]
  rfl

theorem find_follow_of_keep (hf : h.find .keep (Path.ofNames ns) = .ok place)
    (ht : h.target? place.ino = none) : h.find .follow (Path.ofNames ns) = .ok place := by
  rcases List.eq_nil_or_concat' ns with rfl | ⟨ns, name, rfl⟩
  · rw [find_ofNames_nil] at hf ⊢
    exact hf
  · obtain ⟨hn, dir, i, hdir, hl, rfl⟩ := find_keep_child_eq_ok_iff.mp hf
    exact find_follow_child hn hdir hl ht

end Host

namespace Store

variable {s : Store} {h h' top : Host}

theorem Writes.grows_of_files (hw : Writes s top h h')
    (hfiles : ∀ place (c : Category) k, top.HasDir (dirPath s.dir) place →
      h.child? place.ino (Name.ofText c.fileName) = some k → h.target? k = none) :
    Host.Grows h h' := by
  induction hw with
  | refl => exact .refl h
  | touch _ _ ih =>
    refine ih.trans ⟨Host.workDir_modifyEntries, fun hi => ?_, fun ht => ?_, fun he _ => ?_⟩
    · rwa [Host.isDirectory_modifyEntries]
    · rwa [Host.target?_modifyEntries]
    · rwa [Host.child?_modifyEntries_id]
  | @write h₁ q c bs hw hq hd _ hno ih =>
    refine ih.trans (Host.create_grows hd (Body.bare_file _) fun k hk => ⟨hno k hk, ?_⟩)
    rw [hw.puts.target?_eq]
    by_cases hlt : k < h.nodes.size
    · exact hfiles q c k hq (hw.puts.child?_old hlt hk)
    · unfold Host.target? Host.body?
      rw [show h.node? k = none by simpa [Host.node?] using hlt]
      rfl

end Store

namespace Share

variable {s : Share} {p : GuestPath} {i : Ino} {n : Inode}

/-- Writing the records does not touch the node, and no link of the host. -/
def Undisturbed (s : Share) (i : Ino) : Prop :=
  ∀ j, s.store.Touches s.host j → j ≠ i ∧ s.host.target? j = none

theorem undisturbed_of_hasDir {place : Place}
    (hd : s.host.HasDir (Store.dirPath s.store.dir) place) (hne : place.ino ≠ i)
    (hfiles : ∀ (c : Category) k, s.host.child? place.ino (Name.ofText c.fileName) = some k →
      k ≠ i ∧ s.host.target? k = none) : s.Undisturbed i := by
  have hlead := Host.leadsToDirectory_iff_hasDir.mpr ⟨place, hd⟩
  rintro j (⟨hno, -⟩ | ⟨place', hd', htouch⟩)
  · rw [hlead] at hno
    cases hno
  · rw [Host.makeDirs_of_leadsToDirectory hlead] at hd' htouch
    obtain rfl := hd.unique hd'
    obtain rfl | ⟨c, hc⟩ := htouch
    · exact ⟨hne, Host.target?_of_isDirectory hd.2⟩
    · exact hfiles c j hc

theorem Undisturbed.grows (hu : s.Undisturbed i) : Host.Grows s.host s.flushRecords.2.host := by
  obtain hsame | hw := s.store.flush_writes (h := s.host)
  · rw [show s.flushRecords.2.host = s.host from hsame]
    exact .refl _
  · have hmade := Host.makeDirs_makes (p := Store.dirPath s.store.dir) (h := s.host)
    refine hmade.grows.trans (hw.grows_of_files fun place c k hplace hk => ?_)
    rw [hmade.puts.target?_eq]
    exact (hu k (.inr ⟨place, hplace, .inr ⟨c, hk⟩⟩)).2

theorem Undisturbed.child? {d : Ino} {name : Name} (hu : s.Undisturbed i)
    (hi : i < s.host.nodes.size) (he : s.host.child? d name = some i) :
    s.flushRecords.2.host.child? d name = some i := by
  obtain hsame | hw := s.store.flush_writes (h := s.host)
  · rw [show s.flushRecords.2.host = s.host from hsame]
    exact he
  · have hmade := Host.makeDirs_makes (p := Store.dirPath s.store.dir) (h := s.host)
    have hlt := Nat.lt_of_lt_of_le hi hmade.puts.size_le
    have hnames := hw.namesOf hlt fun place c hplace hc =>
      (hu i (.inr ⟨place, hplace, .inr ⟨c, hc⟩⟩)).1 rfl
    rw [← Host.mem_namesOf_iff] at he ⊢
    rw [show s.flushRecords.2.host.namesOf i = _ from hnames, hmade.namesOf hi]
    exact he

theorem node?_flushRecords {j : Ino} (hj : j < s.host.nodes.size)
    (ht : ¬ s.store.Touches s.host j) : s.flushRecords.2.host.node? j = s.host.node? j := by
  obtain hsame | hw := s.store.flush_writes (h := s.host)
  · rw [show s.flushRecords.2.host = s.host from hsame]
  · have hputs : Host.Puts (s.store.Touches s.host) s.host s.flushRecords.2.host := by
      refine Store.makeDirs_touches.trans (hw.puts.mono ?_)
      rintro _ ⟨q, hq, rfl⟩
      exact .inr ⟨q, hq, .inl rfl⟩
    exact hputs.node?_eq hj ht

/-- **A node that writing does not disturb** is found by the same paths, and it is the same. -/
theorem Undisturbed.inspect (hu : s.Undisturbed i) (hn : s.inspect p = .ok (i, n)) :
    s.flushRecords.2.inspect p = .ok (i, n) := by
  obtain ⟨place, hf, rfl, hnode⟩ := inspect_eq_ok_iff.mp hn
  have hlt : place.ino < s.host.nodes.size := Host.lt_size_of_node? hnode
  refine inspect_eq_ok_iff.mpr ⟨place, ?_, rfl, ?_⟩
  · change s.flushRecords.2.host.find .keep (Path.ofNames (s.hostNames p)) = .ok place
    change s.host.find .keep (Path.ofNames (s.hostNames p)) = .ok place at hf
    rcases List.eq_nil_or_concat' (s.hostNames p) with hnil | ⟨ns, name, hnames⟩
    · rw [hnil, Host.find_ofNames_nil] at hf ⊢
      exact hf
    · rw [hnames] at hf ⊢
      obtain ⟨hnul, dir, i, hdir, hl, rfl⟩ := Host.find_keep_child_eq_ok_iff.mp hf
      obtain ⟨hd, hlen, he⟩ := Host.lookup_eq_ok_iff.mp hl
      refine Host.find_keep_child_eq_ok_iff.mpr ⟨hnul, dir, i, hu.grows.find hd hdir, ?_, rfl⟩
      exact Host.lookup_eq_ok_iff.mpr ⟨hu.grows.isDirectory hd, hlen, hu.child? hlt he⟩
  · rw [node?_flushRecords hlt fun ht => (hu _ ht).1 rfl]
    exact hnode

end Share

end GuestShare
