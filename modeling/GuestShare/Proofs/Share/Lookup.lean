import GuestShare.Proofs.Share.Export

/-!
# What the server finds

The server looks at nodes by the paths of the client, below the exported directory.

* `node_eq_ok_iff`, `directory_eq_ok_iff`: what looking at a node finds.
* `Share.LinkFree`: an export that holds no link of the host.
* **`inspect_concat_eq_ok_iff`**: an entry is found in the directory to which its path leads.
* **`LinkFree.find_eq_ok_iff`**: without links, a path leads where its names lead.
-/

namespace GuestShare

namespace Share

variable {s : Share} {p q : GuestPath} {name : String} {i : Ino} {n : Inode} {place : Place}
  {id : FidId} {atEnd : AtEnd}

theorem hostNames_concat : s.hostNames (p ++ [name]) = s.hostNames p ++ [Name.ofText name] := by
  simp [hostNames]

theorem hostNames_append : s.hostNames (p ++ q) = s.hostNames p ++ q.map Name.ofText := by
  simp [hostNames]

theorem hostPath_concat :
    s.hostPath (p ++ [name]) = Path.ofNames (s.hostNames p ++ [Name.ofText name]) := by
  rw [hostPath, hostNames_concat]

theorem hostNames_nil : s.hostNames [] = s.root := by simp [hostNames]

/-! ## Looking at nodes -/

theorem inspect_eq_ok_iff :
    s.inspect p = .ok (i, n) ↔
      ∃ place, s.host.find .keep (s.hostPath p) = .ok place ∧ place.ino = i ∧
        s.host.node? i = some n := by
  unfold inspect Host.inspect
  rw [Outcome.mapError_eq_ok_iff]
  cases s.host.find .keep (s.hostPath p) with
  | error e => simp
  | ok place =>
    simp only [Outcome.ok_bind, Except.ok.injEq, exists_eq_left']
    cases hn : s.host.node? place.ino with
    | none =>
      simp only [Outcome.throw_eq_error, reduceCtorEq, false_iff, not_and]
      rintro rfl
      simp [hn]
    | some n' =>
      simp only [Outcome.pure_eq_ok, Except.ok.injEq, Prod.mk.injEq]
      constructor
      · rintro ⟨rfl, rfl⟩
        exact ⟨rfl, hn⟩
      · rintro ⟨rfl, hi⟩
        rw [hn] at hi
        exact ⟨rfl, Option.some.inj hi⟩

theorem node_eq_ok_iff {m : Node} :
    s.node p = .ok m ↔ s.inspect p = .ok (m.ino, m.inode) ∧ m = s.nodeOf p m.ino m.inode := by
  unfold node
  rw [Outcome.bind_eq_ok_iff]
  constructor
  · rintro ⟨⟨i, n⟩, hi, hm⟩
    cases hm
    exact ⟨hi, rfl⟩
  · rintro ⟨hi, hm⟩
    exact ⟨_, hi, congrArg Except.ok hm.symm⟩

theorem node_of_inspect (hi : s.inspect p = .ok (i, n)) : s.node p = .ok (s.nodeOf p i n) :=
  node_eq_ok_iff.mpr ⟨hi, rfl⟩

theorem fids_find_eq_ok_iff {fid : Fid} : s.fids.find id = .ok fid ↔ s.fids[id]? = some fid := by
  unfold Fids.find
  cases s.fids[id]? <;> simp

theorem directory_eq_ok_iff {fid : Fid} :
    s.directory id = .ok fid ↔
      s.fids[id]? = some fid ∧ ∃ m, s.node fid.path = .ok m ∧ m.kind = .directory := by
  unfold directory
  rw [Outcome.bind_eq_ok_iff]
  simp only [fids_find_eq_ok_iff]
  constructor
  · rintro ⟨fid', hid, hf⟩
    obtain ⟨m, hm, hf⟩ := Outcome.bind_eq_ok_iff.mp hf
    split_ifs at hf with hd
    cases hf
    exact ⟨hid, m, hm, by simpa [Node.isDirectory] using hd⟩
  · rintro ⟨hid, m, hm, hd⟩
    refine ⟨fid, hid, ?_⟩
    rw [hm, Outcome.ok_bind, if_pos (by simp [Node.isDirectory, hd])]
    rfl

/-- **An entry is found in the directory to which its path leads.** -/
theorem inspect_concat_eq_ok_iff :
    s.inspect (p ++ [name]) = .ok (i, n) ↔
      (Name.ofText name).contains Name.nul = false ∧
        ∃ dir, s.host.find .follow (s.hostPath p) = .ok dir ∧
          s.host.lookup dir (Name.ofText name) = .ok (some i) ∧ s.host.node? i = some n := by
  rw [inspect_eq_ok_iff, hostPath_concat]
  simp only [Host.find_keep_child_eq_ok_iff]
  constructor
  · rintro ⟨place, ⟨hn, dir, j, hf, hl, rfl⟩, rfl, hnode⟩
    exact ⟨hn, dir, hf, hl, hnode⟩
  · rintro ⟨hn, dir, hf, hl, hnode⟩
    exact ⟨dir.down _ i, ⟨hn, dir, i, hf, hl, rfl⟩, rfl, hnode⟩

/-! ## The way to the export -/

theorem Sound.target?_of_prefix (hs : s.Sound) {front : List Name} {j : Ino}
    (hp : front <+: s.root) (hj : s.host.descend 0 front = some j) : s.host.target? j = none := by
  obtain ⟨r, hr, hd⟩ := hs.root
  exact Host.target?_of_prefix hd hr hp hj

theorem Sound.find_root_eq_ok_iff (hs : s.Sound) :
    s.host.find atEnd (Path.ofNames s.root) = .ok place ↔
      s.host.descend 0 s.root = some place.ino ∧ place.names = s.root ∧ s.host.HasPlace place :=
  Host.find_ofNames_eq_ok_iff_descend hs.isTree fun _ _ hp hj => hs.target?_of_prefix hp hj

theorem Sound.leadsToDirectory_root (hs : s.Sound) :
    s.host.leadsToDirectory (Path.ofNames s.root) = true := by
  obtain ⟨r, hr, hd⟩ := hs.root
  obtain ⟨place, hp, hn, rfl⟩ := Host.exists_place hr
  exact Host.leadsToDirectory_iff.mpr
    ⟨place, hs.find_root_eq_ok_iff.mpr ⟨hr, hn, hp⟩, hd⟩

/-! ## Exports without links -/

/-- No node of the export is a link of the host. -/
def LinkFree (s : Share) : Prop := ∀ i, s.Inside i → s.host.target? i = none

/-- **Without links, a path leads where its names lead.** -/
theorem LinkFree.find_eq_ok_iff (hl : s.LinkFree) (hs : s.Sound) :
    s.host.find atEnd (s.hostPath p) = .ok place ↔
      s.host.descend 0 (s.hostNames p) = some place.ino ∧ place.names = s.hostNames p ∧
        s.host.HasPlace place := by
  refine Host.find_ofNames_eq_ok_iff_descend hs.isTree fun front j hp hj => ?_
  rcases List.prefix_or_prefix_of_prefix hp (List.prefix_append _ _) with hp | ⟨ns, hns⟩
  · exact hs.target?_of_prefix hp hj
  · exact hl j ⟨ns, by rw [hns, hj]⟩

theorem LinkFree.inspect_eq_ok_iff (hl : s.LinkFree) (hs : s.Sound) :
    s.inspect p = .ok (i, n) ↔
      s.host.descend 0 (s.hostNames p) = some i ∧ s.host.node? i = some n := by
  rw [Share.inspect_eq_ok_iff]
  simp only [hl.find_eq_ok_iff hs]
  constructor
  · rintro ⟨place, ⟨hd, -, -⟩, rfl, hn⟩
    exact ⟨hd, hn⟩
  · rintro ⟨hd, hn⟩
    obtain ⟨place, hp, hnames, rfl⟩ := Host.exists_place hd
    exact ⟨place, ⟨hd, hnames, hp⟩, rfl, hn⟩

end Share

end GuestShare
