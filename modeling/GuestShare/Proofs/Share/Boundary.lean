import GuestShare.Proofs.Share.Request

/-!
# Changes within the export

What a request may do to the host: it changes nodes of the export and files that are held open, new
nodes come into the export, and nothing from outside does.

* `Share.Holds`: the files that fids hold open.
* `Share.ChangesInside`: a change of the host within the export.
* `changesInside_edits`, `changesInside_create`, `changesInside_unbind`, `changesInside_move`: the
  changes that requests make.
* `Share.StaysInside`, `Share.LinkFree`: paths that do not lead out of the export.
-/

namespace GuestShare

namespace Share

/-- A fid holds the node open as a file. -/
def Holds (s : Share) (i : Ino) : Prop :=
  ∃ (id : FidId) (fid : Fid) (d : Descriptor),
    s.fids[id]? = some fid ∧ fid.handle = .file d ∧ d.ino = i

/-- The host changes within the export: other nodes stay as they are unless they are held open, and
stay outside; new nodes lie in the export. -/
structure ChangesInside (s : Share) (h : Host) : Prop where
  sound : (s.on h).Sound
  size_le : s.host.nodes.size ≤ h.nodes.size
  target?_eq : ∀ i, h.target? i = s.host.target? i
  untouched : ∀ i, i < s.host.nodes.size → ¬ s.Inside i → ¬ s.Holds i → h.node? i = s.host.node? i
  outside : ∀ i, i < s.host.nodes.size → (s.on h).Inside i → s.Inside i
  fresh : ∀ i, s.host.nodes.size ≤ i → i < h.nodes.size → (s.on h).Inside i

variable {s : Share} {h : Host} {i d d' : Ino} {dir : Place} {name name' : Name}
  {p : GuestPath} {place : Place}

theorem changesInside_refl (hs : s.Sound) : s.ChangesInside s.host where
  sound := hs
  size_le := Nat.le_refl _
  target?_eq _ := rfl
  untouched _ _ _ _ := rfl
  outside _ _ hi := hi
  fresh _ hle hlt := absurd hlt (Nat.not_lt.mpr hle)

theorem changesInside_edits {I : Ino → Prop} (hs : s.Sound)
    (hI : ∀ i, I i → s.Inside i ∨ s.Holds i) (he : Host.EditsIn I s.host h) :
    s.ChangesInside h where
  sound := hs.sameTree he.sameTree
  size_le := Nat.le_of_eq he.sameTree.size_eq.symm
  target?_eq := he.sameTree.target?
  untouched i _ hi hh := he.node?_eq i fun hIi => by
    rcases hI i hIi with hin | hheld
    · exact hi hin
    · exact hh hheld
  outside _ _ hi := (Sound.inside_sameTree he.sameTree).mp hi
  fresh i hle hlt := by
    rw [he.sameTree.size_eq] at hlt
    exact absurd hlt (Nat.not_lt.mpr hle)

theorem changesInside_edit (hs : s.Sound) (hi : s.Inside i ∨ s.Holds i)
    (he : Host.EditsIn (· = i) s.host h) : s.ChangesInside h := by
  refine changesInside_edits hs (fun j hj => ?_) he
  rw [hj]
  exact hi

theorem changesInside_create {b : Body} {mode : UInt32} (hs : s.Sound) (hd : s.Inside dir.ino)
    (hn : Host.Fits name) (hl : s.host.lookup dir name = .ok none) (hb : b.Bare) :
    s.ChangesInside (s.host.create dir.ino name b mode).2 := by
  obtain ⟨hdir, -, hnone⟩ := Host.lookup_eq_ok_iff.mp hl
  have hput : Host.Puts (· = dir.ino) s.host (s.host.create dir.ino name b mode).2 :=
    Host.Puts.refl.put rfl hdir hn (fun i hi => by rw [hnone] at hi; cases hi) hb
  refine ⟨hs.puts hput, hput.size_le, hput.target?_eq, ?_, ?_, ?_⟩
  · intro i hi hin _
    exact hput.node?_eq hi fun he => hin (he ▸ hd)
  · rintro i hi ⟨ns, hns⟩
    exact ⟨ns, hput.descend_old hi hns⟩
  · intro i hle hlt
    rw [Host.size_create] at hlt
    obtain rfl : i = s.host.nodes.size := by omega
    obtain ⟨ns, hns⟩ := hd
    refine ⟨ns ++ [name], ?_⟩
    rw [← List.append_assoc]
    refine Host.descend_concat_eq_some_iff.mpr
      ⟨dir.ino, hput.descend_of_isDirectory hdir hns, ?_⟩
    exact (Host.child?_create hb hdir).trans (if_pos ⟨rfl, rfl⟩)

theorem changesInside_unbind (hs : s.Sound) (hd : s.Inside d)
    (hdir : s.host.isDirectory d = true) : s.ChangesInside (s.host.unbind d name) where
  sound := hs.unbind hd hdir
  size_le := Nat.le_of_eq Host.size_unbind.symm
  target?_eq _ := Host.target?_unbind
  untouched i _ hi _ := Host.node?_unbind_ne fun he => hi (he ▸ hd)
  outside i _ hi :=
    inside_of_on (hs.root_eq hd hdir Host.sameBut_unbind)
      (fun _ _ _ _ he => .inl (Host.child?_of_unbind he)) hi
  fresh i hle hlt := by
    rw [Host.size_unbind] at hlt
    exact absurd hlt (Nat.not_lt.mpr hle)

theorem changesInside_move (hs : s.Sound) (hd : s.Inside d) (hdir : s.host.isDirectory d = true)
    (hd' : s.Inside d') (hdir' : s.host.isDirectory d' = true) (hn : Host.Fits name')
    (he : s.host.child? d name = some i) :
    s.ChangesInside ((s.host.unbind d name).bind d' name' i) where
  sound := hs.move hd hdir hd' hdir' hn he
  size_le := Nat.le_of_eq (by rw [Host.size_bind, Host.size_unbind])
  target?_eq j := by rw [Host.target?_bind, Host.target?_unbind]
  untouched j _ hj _ := by
    have hne : j ≠ d := fun he => hj (he ▸ hd)
    have hne' : j ≠ d' := fun he => hj (he ▸ hd')
    rw [Host.node?_bind_ne hne', Host.node?_unbind_ne hne]
  outside j _ hj := by
    have hroot : ((s.host.unbind d name).bind d' name' i).descend 0 s.root =
        s.host.descend 0 s.root :=
      (Host.sameBut_bind.descend_eq fun front rest heq hf =>
        hs.ne_of_prefix hd' hdir' heq (Host.descend_of_unbind hf)).trans
          (hs.root_eq hd hdir Host.sameBut_unbind)
    refine inside_of_on hroot (fun e n k _ hk => ?_) hj
    rw [Host.child?_bind] at hk
    split_ifs at hk
    · cases hk
      exact .inr (hd.child? he)
    · exact .inl (Host.child?_of_unbind hk)
  fresh j hle hlt := by
    rw [Host.size_bind, Host.size_unbind] at hlt
    exact absurd hlt (Nat.not_lt.mpr hle)

/-! ## Paths that stay inside -/

/-- Every beginning of the path that leads somewhere passes the check of a walk. -/
def StaysInside (s : Share) (p : GuestPath) : Prop :=
  ∀ q, q <+: p → ∀ names, s.host.canonical (s.hostPath q) = .ok names → s.staysInside q = true

theorem inside_of_staysInside (hp : s.staysInside p = true)
    (hf : s.host.find .follow (s.hostPath p) = .ok place) : s.Inside place.ino := by
  have hc : s.host.canonical (s.hostPath p) = .ok place.names :=
    Outcome.map_eq_ok_iff.mpr ⟨place, hf, rfl⟩
  unfold staysInside at hp
  rw [hc] at hp
  exact inside_of_prefix (Host.find_ofNames_hasPlace hf) (List.isPrefixOf_iff_prefix.mp hp)

theorem StaysInside.inside (hp : s.StaysInside p)
    (hf : s.host.find .follow (s.hostPath p) = .ok place) : s.Inside place.ino :=
  inside_of_staysInside
    (hp p List.prefix_rfl _ (Outcome.map_eq_ok_iff.mpr ⟨place, hf, rfl⟩)) hf

theorem StaysInside.of_prefix {q : GuestPath} (hp : s.StaysInside p) (hq : q <+: p) :
    s.StaysInside q := fun r hr => hp r (hr.trans hq)

theorem StaysInside.concat {n : String} (hp : s.StaysInside p)
    (hn : s.staysInside (p ++ [n]) = true) : s.StaysInside (p ++ [n]) := by
  intro q hq names hc
  rcases List.prefix_concat_iff.mp hq with rfl | hq
  · exact hn
  · exact hp q hq names hc

/-- The node itself, if it is a link not what it leads to, lies in the export as well. -/
theorem StaysInside.inside_of_inspect {n : Inode} (hs : s.Sound) (hp : s.StaysInside p)
    (hi : s.inspect p = .ok (i, n)) : s.Inside i ∧ s.host.node? i = some n := by
  rcases List.eq_nil_or_concat' p with rfl | ⟨q, name, rfl⟩
  · obtain ⟨place, hf, rfl, hn⟩ := inspect_eq_ok_iff.mp hi
    rw [hostPath, hostNames_nil, hs.find_root_eq_ok_iff] at hf
    exact ⟨⟨[], by rw [List.append_nil, hf.1]⟩, hn⟩
  · obtain ⟨-, dir, hf, hl, hn⟩ := inspect_concat_eq_ok_iff.mp hi
    have hd := (hp.of_prefix (List.prefix_append q [name])).inside hf
    exact ⟨hd.child? (Host.lookup_eq_ok_iff.mp hl).2.2, hn⟩

theorem LinkFree.staysInside (hl : s.LinkFree) (hs : s.Sound) : s.StaysInside p := by
  intro q _ names hc
  obtain ⟨place, hf, rfl⟩ := Outcome.map_eq_ok_iff.mp hc
  have hnames := ((hl.find_eq_ok_iff hs).mp hf).2.1
  unfold Share.staysInside
  rw [hc, hnames]
  exact List.isPrefixOf_iff_prefix.mpr (List.prefix_append _ _)

theorem LinkFree.on (hl : s.LinkFree) (hc : s.ChangesInside h) : (s.on h).LinkFree := by
  intro i hi
  change h.target? i = none
  rw [hc.target?_eq]
  by_cases hlt : i < s.host.nodes.size
  · exact hl i (hc.outside i hlt hi)
  · unfold Host.target? Host.body?
    rw [show s.host.node? i = none by simpa [Host.node?] using hlt]
    rfl

end Share

end GuestShare
