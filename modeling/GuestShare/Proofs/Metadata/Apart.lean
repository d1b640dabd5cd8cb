import GuestShare.Proofs.Metadata.Filed

/-!
# Where the metadata path leads

A path leads to the same directory as long as no directory and no link on its way is taken away. So
what becomes of other entries does not matter to it.

* `Host.GrowsBut`: a host that keeps every directory and every link, but for some entries.
* **`GrowsBut.hasDir_ofNames`**: names lead to the same directory if no entry on their way is one
  of these.
* **`flush_growsBut`**: writing the records takes away entries of category files only.
-/

namespace GuestShare

namespace Host

variable {h h' h'' : Host} {F G : Ino → Name → Prop} {d i : Ino} {name : Name} {ns : List Name}

/-- The second host has every directory and every link of the first one, under the same names but
for some entries. -/
structure GrowsBut (F : Ino → Name → Prop) (h h' : Host) : Prop where
  workDir_eq : h'.workDir = h.workDir
  isDirectory : ∀ {i}, h.isDirectory i = true → h'.isDirectory i = true
  target? : ∀ {i t}, h.target? i = some t → h'.target? i = some t
  child? : ∀ {d name i}, ¬ F d name → h.child? d name = some i →
    (h.isDirectory i = true ∨ (h.target? i).isSome = true) → h'.child? d name = some i

theorem Grows.but (hg : Grows h h') : GrowsBut F h h' :=
  ⟨hg.workDir_eq, hg.isDirectory, hg.target?, fun _ => hg.child?⟩

namespace GrowsBut

theorem refl (F : Ino → Name → Prop) (h : Host) : GrowsBut F h h := (Grows.refl h).but

theorem trans (h₁ : GrowsBut F h h') (h₂ : GrowsBut G h' h'')
    (hFG : ∀ d name i, h.child? d name = some i → G d name → F d name) : GrowsBut F h h'' where
  workDir_eq := h₂.workDir_eq.trans h₁.workDir_eq
  isDirectory hi := h₂.isDirectory (h₁.isDirectory hi)
  target? ht := h₂.target? (h₁.target? ht)
  child? {d name i} hF he hi := by
    refine h₂.child? (fun hG => hF (hFG d name i he hG)) (h₁.child? hF he hi) ?_
    refine hi.imp h₁.isDirectory fun hlink => ?_
    obtain ⟨t, ht⟩ := Option.isSome_iff_exists.mp hlink
    rw [h₁.target? ht]
    rfl

theorem descend (hg : GrowsBut F h h') (hns : h.descend 0 ns = some i)
    (hi : h.isDirectory i = true)
    (hout : ∀ front name d, front ++ [name] <+: ns → h.descend 0 front = some d → ¬ F d name) :
    h'.descend 0 ns = some i := by
  induction ns using List.reverseRecOn generalizing i with
  | nil => exact hns
  | append_singleton front name ih =>
    obtain ⟨d, hd, hchild⟩ := descend_concat_eq_some_iff.mp hns
    have hfront := ih hd (isDirectory_of_child? hchild) fun front' name' d' hp =>
      hout front' name' d' (hp.trans (List.prefix_append _ _))
    exact descend_concat_eq_some_iff.mpr
      ⟨d, hfront, hg.child? (hout front name d List.prefix_rfl hd) hchild (.inl hi)⟩

/-- **An absolute path of names leads to the same directory** if no entry on its way matters. -/
theorem hasDir_ofNames (hg : GrowsBut F h h') (ht : h'.IsTree) (hns : h.descend 0 ns = some i)
    (hi : h.isDirectory i = true)
    (hout : ∀ front name d, front ++ [name] <+: ns → h.descend 0 front = some d → ¬ F d name) :
    ∃ place, h'.HasDir (Path.ofNames ns) place ∧ place.ino = i := by
  have hns' := hg.descend hns hi hout
  have hi' := hg.isDirectory hi
  obtain ⟨place, hp, hnames, rfl⟩ := exists_place hns'
  refine ⟨place, ⟨(find_ofNames_eq_ok_iff_descend ht fun _ _ hfront hj => ?_).mpr
    ⟨hns', hnames, hp⟩, hi'⟩, rfl⟩
  exact target?_of_prefix hi' hns' hfront hj

end GrowsBut

end Host

namespace Store

variable {s : Store} {h : Host} {place : Place}

/-- An entry of a directory that has the name of a category file. -/
def IsCategoryEntry (d : Ino) (e : Ino) (name : Name) : Prop :=
  e = d ∧ ∃ c : Category, name = Name.ofText c.fileName

/-- **Writing the records takes away no directory and no link**, but for those that have the name of
a category file in the metadata directory. -/
theorem flush_growsBut (hp : h.HasDir (dirPath s.dir) place) :
    h.GrowsBut (IsCategoryEntry place.ino) (s.flush h).2.2 := by
  obtain hsame | hw := s.flush_writes (h := h)
  · rw [hsame]
    exact .refl _ h
  rw [Host.makeDirs_of_leadsToDirectory (Host.leadsToDirectory_iff_hasDir.mpr ⟨place, hp⟩)] at hw
  exact {
    workDir_eq := hw.puts.workDir_eq
    isDirectory := fun hi => by rwa [hw.puts.isDirectory_eq (Host.lt_size_of_isDirectory hi)]
    target? := fun ht => by rwa [hw.puts.target?_eq]
    child? := fun hno he _ => hw.child? he fun q c hq ⟨hd, hname⟩ =>
      hno ⟨hd.trans (congrArg Place.ino (hq.unique hp)), c, hname⟩ }

end Store

end GuestShare
