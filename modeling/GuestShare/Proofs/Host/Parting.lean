import GuestShare.Proofs.Host.Steady

/-!
# What is no longer where it was

A node that is moved leaves its old names, and what it takes the place of loses its own. So names at
or below the old ones, or the new ones, lead to no node that they led to before. Only links on the
way can bring them back to it.

* `Host.OpenAbove`: there is no link on the way of names, but at their end perhaps.
* **`OpenAbove.find_keep`**: on such a way a path is the names that it is made of.
* `Host.Yields`: what may have its place taken by a node that is moved.
* `Host.Relocates`: an entry that is moved between names.
* **`Relocates.parts`**: where names led to before an entry was moved they do not lead after it.
* **`Relocates.parts_puts`**: nor do they once new nodes are put beside others.
-/

namespace GuestShare

namespace Host

variable {h h'' : Host} {i j k d d' : Ino} {name name' : Name} {ns q q' front : List Name}
  {place dir : Place} {I : Ino → Prop}

/-! ## Ways without links -/

/-- There is no link on the way of names, but at their end perhaps. -/
def OpenAbove (h : Host) (ns : List Name) : Prop :=
  ∀ front j, front <+: ns → front ≠ ns → h.descend 0 front = some j → h.target? j = none

theorem OpenAbove.of_prefix (ho : h.OpenAbove ns) (hns : q ++ [name] <+: ns) (front : List Name)
    (j : Ino) (hp : front <+: q) (hj : h.descend 0 front = some j) : h.target? j = none := by
  refine ho front j (hp.trans ((List.prefix_append _ _).trans hns)) (fun he => ?_) hj
  have hlonger := hns.length_le
  rw [← he, List.length_append, List.length_singleton] at hlonger
  exact absurd hp.length_le (Nat.not_le_of_lt hlonger)

theorem OpenAbove.names_eq (ho : h.OpenAbove ns) (ht : h.IsTree) (hns : q ++ [name] <+: ns)
    (hf : h.find .follow (Path.ofNames q) = .ok dir) : dir.names = q :=
  ((find_ofNames_eq_ok_iff_descend ht (ho.of_prefix hns)).mp hf).2.1

/-- **Without links on its way a path leads where its names lead.** -/
theorem OpenAbove.find_keep (ho : h.OpenAbove ns) (ht : h.IsTree)
    (hf : h.find .keep (Path.ofNames ns) = .ok place) : h.descend 0 ns = some place.ino := by
  rcases List.eq_nil_or_concat' ns with rfl | ⟨ns, name, rfl⟩
  · exact ((find_ofNames_eq_ok_iff_descend ht fun front j hp hj => by
      cases List.prefix_nil.mp hp
      cases hj
      exact target?_of_isDirectory ht.root).mp hf).1
  · obtain ⟨-, dir, i, hdir, hl, rfl⟩ := find_keep_child_eq_ok_iff.mp hf
    have hopen := ho.of_prefix (List.prefix_refl _)
    obtain ⟨hd, -, -⟩ := (find_ofNames_eq_ok_iff_descend ht hopen).mp hdir
    exact descend_concat_eq_some_iff.mpr ⟨dir.ino, hd, (lookup_eq_ok_iff.mp hl).2.2⟩

/-! ## Moving -/

/-- What has the name in the directory, if anything, is not the node, and has nothing below it. -/
def Yields (h : Host) (i d : Ino) (name : Name) : Prop :=
  ∀ j, h.child? d name = some j → j ≠ i ∧ (h.isDirectory j = false ∨ h.entries? j = some ∅)

theorem FreeFor.yields (hf : h.FreeFor i dir name) : h.Yields i dir.ino name := by
  intro j hj
  rcases hf with hl | ⟨j', hl, hne, hcase⟩
  · rw [(lookup_eq_ok_iff.mp hl).2.2] at hj
    cases hj
  · rw [(lookup_eq_ok_iff.mp hl).2.2] at hj
    cases hj
    exact ⟨hne, hcase.elim (fun hc => .inr hc.2) fun hc => .inl hc.2⟩

theorem Yields.eq_nil (hy : h.Yields i d name) (hq : h.descend 0 q = some d)
    (hns : h.descend 0 (q ++ [name] ++ ns) = some k) : ns = [] ∧ k ≠ i := by
  rw [descend_append, Option.bind_eq_some_iff] at hns
  obtain ⟨j, hj, hns⟩ := hns
  obtain ⟨d', hd', he⟩ := descend_concat_eq_some_iff.mp hj
  cases hq.symm.trans hd'
  obtain ⟨hne, hnone⟩ := hy j he
  obtain rfl : ns = [] := eq_nil_of_descend hnone hns
  cases hns
  exact ⟨rfl, hne⟩

/-- An entry is moved: its names, and those that it gets, and what has to hold for that. -/
structure Relocates (h : Host) (q : List Name) (name : Name) (q' : List Name) (name' : Name)
    (d d' i : Ino) : Prop where
  old : h.descend 0 q = some d
  entry : h.child? d name = some i
  new : h.descend 0 q' = some d'
  directory : h.isDirectory d' = true
  yields : h.Yields i d' name'
  not_below : ¬ q ++ [name] <+: q'

namespace Relocates

variable (hm : h.Relocates q name q' name' d d' i)

include hm

theorem moves (ht : h.IsTree) :
    Moves h ((h.unbind d name).bind d' name' i) (q ++ [name]) (q' ++ [name']) i :=
  ht.move_moves hm.old hm.entry hm.new hm.directory hm.not_below

theorem above_old (ht : h.IsTree) (hp : front <+: q) :
    ((h.unbind d name).bind d' name' i).descend 0 front = h.descend 0 front := by
  refine (hm.moves ht).apart front (fun hold => ?_) fun hnew => ?_
  · have := (hold.trans hp).length_le
    rw [List.length_append, List.length_singleton] at this
    omega
  · -- What yields has nothing below it, so it is not on the way to the entry.
    obtain ⟨rest, hrest⟩ := hnew.trans hp
    have hentry : h.descend 0 (q' ++ [name'] ++ (rest ++ [name])) = some i := by
      rw [← List.append_assoc, hrest]
      exact descend_concat_eq_some_iff.mpr ⟨d, hm.old, hm.entry⟩
    exact absurd (hm.yields.eq_nil hm.new hentry).1 (by simp)

theorem above_new (ht : h.IsTree) (hp : front <+: q') :
    ((h.unbind d name).bind d' name' i).descend 0 front = h.descend 0 front := by
  refine (hm.moves ht).apart front (fun hold => hm.not_below (hold.trans hp)) fun hnew => ?_
  have := (hnew.trans hp).length_le
  rw [List.length_append, List.length_singleton] at this
  omega

theorem old_gone (ht : h.IsTree) (hp : q ++ [name] <+: front) :
    ((h.unbind d name).bind d' name' i).descend 0 front = none := by
  obtain ⟨rest, rfl⟩ := hp
  have hgone : ((h.unbind d name).bind d' name' i).child? d name = none := by
    rw [child?_bind, if_neg, child?_unbind, if_pos ⟨rfl, rfl⟩]
    rintro ⟨rfl, rfl, -⟩
    exact (hm.yields i hm.entry).1 rfl
  rw [descend_append, descend_concat, hm.above_old ht (List.prefix_refl q), hm.old,
    Option.bind_some, hgone, Option.bind_none]

/-- Names on the way to the old or the new ones, or to what was below them, lead where they led, if
they lead anywhere. -/
theorem above (ht : h.IsTree) (hk : h.descend 0 ns = some k)
    (hns : q ++ [name] <+: ns ∨ q' ++ [name'] <+: ns) (hp : front <+: ns) (hne : front ≠ ns)
    (hj : ((h.unbind d name).bind d' name' i).descend 0 front = some j) :
    h.descend 0 front = some j := by
  rcases hns with hns | ⟨rest, rfl⟩
  · rcases List.prefix_or_prefix_of_prefix hp hns with hfront | hfront
    · rcases List.prefix_concat_iff.mp hfront with rfl | hfront
      · rw [hm.old_gone ht (List.prefix_refl _)] at hj
        cases hj
      · rwa [hm.above_old ht hfront] at hj
    · rw [hm.old_gone ht hfront] at hj
      cases hj
  · obtain ⟨rfl, -⟩ := hm.yields.eq_nil hm.new hk
    rw [List.append_nil] at hp hne
    rcases List.prefix_concat_iff.mp hp with rfl | hfront
    · exact absurd rfl hne
    · rwa [hm.above_new ht hfront] at hj

/-- **Where names led to before an entry was moved they do not lead after it**, if they are at or
below its old or its new ones. -/
theorem parts (ht : h.IsTree) (hk : h.descend 0 ns = some k)
    (hns : q ++ [name] <+: ns ∨ q' ++ [name'] <+: ns) :
    ((h.unbind d name).bind d' name' i).descend 0 ns ≠ some k := by
  rcases hns with hns | ⟨rest, rfl⟩
  · rw [hm.old_gone ht hns]
    exact fun he => by cases he
  · obtain ⟨rfl, hne⟩ := hm.yields.eq_nil hm.new hk
    rw [(hm.moves ht).under, descend_nil]
    exact fun he => hne (Option.some.inj he).symm

/-- **Nor do paths, once new nodes are put beside others**, if there was no link on their way. -/
theorem parts_puts (ht : h.IsTree) (ht' : h''.IsTree)
    (hp : Puts I ((h.unbind d name).bind d' name' i) h'') (ho : h.OpenAbove ns)
    (hk : h.descend 0 ns = some k) (hlt : k < h.nodes.size)
    (hns : q ++ [name] <+: ns ∨ q' ++ [name'] <+: ns)
    (hf : h''.find .keep (Path.ofNames ns) = .ok place) : place.ino ≠ k := by
  rintro rfl
  have hsize : ((h.unbind d name).bind d' name' i).nodes.size = h.nodes.size := by
    rw [size_bind, size_unbind]
  have ho' : h''.OpenAbove ns := by
    intro front j hfront hne hj
    have htarget : h''.target? j = h.target? j := by
      rw [hp.target?_eq, target?_bind, target?_unbind]
    rw [htarget]
    by_cases hold : j < h.nodes.size
    · exact ho front j hfront hne
        (hm.above ht hk hns hfront hne (hp.descend_old (hsize ▸ hold) hj))
    · simp [target?, body?, node?, hold]
  exact hm.parts ht hk hns (hp.descend_old (hsize ▸ hlt) (ho'.find_keep ht' hf))

end Relocates

end Host

end GuestShare
