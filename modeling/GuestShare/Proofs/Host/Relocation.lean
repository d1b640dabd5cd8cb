import GuestShare.Proofs.Host.Addition

/-!
# Where names lead after a change

Names lead on to what they led to, unless a change takes away or moves what they pass. What is moved
is found under its new names with everything below it.

* `Host.Keeps`: names lead to something as before, to a directory if they did.
* `Host.Removes`: names lead on, but for one list of names.
* `Host.Moves`: what lay under some names lies under others.
* `Host.Stays`: every entry names the node that it named.
* **`IsTree.unbind_removes`**: taking the name of a node away that has nothing below it.
* **`IsTree.move_moves`**: moving an entry.
-/

namespace GuestShare

namespace Host

variable {h h' h'' : Host} {i j d d' : Ino} {name name' : Name} {ns q q' : List Name}

/-- Names that lead to something go on doing so, and to a directory if they did. -/
def Keeps (h h' : Host) : Prop :=
  ∀ ns i, h.descend 0 ns = some i →
    ∃ j, h'.descend 0 ns = some j ∧ h'.isDirectory j = h.isDirectory i

/-- Names go on leading where they led, but for one list of names. -/
structure Removes (h h' : Host) (gone : List Name) : Prop where
  isDirectory : ∀ i, h'.isDirectory i = h.isDirectory i
  descend : ∀ ns i, ns ≠ gone → h.descend 0 ns = some i → h'.descend 0 ns = some i

/-- A node lies under new names with what was below it, and nothing else lies there. Names that
begin neither with the old nor with the new ones lead where they led. -/
structure Moves (h h' : Host) (old new : List Name) (i : Ino) : Prop where
  isDirectory : ∀ j, h'.isDirectory j = h.isDirectory j
  under : ∀ rest, h'.descend 0 (new ++ rest) = h.descend i rest
  apart : ∀ ns, ¬ old <+: ns → ¬ new <+: ns → h'.descend 0 ns = h.descend 0 ns

theorem Keeps.refl (h : Host) : Keeps h h := fun _ i hi => ⟨i, hi, rfl⟩

theorem Keeps.trans (h₁ : Keeps h h') (h₂ : Keeps h' h'') : Keeps h h'' := by
  intro ns i hi
  obtain ⟨j, hj, hd⟩ := h₁ ns i hi
  obtain ⟨k, hk, hd'⟩ := h₂ ns j hj
  exact ⟨k, hk, hd'.trans hd⟩

theorem SameTree.keeps (hs : SameTree h h') : Keeps h h' := fun ns i hi =>
  ⟨i, by rw [hs.descend, hi], hs.isDirectory i⟩

theorem Puts.keeps {I : Ino → Prop} (hp : Puts I h h') (ht : h.IsTree) : Keeps h h' :=
  fun _ _ hi => hp.exists_descend ht hi

theorem eq_nil_of_descend (hi : h.isDirectory i = false ∨ h.entries? i = some ∅)
    (hns : h.descend i ns = some j) : ns = [] := by
  cases ns with
  | nil => rfl
  | cons n ns =>
    obtain ⟨k, hk, -⟩ := Option.bind_eq_some_iff.mp hns
    obtain ⟨es, hes, hk⟩ := child?_eq_some_iff.mp hk
    rcases hi with hi | hi
    · have hd : h.isDirectory i = true := by simp [isDirectory, hes]
      rw [hi] at hd
      cases hd
    · rw [hi] at hes
      cases hes
      simp at hk

theorem HasPlace.not_below {dir' : Place} (hplace : h.HasPlace dir')
    (hd' : h.isDirectory dir'.ino = true) (hi : h.descend 0 ns = some i)
    (hpass : h.isDirectory i = true → dir'.passes i = false) : ¬ ns <+: dir'.names := by
  intro hp
  by_cases hdir : h.isDirectory i = true
  · have hpasses : dir'.passes i = true := hplace.passes_of_prefix hp hi
    rw [hpass hdir] at hpasses
    cases hpasses
  · -- What is no directory has nothing below it, not even itself as the new directory.
    obtain ⟨rest, hrest⟩ := hp
    have hdir' : h.descend i rest = some dir'.ino := by
      rw [← descend_append_of_eq hi, hrest]
      exact hplace.descend
    obtain rfl : rest = [] := eq_nil_of_descend (.inl (by simpa using hdir)) hdir'
    cases hdir'
    exact hdir hd'

/-- **Taking the name of a node away** that has nothing below it. -/
theorem IsTree.unbind_removes (ht : h.IsTree) (hq : h.descend 0 q = some d)
    (he : h.child? d name = some i) (hi : h.isDirectory i = false ∨ h.entries? i = some ∅) :
    Removes h (h.unbind d name) (q ++ [name]) where
  isDirectory _ := isDirectory_unbind
  descend ns j hne hns := by
    have hapart : ¬ q ++ [name] <+: ns := by
      rintro ⟨rest, rfl⟩
      have hqi : h.descend 0 (q ++ [name]) = some i := descend_concat_eq_some_iff.mpr ⟨d, hq, he⟩
      rw [descend_append_of_eq hqi] at hns
      have hrest : rest = [] := eq_nil_of_descend hi hns
      exact hne (by rw [hrest, List.append_nil])
    rw [ht.descend_eq sameBut_unbind (isDirectory_of_child? he) hq hapart, hns]

theorem child?_of_unbind {e : Ino} {n : Name} (he : (h.unbind d name).child? e n = some i) :
    h.child? e n = some i := by
  rw [child?_unbind] at he
  split_ifs at he
  exact he

theorem descend_of_unbind (hns : (h.unbind d name).descend i ns = some j) :
    h.descend i ns = some j := by
  induction ns generalizing i with
  | nil => exact hns
  | cons n ns ih =>
    obtain ⟨k, hk, hns⟩ := Option.bind_eq_some_iff.mp hns
    exact Option.bind_eq_some_iff.mpr ⟨k, child?_of_unbind hk, ih hns⟩

/-- **Moving an entry** into a directory that is not below it. -/
theorem IsTree.move_moves (ht : h.IsTree) (hq : h.descend 0 q = some d)
    (he : h.child? d name = some i) (hq' : h.descend 0 q' = some d')
    (hd' : h.isDirectory d' = true) (hout : ¬ q ++ [name] <+: q') :
    Moves h ((h.unbind d name).bind d' name' i) (q ++ [name]) (q' ++ [name']) i := by
  set h₁ := h.unbind d name with hh₁
  have hd : h.isDirectory d = true := isDirectory_of_child? he
  have hd₁ : h₁.isDirectory d' = true := by rw [hh₁, isDirectory_unbind, hd']
  have hqi : h.descend 0 (q ++ [name]) = some i := descend_concat_eq_some_iff.mpr ⟨d, hq, he⟩
  have unbound : ∀ ns, ¬ q ++ [name] <+: ns → h₁.descend 0 ns = h.descend 0 ns := fun ns hns =>
    ht.descend_eq sameBut_unbind hd hq hns
  have hq₁ : h₁.descend 0 q' = some d' := (unbound q' hout).trans hq'
  have bound : ∀ ns, ¬ q' ++ [name'] <+: ns →
      (h₁.bind d' name' i).descend 0 ns = h₁.descend 0 ns := fun ns hns =>
    ht.unbind.descend_eq sameBut_bind hd₁ hq₁ hns
  have hnew : (h₁.bind d' name' i).descend 0 (q' ++ [name']) = some i := by
    refine descend_concat_eq_some_iff.mpr ⟨d', ?_, ?_⟩
    · have hlonger : ¬ q' ++ [name'] <+: q' := by
        intro hp
        have := hp.length_le
        simp only [List.length_append, List.length_singleton] at this
        omega
      rw [bound q' hlonger, hq₁]
    · rw [child?_bind, if_pos ⟨rfl, rfl, hd₁⟩]
  refine ⟨fun j => ?_, fun rest => ?_, fun ns hold hnew => (bound ns hnew).trans (unbound ns hold)⟩
  · rw [isDirectory_bind, hh₁, isDirectory_unbind]
  · rw [descend_append_of_eq hnew]
    -- Below the node neither the entry that is gone nor the new one is passed.
    have hgone : ∀ front, h.descend i front ≠ some d := fun front =>
      ht.descend_ne_of_child? hq he
    have hback : ∀ front, h.descend i front ≠ some d' := by
      intro front hf
      have hlong : h.descend 0 (q ++ [name] ++ front) = some d' := by
        rw [descend_append_of_eq hqi, hf]
      exact hout (ht.descend_unique hd' hlong hq' ▸ List.prefix_append _ _)
    have h₂ : (h₁.bind d' name' i).descend i rest = h₁.descend i rest :=
      sameBut_bind.descend_eq fun front _ _ hf => hback front (descend_of_unbind hf)
    have h₃ : h₁.descend i rest = h.descend i rest :=
      sameBut_unbind.descend_eq fun front _ _ => hgone front
    exact h₂.trans h₃

theorem moves_refl (hq' : h.descend 0 q' = some i) : Moves h h q q' i where
  isDirectory _ := rfl
  under _ := descend_append_of_eq hq'
  apart _ _ _ := rfl

theorem Moves.keeps (hm : Moves h h' q q i) (hq : h.descend 0 q = some i) : Keeps h h' := by
  intro ns j hj
  refine ⟨j, ?_, hm.isDirectory j⟩
  by_cases hp : q <+: ns
  · obtain ⟨rest, rfl⟩ := hp
    rw [hm.under, ← descend_append_of_eq hq]
    exact hj
  · rw [hm.apart ns hp hp, hj]

/-! ## What stays, and what is nowhere -/

/-- Entries go on naming the nodes that they named, and these are directories or not as before. -/
structure Stays (h h' : Host) : Prop where
  size_le : h.nodes.size ≤ h'.nodes.size
  isDirectory : ∀ i, i < h.nodes.size → h'.isDirectory i = h.isDirectory i
  child? : ∀ d name i, h.child? d name = some i → h'.child? d name = some i
  workDir_eq : h'.workDir = h.workDir

theorem Stays.refl (h : Host) : Stays h h :=
  ⟨Nat.le_refl _, fun _ _ => rfl, fun _ _ _ he => he, rfl⟩

theorem Stays.trans (h₁ : Stays h h') (h₂ : Stays h' h'') : Stays h h'' where
  size_le := Nat.le_trans h₁.size_le h₂.size_le
  isDirectory i hi :=
    (h₂.isDirectory i (Nat.lt_of_lt_of_le hi h₁.size_le)).trans (h₁.isDirectory i hi)
  child? d name i he := h₂.child? d name i (h₁.child? d name i he)
  workDir_eq := h₂.workDir_eq.trans h₁.workDir_eq

theorem SameTree.stays (hs : SameTree h h') : Stays h h' where
  size_le := Nat.le_of_eq hs.size_eq.symm
  isDirectory i _ := hs.isDirectory i
  child? d name _ he := (hs.child? d name).trans he
  workDir_eq := hs.workDir_eq

theorem create_stays {b : Body} {mode : UInt32} {dir : Place} (hb : b.Bare)
    (hl : h.lookup dir name = .ok none) : Stays h (h.create dir.ino name b mode).2 where
  size_le := by simp
  isDirectory i hi := isDirectory_create_of_ne (Nat.ne_of_lt hi)
  child? d name' i he := by
    obtain ⟨hdir, -, hnone⟩ := lookup_eq_ok_iff.mp hl
    rw [child?_create hb hdir, if_neg]
    · exact he
    · rintro ⟨rfl, rfl⟩
      rw [hnone] at he
      cases he
  workDir_eq := workDir_create

theorem Stays.descend (hs : Stays h h') (hns : h.descend i ns = some j) :
    h'.descend i ns = some j := by
  induction ns generalizing i with
  | nil => exact hns
  | cons name ns ih =>
    obtain ⟨k, hk, hrest⟩ := Option.bind_eq_some_iff.mp hns
    rw [descend_cons, hs.child? i name k hk]
    exact ih hrest

theorem descend_ne_of_not_named (h0 : i ≠ 0) (hi : ∀ e n, h.child? e n ≠ some i) :
    h.descend 0 ns ≠ some i := by
  intro hns
  obtain rfl | ⟨front, name, rfl⟩ := List.eq_nil_or_concat' ns
  · exact h0 (Option.some.inj hns).symm
  · obtain ⟨d, -, hd⟩ := descend_concat_eq_some_iff.mp hns
    exact hi d name hd

theorem IsTree.unbind_not_named (ht : h.IsTree) (hi : h.isDirectory i = true)
    (he : h.child? d name = some i) (e : Ino) (n : Name) :
    (h.unbind d name).child? e n ≠ some i := by
  intro hen
  have hold := child?_of_unbind hen
  rw [child?_unbind, if_pos (ht.entry_unique hi hold he)] at hen
  cases hen

theorem IsTree.move_not_named (ht : h.IsTree) (hj : h.isDirectory j = true)
    (he : h.child? d' name' = some j) (hij : i ≠ j) (e : Ino) (n : Name) :
    ((h.unbind d name).bind d' name' i).child? e n ≠ some j := by
  intro hen
  have hd' : (h.unbind d name).isDirectory d' = true :=
    isDirectory_unbind.trans (isDirectory_of_child? he)
  rw [child?_bind] at hen
  split_ifs at hen with hnew
  · exact hij (Option.some.inj hen)
  · obtain ⟨rfl, rfl⟩ := ht.entry_unique hj (child?_of_unbind hen) he
    exact hnew ⟨rfl, rfl, hd'⟩

end Host

end GuestShare
