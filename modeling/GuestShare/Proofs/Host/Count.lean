import GuestShare.Proofs.Host.Relocation
import Mathlib.Data.Set.Card

/-!
# Link counts

A node has as many links as there are entries that name it; a directory has two, and one for each
directory in it. So the count of a node stays where its names stay, or one of them is exchanged for
another.

* `Host.namesOf`: the entries that name a node.
* **`nameCount_eq_ncard`**: their number is what is counted.
* `Host.SameBelow`: everything at and below a node is as it was, link counts included.
* **`IsTree.move_sameBelow`**: so it is for what is moved.
-/

namespace GuestShare

/-- The entries of a node, none if it is no directory. -/
def Body.entries : Body → Entries
  | directory es => es
  | _ => ∅

namespace Host

variable {h h' h'' : Host} {i j d : Ino} {name name' : Name} {ns q q' : List Name}

/-! ## Counting names -/

/-- The entries that name a node, each by its directory and its name. -/
def namesOf (h : Host) (i : Ino) : Set (Ino × Name) := {e | h.child? e.1 e.2 = some i}

theorem mem_namesOf_iff : (d, name) ∈ h.namesOf i ↔ h.child? d name = some i := Iff.rfl

theorem foldl_count {α : Type} (p : α → Prop) [DecidablePred p] (l : List α) (n : Nat) :
    l.foldl (fun n a => if p a then n + 1 else n) n = n + l.countP (fun a => decide (p a)) := by
  induction l generalizing n with
  | nil => rfl
  | cons a l ih =>
    rw [List.foldl_cons, ih, List.countP_cons]
    by_cases ha : p a
    · simp only [ha, if_true, decide_true]
      omega
    · simp only [ha, if_false, decide_false, Bool.false_eq_true, Nat.add_zero]

theorem foldl_add {α : Type} (f : α → Nat) (l : List α) (n : Nat) :
    l.foldl (fun n a => n + f a) n = n + (l.map f).sum := by
  induction l generalizing n with
  | nil => rfl
  | cons a l ih => rw [List.foldl_cons, ih, List.map_cons, List.sum_cons, Nat.add_assoc]

theorem count_eq_countP {es : Entries} :
    Entries.count es i = es.toList.countP fun e => decide (e.2 = i) := by
  rw [Entries.count, Std.ExtTreeMap.foldl_eq_foldl_toList,
    foldl_count (fun e : Name × Ino => e.2 = i), Nat.zero_add]

theorem nameCount_eq_countP : h.nameCount i = h.edges.countP fun e => decide (e.2.2 = i) := by
  have hcount : h.nameCount i =
      h.nodes.foldl (fun n node => n + (node.body.entries.toList.countP fun e => e.2 = i)) 0 := by
    unfold nameCount
    congr 1
    funext n node
    cases node.body with
    | directory es => exact congrArg (n + ·) count_eq_countP
    | _ => rfl
  have hnodes : (h.nodes.toList.map fun node => node.body.entries.toList.countP fun e => e.2 = i) =
      (List.range h.nodes.size).map fun d =>
        (((h.entries? d).getD ∅).toList.map fun e => (d, e.1, e.2)).countP fun e => e.2.2 = i := by
    refine List.ext_getElem (by simp) fun d hd hd' => ?_
    have hlt : d < h.nodes.size := by simpa using hd
    have hb : h.body? d = some h.nodes[d].body := by simp [body?, node?, hlt]
    simp only [List.getElem_map, List.getElem_range, Array.getElem_toList, List.countP_map]
    unfold entries?
    rw [hb]
    cases h.nodes[d].body <;> rfl
  rw [hcount, ← Array.foldl_toList, foldl_add, Nat.zero_add, hnodes, edges, List.countP_flatMap]
  rfl

theorem nodup_edges : h.edges.Nodup := by
  refine List.nodup_flatMap.mpr ⟨fun d _ => ?_, ?_⟩
  · have hkeys : (((h.entries? d).getD ∅).toList.map Prod.fst).Nodup := by
      rw [Std.ExtTreeMap.map_fst_toList_eq_keys]
      exact Std.ExtTreeMap.nodup_keys
    refine (List.Nodup.of_map _ hkeys).map fun a b hab => ?_
    exact Prod.ext (congrArg (·.2.1) hab) (congrArg (·.2.2) hab)
  · refine List.nodup_range.imp fun hne => ?_
    intro e he he'
    obtain ⟨a, -, rfl⟩ := List.mem_map.mp he
    obtain ⟨b, -, hab⟩ := List.mem_map.mp he'
    exact hne (congrArg Prod.fst hab).symm

/-- **A node has as many names as there are entries that name it.** -/
theorem nameCount_eq_ncard : h.nameCount i = (h.namesOf i).ncard := by
  set named := (h.edges.filter fun e => decide (e.2.2 = i)).map fun e => (e.1, e.2.1) with hnamed
  have hnodup : named.Nodup := by
    refine (nodup_edges.filter _).map_on fun a ha b hb hab => ?_
    have hai := (List.mem_filter.mp ha).2
    have hbi := (List.mem_filter.mp hb).2
    rw [decide_eq_true_eq] at hai hbi
    obtain ⟨hd, hn⟩ := Prod.mk.inj hab
    exact Prod.ext hd (Prod.ext hn (hai.trans hbi.symm))
  have hset : h.namesOf i = named.toFinset := by
    ext ⟨d, name⟩
    simp [hnamed, mem_namesOf_iff, ← mem_edges_iff]
  rw [hset, Set.ncard_coe_finset, List.toFinset_card_of_nodup hnodup, hnamed, List.length_map,
    ← List.countP_eq_length_filter, nameCount_eq_countP]

/-- A directory has two links, and one for each directory in it. -/
theorem linkCount_of_entries? {es : Entries} (he : h.entries? i = some es) :
    h.linkCount i = 2 + es.toList.countP fun e => h.isDirectory e.2 := by
  unfold linkCount
  rw [he]
  simp only [Std.ExtTreeMap.foldl_eq_foldl_toList]
  rw [foldl_count (fun e : Name × Ino => h.isDirectory e.2 = true), Nat.zero_add]
  simp only [Bool.decide_eq_true]

/-- The link count of a node depends on what is in it and, for all but directories, on its names. -/
theorem linkCount_eq (hn : h'.node? i = h.node? i)
    (hdir : ∀ name j, h.child? i name = some j → h'.isDirectory j = h.isDirectory j)
    (hnames : h.isDirectory i = false → (h'.namesOf i).ncard = (h.namesOf i).ncard) :
    h'.linkCount i = h.linkCount i := by
  have he : h'.entries? i = h.entries? i := by
    unfold entries? body?
    rw [hn]
  cases hes : h.entries? i with
  | none =>
    have hno : h.isDirectory i = false := by simp [isDirectory, hes]
    unfold linkCount
    rw [he, hes]
    exact nameCount_eq_ncard.trans ((hnames hno).trans nameCount_eq_ncard.symm)
  | some es =>
    rw [linkCount_of_entries? hes, linkCount_of_entries? (he.trans hes)]
    congr 1
    refine List.countP_congr fun e hmem => ?_
    have hchild : h.child? i e.1 = some e.2 :=
      child?_eq_some_iff.mpr ⟨es, hes, Std.ExtTreeMap.mem_toList_iff_getElem?_eq_some.mp hmem⟩
    rw [hdir e.1 e.2 hchild]

/-! ## What is below a node -/

/-- Everything at and below a node is as it was. -/
structure SameBelow (h h' : Host) (i : Ino) : Prop where
  node? : ∀ ns j, h.descend i ns = some j → h'.node? j = h.node? j
  linkCount : ∀ ns j, h.descend i ns = some j → h'.linkCount j = h.linkCount j

theorem isDirectory_congr (hn : h'.node? i = h.node? i) : h'.isDirectory i = h.isDirectory i := by
  unfold isDirectory entries? body?
  rw [hn]

theorem child?_congr (hn : h'.node? i = h.node? i) : h'.child? i name = h.child? i name := by
  unfold child? entries? body?
  rw [hn]

namespace SameBelow

theorem refl (h : Host) (i : Ino) : SameBelow h h i := ⟨fun _ _ _ => rfl, fun _ _ _ => rfl⟩

theorem descend (hs : SameBelow h h' i) (ns : List Name) : h'.descend i ns = h.descend i ns := by
  induction ns using List.reverseRecOn with
  | nil => rfl
  | append_singleton ns name ih =>
    rw [descend_concat, descend_concat, ih]
    cases hns : h.descend i ns with
    | none => rfl
    | some j => exact child?_congr (hs.node? ns j hns)

theorem below (hs : SameBelow h h' i) (hns : h.descend i ns = some j) : SameBelow h h' j where
  node? ms k hk := hs.node? (ns ++ ms) k ((descend_append_of_eq hns).trans hk)
  linkCount ms k hk := hs.linkCount (ns ++ ms) k ((descend_append_of_eq hns).trans hk)

theorem trans (h₁ : SameBelow h h' i) (h₂ : SameBelow h' h'' i) : SameBelow h h'' i where
  node? ns j hj := (h₂.node? ns j ((h₁.descend ns).trans hj)).trans (h₁.node? ns j hj)
  linkCount ns j hj :=
    (h₂.linkCount ns j ((h₁.descend ns).trans hj)).trans (h₁.linkCount ns j hj)

end SameBelow

theorem sameBelow_of_node? (hn : ∀ ns j, h.descend i ns = some j → h'.node? j = h.node? j)
    (hnames : ∀ ns j, h.descend i ns = some j → h.isDirectory j = false →
      (h'.namesOf j).ncard = (h.namesOf j).ncard) : SameBelow h h' i where
  node? := hn
  linkCount ns j hj := linkCount_eq (hn ns j hj)
    (fun name _ hk => isDirectory_congr
      (hn (ns ++ [name]) _ (descend_concat_eq_some_iff.mpr ⟨j, hj, hk⟩)))
    (hnames ns j hj)

/-- **Moving an entry leaves everything at and below its node as it was.** -/
theorem IsTree.move_sameBelow {dir' : Place} (ht : h.IsTree) (hq : h.descend 0 q = some d)
    (he : h.child? d name = some i) (hq' : h.descend 0 q' = some dir'.ino)
    (hfree : h.FreeFor i dir' name') (hout : ¬ q ++ [name] <+: q') :
    SameBelow h ((h.unbind d name).bind dir'.ino name' i) i := by
  have hd' : h.isDirectory dir'.ino = true := hfree.isDirectory.1
  have hunbound : (h.unbind d name).isDirectory dir'.ino = true :=
    isDirectory_unbind.trans hd'
  have child?_moved : ∀ e n, ((h.unbind d name).bind dir'.ino name' i).child? e n =
      if e = dir'.ino ∧ n = name' then some i
      else if e = d ∧ n = name then none else h.child? e n := fun e n => by
    rw [child?_bind, child?_unbind]
    simp only [hunbound, and_true]
  refine sameBelow_of_node? (fun ns k hk => ?_) fun ns k hk hno => ?_
  · have hkd : k ≠ d := fun hkd => ht.descend_ne_of_child? hq he (hkd ▸ hk)
    have hkd' : k ≠ dir'.ino := by
      rintro rfl
      have hlong : h.descend 0 (q ++ [name] ++ ns) = some dir'.ino := by
        rw [descend_append_of_eq (descend_concat_eq_some_iff.mpr ⟨d, hq, he⟩), hk]
      exact hout (ht.descend_unique hd' hlong hq' ▸ List.prefix_append _ _)
    exact (node?_bind_ne hkd').trans (node?_unbind_ne hkd)
  · by_cases hki : k = i
    · -- One name of the node is exchanged for another.
      subst hki
      have hnames : ((h.unbind d name).bind dir'.ino name' k).namesOf k =
          insert (dir'.ino, name') (h.namesOf k \ {(d, name)}) := by
        ext ⟨e, n⟩
        simp only [mem_namesOf_iff, child?_moved, Set.mem_insert_iff, Set.mem_sdiff,
          Set.mem_singleton_iff, Prod.mk.injEq]
        by_cases hnew : e = dir'.ino ∧ n = name'
        · simp [hnew]
        · by_cases hold : e = d ∧ n = name <;> simp only [hnew, hold] <;> simp
      have hnot : (dir'.ino, name') ∉ h.namesOf k := by
        rw [mem_namesOf_iff]
        obtain hlook | ⟨j, hlook, hjk, -⟩ := hfree
        · rw [(lookup_eq_ok_iff.mp hlook).2.2]
          simp
        · rw [(lookup_eq_ok_iff.mp hlook).2.2]
          exact fun hjk' => hjk (Option.some.inj hjk')
      rw [hnames]
      exact Set.ncard_exchange hnot he
    · -- What is below the node keeps its names: it is no directory, so it is not replaced.
      congr 1
      ext ⟨e, n⟩
      rw [mem_namesOf_iff, mem_namesOf_iff, child?_moved]
      split_ifs with hnew hold
      · obtain ⟨rfl, rfl⟩ := hnew
        refine iff_of_false (fun h => hki (Option.some.inj h).symm) fun hck => ?_
        obtain hlook | ⟨j, hlook, -, ⟨-, hj⟩ | ⟨hi, -⟩⟩ := hfree
        · rw [(lookup_eq_ok_iff.mp hlook).2.2] at hck
          cases hck
        · rw [(lookup_eq_ok_iff.mp hlook).2.2] at hck
          cases hck
          simp [isDirectory, hj] at hno
        · obtain rfl := eq_nil_of_descend (.inl hi) hk
          exact hki (Option.some.inj hk).symm
      · obtain ⟨rfl, rfl⟩ := hold
        refine iff_of_false (fun h => by cases h) fun hck => ?_
        rw [he] at hck
        exact hki (Option.some.inj hck).symm
      · rfl

end Host

end GuestShare
