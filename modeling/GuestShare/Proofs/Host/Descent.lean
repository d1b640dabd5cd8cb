import GuestShare.Proofs.Host.Nodes
import Mathlib.Data.List.Induction
import Mathlib.Data.List.Basic

/-!
# Going down

Names lead from a node to another one as long as every node on the way has an entry for the next
name. In a tree every directory has one name, so only one list of names leads to it from the root.

* `Host.descend`: where names lead, no link followed.
* `Host.IsTree`: directories have one name, and the root has none. Whether a host is a tree can be
  decided from its `Host.edges`.
* **`IsTree.descend_unique`**: only one list of names leads to a directory.
* **`IsTree.descend_eq`**: a change of one entry matters to the names that pass it only.
* **`IsTree.create`**, **`IsTree.unbind`**, **`IsTree.bind`**: what keeps a tree a tree.
-/

namespace GuestShare

namespace Host

/-- The node that names lead to from a node, no link followed. -/
def descend (h : Host) : Ino → List Name → Option Ino
  | i, [] => some i
  | i, name :: names => (h.child? i name).bind fun j => h.descend j names

variable {h h' : Host} {i j d : Ino} {name : Name} {ns ms q : List Name}

@[simp] theorem descend_nil : h.descend i [] = some i := rfl

theorem descend_cons :
    h.descend i (name :: ns) = (h.child? i name).bind fun j => h.descend j ns := rfl

theorem descend_singleton : h.descend i [name] = h.child? i name := by
  rw [descend_cons]
  exact Option.bind_fun_some _

theorem descend_append : h.descend i (ns ++ ms) = (h.descend i ns).bind (h.descend · ms) := by
  induction ns generalizing i with
  | nil => rfl
  | cons n ns ih =>
    rw [List.cons_append, descend_cons, descend_cons]
    cases h.child? i n with
    | none => rfl
    | some j => exact ih

theorem descend_concat : h.descend i (ns ++ [name]) = (h.descend i ns).bind (h.child? · name) := by
  rw [descend_append]
  congr 1
  funext j
  simp [descend_cons]

theorem descend_append_of_eq (hns : h.descend i ns = some j) :
    h.descend i (ns ++ ms) = h.descend j ms := by
  rw [descend_append, hns, Option.bind_some]

theorem descend_concat_eq_some_iff :
    h.descend i (ns ++ [name]) = some j ↔
      ∃ d, h.descend i ns = some d ∧ h.child? d name = some j := by
  rw [descend_concat, Option.bind_eq_some_iff]

theorem isDirectory_of_descend (hrest : h.descend d (name :: ms) = some j) :
    h.isDirectory d = true := by
  rw [descend_cons, Option.bind_eq_some_iff] at hrest
  obtain ⟨k, hk, -⟩ := hrest
  exact isDirectory_of_child? hk

theorem target?_of_prefix (hi : h.isDirectory i = true) (hns : h.descend 0 ns = some i)
    (hp : ms <+: ns) (hj : h.descend 0 ms = some j) : h.target? j = none := by
  obtain ⟨rest, rfl⟩ := hp
  rw [descend_append_of_eq hj] at hns
  cases rest with
  | nil =>
    cases hns
    exact target?_of_isDirectory hi
  | cons m rest => exact target?_of_isDirectory (isDirectory_of_descend hns)

theorem SameTree.descend (hs : SameTree h h') (i : Ino) (ns : List Name) :
    h'.descend i ns = h.descend i ns := by
  induction ns generalizing i with
  | nil => rfl
  | cons n ns ih =>
    rw [descend_cons, descend_cons, hs.child?]
    congr 1
    funext j
    exact ih j

/-- Two hosts that have the same entries but for one name in one directory. -/
def SameBut (d : Ino) (name : Name) (h h' : Host) : Prop :=
  ∀ e n, ¬(e = d ∧ n = name) → h'.child? e n = h.child? e n

theorem SameBut.descend_eq (hs : SameBut d name h h')
    (hns : ∀ front rest, ns = front ++ name :: rest → h.descend i front ≠ some d) :
    h'.descend i ns = h.descend i ns := by
  induction ns generalizing i with
  | nil => rfl
  | cons n ns ih =>
    have hne : ¬(i = d ∧ n = name) := by
      rintro ⟨rfl, rfl⟩
      exact hns [] ns rfl rfl
    rw [descend_cons, descend_cons, hs i n hne]
    cases hj : h.child? i n with
    | none => rfl
    | some j =>
      refine ih fun front rest he => ?_
      have := hns (n :: front) rest (by rw [he, List.cons_append])
      rwa [descend_cons, hj] at this

theorem sameBut_unbind : SameBut d name h (h.unbind d name) := by
  intro e n hne
  rw [child?_unbind, if_neg hne]

theorem sameBut_bind : SameBut d name h (h.bind d name i) := by
  intro e n hne
  rw [child?_bind, if_neg fun hc => hne ⟨hc.1, hc.2.1⟩]

/-! ## Trees -/

/-- Every directory but the root has one name at most, and the root has none. -/
structure IsTree (h : Host) : Prop where
  root : h.isDirectory 0 = true
  entry_fits : ∀ {d name i}, h.child? d name = some i → Fits name
  entry_lt : ∀ {d name i}, h.child? d name = some i → i < h.nodes.size
  entry_ne_root : ∀ {d name i}, h.child? d name = some i → i ≠ 0
  entry_unique : ∀ {d d' name name' i}, h.isDirectory i = true → h.child? d name = some i →
    h.child? d' name' = some i → d = d' ∧ name = name'

/-- Every entry of every directory, with the directory. -/
def edges (h : Host) : List (Ino × Name × Ino) :=
  (List.range h.nodes.size).flatMap fun d =>
    ((h.entries? d).getD ∅).toList.map fun (name, i) => (d, name, i)

theorem mem_edges_iff : (d, name, i) ∈ h.edges ↔ h.child? d name = some i := by
  simp only [edges, List.mem_flatMap, List.mem_range, List.mem_map, Prod.mk.injEq, Prod.exists,
    Std.ExtTreeMap.mem_toList_iff_getElem?_eq_some]
  constructor
  · rintro ⟨e, -, n, j, he, rfl, rfl, rfl⟩
    cases hes : h.entries? e with
    | none => simp [hes] at he
    | some es => simpa [child?, hes] using he
  · intro he
    refine ⟨d, lt_size_of_isDirectory (isDirectory_of_child? he), name, i, ?_, rfl, rfl, rfl⟩
    obtain ⟨es, hes, he⟩ := child?_eq_some_iff.mp he
    simpa [hes] using he

theorem isTree_iff : h.IsTree ↔
    h.isDirectory 0 = true ∧ ∀ e ∈ h.edges, Fits e.2.1 ∧ e.2.2 < h.nodes.size ∧ e.2.2 ≠ 0 ∧
      (h.isDirectory e.2.2 = true → ∀ e' ∈ h.edges, e'.2.2 = e.2.2 → e = e') := by
  constructor
  · intro ht
    refine ⟨ht.root, fun ⟨d, name, i⟩ he => ?_⟩
    have hentry := mem_edges_iff.mp he
    refine ⟨ht.entry_fits hentry, ht.entry_lt hentry, ht.entry_ne_root hentry, ?_⟩
    rintro hi ⟨d', name', j⟩ he' rfl
    obtain ⟨rfl, rfl⟩ := ht.entry_unique hi hentry (mem_edges_iff.mp he')
    rfl
  · rintro ⟨hroot, hall⟩
    exact
      { root := hroot
        entry_fits := fun he => (hall _ (mem_edges_iff.mpr he)).1
        entry_lt := fun he => (hall _ (mem_edges_iff.mpr he)).2.1
        entry_ne_root := fun he => (hall _ (mem_edges_iff.mpr he)).2.2.1
        entry_unique := fun hi he he' => by
          have hsame := (hall _ (mem_edges_iff.mpr he)).2.2.2 hi _ (mem_edges_iff.mpr he') rfl
          simpa using hsame }

instance (h : Host) : Decidable h.IsTree := decidable_of_iff _ isTree_iff.symm

namespace IsTree

/-- **Only one list of names leads to a directory.** -/
theorem descend_unique (ht : h.IsTree) (hi : h.isDirectory i = true)
    (hns : h.descend 0 ns = some i) (hms : h.descend 0 ms = some i) : ns = ms := by
  induction ns using List.reverseRecOn generalizing ms i with
  | nil =>
    cases hns
    rcases List.eq_nil_or_concat' ms with rfl | ⟨ms, m, rfl⟩
    · rfl
    · obtain ⟨d, -, he⟩ := descend_concat_eq_some_iff.mp hms
      exact absurd rfl (ht.entry_ne_root he)
  | append_singleton ns n ih =>
    obtain ⟨d, hd, he⟩ := descend_concat_eq_some_iff.mp hns
    rcases List.eq_nil_or_concat' ms with rfl | ⟨ms, m, rfl⟩
    · cases hms
      exact absurd rfl (ht.entry_ne_root he)
    · obtain ⟨d', hd', he'⟩ := descend_concat_eq_some_iff.mp hms
      obtain ⟨rfl, rfl⟩ := ht.entry_unique hi he he'
      rw [ih (isDirectory_of_child? he) hd hd']

/-- **A change of one entry matters to the names that pass it only.** -/
theorem descend_eq (ht : h.IsTree) (hs : SameBut d name h h') (hd : h.isDirectory d = true)
    (hq : h.descend 0 q = some d) (hns : ¬ q ++ [name] <+: ns) :
    h'.descend 0 ns = h.descend 0 ns := by
  refine hs.descend_eq fun front rest he hf => hns ?_
  obtain rfl := ht.descend_unique hd hf hq
  exact ⟨rest, by rw [he, List.append_assoc, List.singleton_append]⟩

theorem descend_ne_of_child? (ht : h.IsTree) (hq : h.descend 0 q = some d)
    (he : h.child? d name = some i) : h.descend i ns ≠ some d := by
  intro hns
  have hi : h.descend 0 (q ++ [name]) = some i := descend_concat_eq_some_iff.mpr ⟨d, hq, he⟩
  have hd : h.descend 0 (q ++ [name] ++ ns) = some d := by
    rw [descend_append_of_eq hi, hns]
  have := congrArg List.length (ht.descend_unique (isDirectory_of_child? he) hq hd)
  simp at this

theorem descend_fits (ht : h.IsTree) (hns : h.descend i ns = some j) : ∀ n ∈ ns, Fits n := by
  induction ns generalizing i with
  | nil => exact fun _ hn => absurd hn List.not_mem_nil
  | cons n ns ih =>
    obtain ⟨k, hk, hns⟩ := Option.bind_eq_some_iff.mp hns
    intro m hm
    rcases List.mem_cons.mp hm with rfl | hm
    · exact ht.entry_fits hk
    · exact ih hns m hm

/-! ### What keeps a tree a tree -/

theorem sameTree (ht : h.IsTree) (hs : SameTree h h') : h'.IsTree where
  root := by
    rw [hs.isDirectory]
    exact ht.root
  entry_fits he := by
    rw [hs.child?] at he
    exact ht.entry_fits he
  entry_lt he := by
    rw [hs.child?] at he
    rw [hs.size_eq]
    exact ht.entry_lt he
  entry_ne_root he := by
    rw [hs.child?] at he
    exact ht.entry_ne_root he
  entry_unique hi he he' := by
    rw [hs.isDirectory] at hi
    rw [hs.child?] at he he'
    exact ht.entry_unique hi he he'

theorem modifyEntries_id (ht : h.IsTree) : (h.modifyEntries d id).IsTree := by
  have hes : ∀ j, (h.modifyEntries d id).entries? j = h.entries? j := by
    intro j
    rw [entries?_modifyEntries]
    split_ifs with hj
    · rw [hj, Option.map_id, id]
    · rfl
  have he : ∀ e n, (h.modifyEntries d id).child? e n = h.child? e n := by
    intro e n
    rw [child?, hes, child?]
  constructor
  · rw [isDirectory_modifyEntries]
    exact ht.root
  · intro e n i hei
    rw [he] at hei
    exact ht.entry_fits hei
  · intro e n i hei
    rw [he] at hei
    rw [size_modifyEntries]
    exact ht.entry_lt hei
  · intro e n i hei
    rw [he] at hei
    exact ht.entry_ne_root hei
  · intro e e' n n' i hi hei hei'
    rw [isDirectory_modifyEntries] at hi
    rw [he] at hei hei'
    exact ht.entry_unique hi hei hei'

/-- **Taking a name away keeps a tree.** -/
theorem unbind (ht : h.IsTree) : (h.unbind d name).IsTree := by
  have sub : ∀ {e n i}, (h.unbind d name).child? e n = some i → h.child? e n = some i := by
    intro e n i he
    rw [child?_unbind] at he
    split_ifs at he
    exact he
  constructor
  · rw [isDirectory_unbind]
    exact ht.root
  · intro e n i he
    exact ht.entry_fits (sub he)
  · intro e n i he
    rw [size_unbind]
    exact ht.entry_lt (sub he)
  · intro e n i he
    exact ht.entry_ne_root (sub he)
  · intro e e' n n' i hi he he'
    rw [isDirectory_unbind] at hi
    exact ht.entry_unique hi (sub he) (sub he')

/-- **Giving a name to a node keeps a tree**, if a directory gets no second one. -/
theorem bind (ht : h.IsTree) (hn : Fits name) (hi : i < h.nodes.size) (h0 : i ≠ 0)
    (hfree : h.isDirectory i = true → ∀ e n, h.child? e n = some i → e = d ∧ n = name) :
    (h.bind d name i).IsTree := by
  have cases_entry : ∀ {e n j}, (h.bind d name i).child? e n = some j →
      (e = d ∧ n = name ∧ j = i) ∨ (h.child? e n = some j) := by
    intro e n j he
    rw [child?_bind] at he
    split_ifs at he with hc
    · exact .inl ⟨hc.1, hc.2.1, (Option.some.inj he).symm⟩
    · exact .inr he
  constructor
  · rw [isDirectory_bind]
    exact ht.root
  · intro e n j he
    obtain ⟨-, rfl, -⟩ | he := cases_entry he
    · exact hn
    · exact ht.entry_fits he
  · intro e n j he
    rw [size_bind]
    obtain ⟨-, -, rfl⟩ | he := cases_entry he
    · exact hi
    · exact ht.entry_lt he
  · intro e n j he
    obtain ⟨-, -, rfl⟩ | he := cases_entry he
    · exact h0
    · exact ht.entry_ne_root he
  · intro e e' n n' j hj he he'
    rw [isDirectory_bind] at hj
    rcases cases_entry he with ⟨rfl, rfl, rfl⟩ | hold <;>
      rcases cases_entry he' with ⟨rfl, rfl, heq⟩ | hold'
    · exact ⟨rfl, rfl⟩
    · obtain ⟨rfl, rfl⟩ := hfree hj _ _ hold'
      exact ⟨rfl, rfl⟩
    · subst heq
      exact hfree hj _ _ hold
    · exact ht.entry_unique hj hold hold'

theorem child?_ne_size (ht : h.IsTree) : h.child? d name ≠ some h.nodes.size := fun he =>
  Nat.lt_irrefl _ (ht.entry_lt he)

theorem alloc (ht : h.IsTree) {b : Body} {mode : UInt32} (hb : b.Bare) :
    (h.alloc b mode).2.IsTree := by
  have hsize : (h.alloc b mode).2.nodes.size = h.nodes.size + 1 := by simp [Host.alloc]
  constructor
  · rw [isDirectory_alloc_of_ne (Nat.ne_of_lt (lt_size_of_isDirectory ht.root))]
    exact ht.root
  · intro e n i he
    rw [child?_alloc hb] at he
    exact ht.entry_fits he
  · intro e n i he
    rw [child?_alloc hb] at he
    rw [hsize]
    exact Nat.lt_succ_of_lt (ht.entry_lt he)
  · intro e n i he
    rw [child?_alloc hb] at he
    exact ht.entry_ne_root he
  · intro e e' n n' i hi he he'
    rw [child?_alloc hb] at he he'
    rw [isDirectory_alloc_of_ne (Nat.ne_of_lt (ht.entry_lt he))] at hi
    exact ht.entry_unique hi he he'

/-- **A new node keeps a tree.** -/
theorem create (ht : h.IsTree) {b : Body} {mode : UInt32} (hn : Fits name) (hb : b.Bare) :
    (h.create d name b mode).2.IsTree := by
  rw [create_snd]
  refine (ht.alloc hb).bind hn ?_ ?_ ?_
  · simp [Host.alloc]
  · exact Nat.ne_of_gt (Nat.zero_lt_of_lt (lt_size_of_isDirectory ht.root))
  · intro _ e n he
    rw [child?_alloc hb] at he
    exact absurd he ht.child?_ne_size

/-- **Moving an entry keeps a tree.** -/
theorem move (ht : h.IsTree) {d₂ : Ino} {name₂ : Name} (hn : Fits name₂)
    (he : h.child? d name = some i) : ((h.unbind d name).bind d₂ name₂ i).IsTree := by
  refine ht.unbind.bind hn ?_ (ht.entry_ne_root he) ?_
  · rw [size_unbind]
    exact ht.entry_lt he
  · intro hi e n he'
    rw [isDirectory_unbind] at hi
    rw [child?_unbind] at he'
    split_ifs at he' with hc
    exact absurd (ht.entry_unique hi he' he) hc

end IsTree

end Host

end GuestShare
