import GuestShare.Host.Tree
import GuestShare.Proofs.Outcome
import Mathlib.Tactic.Common

/-!
# Nodes after a change

What the changes to single nodes leave of the names, the directories and the links of a host.

* `Host.child?`: the node that a directory has under a name.
* `Body.Bare`: what a new node may be, anything but a link or a directory that has entries.
* `Body.Alike`: a new body that changes neither names nor links.
* **`child?_bind`**, **`child?_unbind`**, **`child?_create`**: one entry changes, the others stay.
-/

namespace GuestShare

/-! ## Bodies -/

namespace Body

/-- A node that names nothing and leads nowhere. -/
def Bare : Body → Prop
  | directory es => es = ∅
  | link _ => False
  | _ => True

/-- Two bodies that tell the same of names and links: they differ in the bytes of a file at most. -/
def Alike (b b' : Body) : Prop := b = b' ∨ (b.isFile = true ∧ b'.isFile = true)

theorem Alike.refl (b : Body) : b.Alike b := .inl rfl

theorem Alike.trans {a b c : Body} (hab : a.Alike b) (hbc : b.Alike c) : a.Alike c := by
  obtain rfl | ⟨ha, hb⟩ := hab
  · exact hbc
  · obtain rfl | ⟨-, hc⟩ := hbc
    · exact .inr ⟨ha, hb⟩
    · exact .inr ⟨ha, hc⟩

theorem bare_file (c : Contents) : (file c).Bare := trivial

theorem bare_directory : (directory ∅).Bare := rfl

end Body

namespace Host

/-- Names that the host can look up. -/
def Fits (name : Name) : Prop := name.contains Name.nul = false ∧ name.length ≤ Name.maxLength

instance (name : Name) : Decidable (Fits name) := inferInstanceAs (Decidable (_ ∧ _))

/-- The node that a directory has under a name. -/
def child? (h : Host) (d : Ino) (name : Name) : Option Ino := (h.entries? d).bind (·[name]?)

variable {h : Host} {i j d : Ino} {name : Name}

theorem body?_of_node? {n : Inode} (hn : h.node? i = some n) : h.body? i = some n.body := by
  simp [body?, hn]

theorem entries?_eq_some_iff {es : Entries} :
    h.entries? i = some es ↔ h.body? i = some (.directory es) := by
  unfold entries?
  split <;> simp_all

theorem target?_eq_some_iff {t : Bytes} : h.target? i = some t ↔ h.body? i = some (.link t) := by
  unfold target?
  split <;> simp_all

theorem isDirectory_iff : h.isDirectory i = true ↔ ∃ es, h.body? i = some (.directory es) := by
  simp only [isDirectory, Option.isSome_iff_exists, entries?_eq_some_iff]

theorem child?_eq_some_iff :
    h.child? d name = some i ↔ ∃ es, h.entries? d = some es ∧ es[name]? = some i := by
  simp only [child?, Option.bind_eq_some_iff]

theorem isDirectory_of_child? (he : h.child? d name = some i) : h.isDirectory d = true := by
  obtain ⟨es, hes, -⟩ := child?_eq_some_iff.mp he
  simp [isDirectory, hes]

theorem target?_of_isDirectory (hd : h.isDirectory i = true) : h.target? i = none := by
  obtain ⟨es, hes⟩ := isDirectory_iff.mp hd
  simp [target?, hes]

theorem node?_isSome_iff : (h.node? i).isSome = true ↔ i < h.nodes.size := by
  simp [node?]

theorem lt_size_of_node? {n : Inode} (hn : h.node? i = some n) : i < h.nodes.size :=
  node?_isSome_iff.mp (by rw [hn]; rfl)

theorem lt_size_of_body? {b : Body} (hb : h.body? i = some b) : i < h.nodes.size := by
  obtain ⟨n, hn, -⟩ := Option.map_eq_some_iff.mp hb
  exact lt_size_of_node? hn

theorem lt_size_of_isDirectory (hd : h.isDirectory i = true) : i < h.nodes.size := by
  obtain ⟨es, hes⟩ := isDirectory_iff.mp hd
  exact lt_size_of_body? hes

theorem child?_of_not_isDirectory (hd : h.isDirectory d = false) : h.child? d name = none := by
  have : h.entries? d = none := by simpa [isDirectory] using hd
  simp [child?, this]

theorem lookup_eq_ok_iff {p : Place} {o : Option Ino} :
    h.lookup p name = .ok o ↔
      h.isDirectory p.ino = true ∧ name.length ≤ Name.maxLength ∧ h.child? p.ino name = o := by
  unfold lookup entriesAt child? isDirectory
  cases h.entries? p.ino with
  | none => simp
  | some es =>
    by_cases hn : Name.maxLength < name.length
    · have hn' : ¬ name.length ≤ Name.maxLength := by omega
      simp [hn, hn']
    · have hn' : name.length ≤ Name.maxLength := by omega
      simp [hn, hn']

/-! ## One node -/

section Modify

variable {f : Inode → Inode}

theorem node?_modify : (h.modify i f).node? j = if i = j then (h.node? j).map f else h.node? j := by
  simp only [node?, modify, Array.getElem?_modify]

@[simp] theorem size_modify : (h.modify i f).nodes.size = h.nodes.size := by
  simp [modify]

@[simp] theorem clock_modify : (h.modify i f).clock = h.clock := rfl

@[simp] theorem workDir_modify : (h.modify i f).workDir = h.workDir := rfl

theorem node?_modify_ne (hij : j ≠ i) : (h.modify i f).node? j = h.node? j := by
  rw [node?_modify, if_neg (Ne.symm hij)]

theorem body?_modify (hf : ∀ n, h.node? i = some n → n.body.Alike (f n).body) (j : Ino) :
    Option.Rel Body.Alike (h.body? j) ((h.modify i f).body? j) := by
  unfold body?
  rw [node?_modify]
  cases hn : h.node? j with
  | none => split_ifs <;> exact .none
  | some n =>
    split_ifs with hij
    · subst hij
      exact .some (hf n hn)
    · exact .some (.refl _)

end Modify

/-- Two hosts whose nodes have the same names and links. -/
structure SameTree (h h' : Host) : Prop where
  size_eq : h'.nodes.size = h.nodes.size
  workDir_eq : h'.workDir = h.workDir
  alike : ∀ i, Option.Rel Body.Alike (h.body? i) (h'.body? i)

namespace SameTree

variable {h' h'' : Host}

theorem refl (h : Host) : SameTree h h where
  size_eq := rfl
  workDir_eq := rfl
  alike i := by
    cases h.body? i with
    | none => exact .none
    | some b => exact .some (.refl b)

theorem trans (h₁ : SameTree h h') (h₂ : SameTree h' h'') : SameTree h h'' where
  size_eq := h₂.size_eq.trans h₁.size_eq
  workDir_eq := h₂.workDir_eq.trans h₁.workDir_eq
  alike i := by
    have hab := h₁.alike i
    have hbc := h₂.alike i
    revert hab hbc
    generalize h.body? i = a, h'.body? i = b, h''.body? i = c
    intro hab hbc
    cases hab with
    | none => exact hbc
    | some hab =>
      cases hbc with
      | some hbc => exact .some (hab.trans hbc)

theorem modify {f : Inode → Inode} (hf : ∀ n, h.node? i = some n → n.body.Alike (f n).body) :
    SameTree h (h.modify i f) where
  size_eq := size_modify
  workDir_eq := rfl
  alike := body?_modify hf

theorem entries? (hs : SameTree h h') (i : Ino) : h'.entries? i = h.entries? i := by
  have := hs.alike i
  unfold Host.entries?
  revert this
  generalize h.body? i = a, h'.body? i = b
  intro hab
  cases hab with
  | none => rfl
  | @some a b hab =>
    obtain rfl | ⟨ha, hb⟩ := hab
    · rfl
    · cases a <;> cases b <;> simp_all [Body.isFile]

theorem target? (hs : SameTree h h') (i : Ino) : h'.target? i = h.target? i := by
  have := hs.alike i
  unfold Host.target?
  revert this
  generalize h.body? i = a, h'.body? i = b
  intro hab
  cases hab with
  | none => rfl
  | @some a b hab =>
    obtain rfl | ⟨ha, hb⟩ := hab
    · rfl
    · cases a <;> cases b <;> simp_all [Body.isFile]

theorem isDirectory (hs : SameTree h h') (i : Ino) : h'.isDirectory i = h.isDirectory i := by
  unfold Host.isDirectory
  rw [hs.entries?]

theorem child? (hs : SameTree h h') (d : Ino) (name : Name) :
    h'.child? d name = h.child? d name := by
  unfold Host.child?
  rw [hs.entries?]

end SameTree

/-! ## The entries of one directory -/

theorem body?_setBody {b : Body} (hi : i < h.nodes.size) :
    (h.setBody i b).body? j = if j = i then some b else h.body? j := by
  unfold body? setBody
  rw [node?_modify]
  by_cases hij : i = j
  · subst hij
    have : (h.node? i).isSome = true := node?_isSome_iff.mpr hi
    obtain ⟨n, hn⟩ := Option.isSome_iff_exists.mp this
    simp [hn]
  · rw [if_neg hij, if_neg (Ne.symm hij)]

section ModifyEntries

variable {g : Entries → Entries}

theorem node?_modifyEntries_ne (hj : j ≠ d) : (h.modifyEntries d g).node? j = h.node? j := by
  unfold modifyEntries
  split
  · exact node?_modify_ne hj
  · rfl

@[simp] theorem size_modifyEntries : (h.modifyEntries d g).nodes.size = h.nodes.size := by
  unfold modifyEntries
  split
  · exact size_modify
  · rfl

@[simp] theorem workDir_modifyEntries : (h.modifyEntries d g).workDir = h.workDir := by
  unfold modifyEntries
  split <;> rfl

@[simp] theorem clock_modifyEntries : (h.modifyEntries d g).clock = h.clock := by
  unfold modifyEntries
  split <;> rfl

theorem body?_modifyEntries_ne (hj : j ≠ d) : (h.modifyEntries d g).body? j = h.body? j := by
  unfold body?
  rw [node?_modifyEntries_ne hj]

theorem entries?_modifyEntries :
    (h.modifyEntries d g).entries? j = if j = d then (h.entries? d).map g else h.entries? j := by
  by_cases hj : j = d
  · subst hj
    rw [if_pos rfl]
    unfold modifyEntries
    cases hes : h.entries? j with
    | none => simpa using hes
    | some es =>
      have hlt : j < h.nodes.size := lt_size_of_isDirectory (by simp [isDirectory, hes])
      simp only [Option.map_some, entries?_eq_some_iff, body?_setBody hlt, if_pos]
  · unfold entries?
    rw [body?_modifyEntries_ne hj, if_neg hj]

theorem target?_modifyEntries : (h.modifyEntries d g).target? j = h.target? j := by
  by_cases hj : j = d
  · subst hj
    unfold modifyEntries
    cases hes : h.entries? j with
    | none => rfl
    | some es =>
      have hdir : h.isDirectory j = true := by simp [isDirectory, hes]
      rw [target?_of_isDirectory hdir]
      unfold target?
      rw [body?_setBody (lt_size_of_isDirectory hdir), if_pos rfl]
  · unfold target?
    rw [body?_modifyEntries_ne hj]

theorem isDirectory_modifyEntries : (h.modifyEntries d g).isDirectory j = h.isDirectory j := by
  unfold isDirectory
  rw [entries?_modifyEntries]
  split_ifs with hj
  · subst hj
    simp
  · rfl

end ModifyEntries

/-! ## Names given and taken -/

@[simp] theorem nodes_mark : (h.mark i).nodes = h.nodes := rfl

@[simp] theorem clock_mark : (h.mark i).clock = h.clock := rfl

@[simp] theorem workDir_mark : (h.mark i).workDir = h.workDir := rfl

@[simp] theorem nodes_markNamed : (h.markNamed d name).nodes = h.nodes := by
  unfold markNamed
  split <;> rfl

@[simp] theorem clock_markNamed : (h.markNamed d name).clock = h.clock := by
  unfold markNamed
  split <;> rfl

@[simp] theorem workDir_markNamed : (h.markNamed d name).workDir = h.workDir := by
  unfold markNamed
  split <;> rfl

theorem nodes_modifyEntries_congr {h' : Host} {g : Entries → Entries} (hn : h'.nodes = h.nodes)
    (hc : h'.clock = h.clock) : (h'.modifyEntries d g).nodes = (h.modifyEntries d g).nodes := by
  have hes : h'.entries? d = h.entries? d := by simp only [entries?, body?, node?, hn]
  unfold modifyEntries
  rw [hes]
  split
  · simp only [setBody, modify, hn, hc]
  · exact hn

theorem node?_congr {h' : Host} (hn : h'.nodes = h.nodes) : h'.node? j = h.node? j := by
  rw [node?, hn, node?]

theorem entries?_congr {h' : Host} (hn : h'.nodes = h.nodes) : h'.entries? j = h.entries? j := by
  simp only [entries?, body?, node?_congr hn]

theorem target?_congr {h' : Host} (hn : h'.nodes = h.nodes) : h'.target? j = h.target? j := by
  simp only [target?, body?, node?_congr hn]

section Bind

/-- Binding gives the directory the entry; the rest of it is a matter of when. -/
theorem nodes_bind :
    (h.bind d name i).nodes = (h.modifyEntries d (·.insert name i)).nodes :=
  nodes_modifyEntries_congr (by simp) (by simp)

@[simp] theorem size_bind : (h.bind d name i).nodes.size = h.nodes.size := by
  rw [nodes_bind, size_modifyEntries]

@[simp] theorem workDir_bind : (h.bind d name i).workDir = h.workDir := by simp [bind]

@[simp] theorem clock_bind : (h.bind d name i).clock = h.clock := by simp [bind]

theorem node?_bind : (h.bind d name i).node? j = (h.modifyEntries d (·.insert name i)).node? j :=
  node?_congr nodes_bind

theorem node?_bind_ne (hj : j ≠ d) : (h.bind d name i).node? j = h.node? j := by
  rw [node?_bind, node?_modifyEntries_ne hj]

theorem entries?_bind :
    (h.bind d name i).entries? j =
      if j = d then (h.entries? d).map (·.insert name i) else h.entries? j := by
  rw [entries?_congr nodes_bind, entries?_modifyEntries]

theorem target?_bind : (h.bind d name i).target? j = h.target? j := by
  rw [target?_congr nodes_bind, target?_modifyEntries]

theorem isDirectory_bind : (h.bind d name i).isDirectory j = h.isDirectory j := by
  rw [isDirectory, entries?_congr nodes_bind]
  exact isDirectory_modifyEntries

end Bind

section Unbind

theorem nodes_unbind : (h.unbind d name).nodes = (h.modifyEntries d (·.erase name)).nodes :=
  nodes_modifyEntries_congr (by simp) (by simp)

@[simp] theorem size_unbind : (h.unbind d name).nodes.size = h.nodes.size := by
  rw [nodes_unbind, size_modifyEntries]

@[simp] theorem workDir_unbind : (h.unbind d name).workDir = h.workDir := by simp [unbind]

@[simp] theorem clock_unbind : (h.unbind d name).clock = h.clock := by simp [unbind]

theorem node?_unbind : (h.unbind d name).node? j = (h.modifyEntries d (·.erase name)).node? j :=
  node?_congr nodes_unbind

theorem node?_unbind_ne (hj : j ≠ d) : (h.unbind d name).node? j = h.node? j := by
  rw [node?_unbind, node?_modifyEntries_ne hj]

theorem entries?_unbind :
    (h.unbind d name).entries? j =
      if j = d then (h.entries? d).map (·.erase name) else h.entries? j := by
  rw [entries?_congr nodes_unbind, entries?_modifyEntries]

theorem target?_unbind : (h.unbind d name).target? j = h.target? j := by
  rw [target?_congr nodes_unbind, target?_modifyEntries]

theorem isDirectory_unbind : (h.unbind d name).isDirectory j = h.isDirectory j := by
  rw [isDirectory, entries?_congr nodes_unbind]
  exact isDirectory_modifyEntries

end Unbind

/-- **Binding changes one entry.** -/
theorem child?_bind {e : Ino} {n : Name} :
    (h.bind d name i).child? e n =
      if e = d ∧ n = name ∧ h.isDirectory d = true then some i else h.child? e n := by
  unfold child?
  rw [entries?_bind]
  by_cases he : e = d
  · subst he
    cases hes : h.entries? e with
    | none => simp [isDirectory, hes]
    | some es =>
      simp only [if_pos, Option.map_some, Option.bind_some, true_and, isDirectory, hes,
        Option.isSome_some, and_true, Std.ExtTreeMap.getElem?_insert, Std.compare_eq_iff_eq]
      simp only [eq_comm (a := name)]
  · simp [he]

/-- **Unbinding takes one entry away.** -/
theorem child?_unbind {e : Ino} {n : Name} :
    (h.unbind d name).child? e n = if e = d ∧ n = name then none else h.child? e n := by
  unfold child?
  rw [entries?_unbind]
  by_cases he : e = d
  · subst he
    cases hes : h.entries? e with
    | none => simp
    | some es =>
      simp only [if_pos, Option.map_some, Option.bind_some, true_and,
        Std.ExtTreeMap.getElem?_erase, Std.compare_eq_iff_eq]
      simp only [eq_comm (a := name)]
  · simp [he]

/-! ## New nodes -/

section Create

variable {b : Body} {mode : UInt32}

theorem node?_alloc :
    (h.alloc b mode).2.node? j =
      if j = h.nodes.size then some ⟨b, mode, h.clock, h.clock⟩ else h.node? j := by
  simp only [node?, alloc, Array.getElem?_push]

theorem body?_alloc :
    (h.alloc b mode).2.body? j = if j = h.nodes.size then some b else h.body? j := by
  unfold body?
  rw [node?_alloc]
  split_ifs <;> rfl

theorem node?_size : h.node? h.nodes.size = none := by
  simp [node?]

theorem isDirectory_size : h.isDirectory h.nodes.size = false := by
  simp [isDirectory, entries?, body?, node?_size]

theorem target?_size : h.target? h.nodes.size = none := by
  simp [target?, body?, node?_size]

@[simp] theorem create_fst : (h.create d name b mode).1 = h.nodes.size := rfl

theorem create_snd : (h.create d name b mode).2 = (h.alloc b mode).2.bind d name h.nodes.size := rfl

@[simp] theorem size_create : (h.create d name b mode).2.nodes.size = h.nodes.size + 1 := by
  rw [create_snd, size_bind]
  simp [alloc]

@[simp] theorem workDir_create : (h.create d name b mode).2.workDir = h.workDir := by
  rw [create_snd, workDir_bind]
  rfl

@[simp] theorem clock_create : (h.create d name b mode).2.clock = h.clock := by
  rw [create_snd, clock_bind]
  rfl

theorem node?_create_ne (hd : j ≠ d) (hj : j ≠ h.nodes.size) :
    (h.create d name b mode).2.node? j = h.node? j := by
  rw [create_snd, node?_bind_ne hd, node?_alloc, if_neg hj]

theorem node?_create_size (hd : d ≠ h.nodes.size) :
    (h.create d name b mode).2.node? h.nodes.size = some ⟨b, mode, h.clock, h.clock⟩ := by
  rw [create_snd, node?_bind_ne (Ne.symm hd), node?_alloc, if_pos rfl]

theorem isDirectory_alloc_of_ne (hj : j ≠ h.nodes.size) :
    (h.alloc b mode).2.isDirectory j = h.isDirectory j := by
  unfold isDirectory entries?
  rw [body?_alloc, if_neg hj]

theorem isDirectory_create_of_ne (hj : j ≠ h.nodes.size) :
    (h.create d name b mode).2.isDirectory j = h.isDirectory j := by
  rw [create_snd, isDirectory_bind, isDirectory_alloc_of_ne hj]

theorem isDirectory_create_size :
    (h.create d name b mode).2.isDirectory h.nodes.size = b.isDirectory := by
  rw [create_snd, isDirectory_bind]
  unfold isDirectory entries?
  rw [body?_alloc, if_pos rfl]
  cases b <;> rfl

theorem isDirectory_create (hd : h.isDirectory j = true) :
    (h.create d name b mode).2.isDirectory j = true := by
  rw [isDirectory_create_of_ne (Nat.ne_of_lt (lt_size_of_isDirectory hd)), hd]

theorem target?_create (hb : b.Bare) : (h.create d name b mode).2.target? j = h.target? j := by
  rw [create_snd, target?_bind]
  by_cases hj : j = h.nodes.size
  · subst hj
    rw [target?_size]
    unfold target?
    rw [body?_alloc, if_pos rfl]
    cases b <;> simp_all [Body.Bare]
  · unfold target?
    rw [body?_alloc, if_neg hj]

theorem child?_alloc (hb : b.Bare) (e : Ino) (n : Name) :
    (h.alloc b mode).2.child? e n = h.child? e n := by
  by_cases he : e = h.nodes.size
  · subst he
    rw [child?_of_not_isDirectory isDirectory_size]
    unfold child? entries?
    rw [body?_alloc, if_pos rfl]
    cases b <;> simp_all [Body.Bare]
  · unfold child? entries?
    rw [body?_alloc, if_neg he]

/-- **Creating adds one entry**, or gives an entry another node. -/
theorem child?_create (hb : b.Bare) (hd : h.isDirectory d = true) {e : Ino} {n : Name} :
    (h.create d name b mode).2.child? e n =
      if e = d ∧ n = name then some h.nodes.size else h.child? e n := by
  have hd' : (h.alloc b mode).2.isDirectory d = true := by
    rw [isDirectory_alloc_of_ne (Nat.ne_of_lt (lt_size_of_isDirectory hd)), hd]
  rw [create_snd, child?_bind, child?_alloc hb]
  simp only [hd', and_true]

end Create

end Host

end GuestShare
