import GuestShare.Proofs.Host.Way

/-!
# What an operation does

Each operation on paths, if it succeeds, is one of a few changes: a new node under a free name, a
name taken away, an entry moved, or a file's bytes changed.

* `Host.EditsIn`: the bytes or the times of some nodes change, and nothing else.
* `openAt_eq_ok`, `openNode_eq_ok`: opening a file.
* **`makeDir_child_eq_ok`**, **`unlink_child_eq_ok`**, **`removeDir_child_eq_ok`**,
  **`rename_child_eq_ok`**: operations on an entry of the directory to which names lead.
* `replaceFile_eq_ok`, `replaceFile_eq_error`: putting a file in the place of another.
-/

namespace GuestShare

/-- What happens to a link at the end of the path of a file to open. -/
def OpenHow.whenLink (how : OpenHow) : AtEnd :=
  if how.creation = .mustBeNew then .keep else how.atEnd

namespace Host

variable {h h' h'' : Host} {place dir : Place} {name : Name} {i j : Ino} {ns ms : List Name}

/-! ## Edits -/

/-- The host differs in nodes of `I` at most, and not in names or links. -/
structure EditsIn (I : Ino → Prop) (h h' : Host) : Prop where
  sameTree : SameTree h h'
  node?_eq : ∀ j, ¬ I j → h'.node? j = h.node? j
  clock_eq : h'.clock = h.clock

namespace EditsIn

variable {I J : Ino → Prop}

theorem refl : EditsIn I h h := ⟨.refl h, fun _ _ => rfl, rfl⟩

theorem trans (h₁ : EditsIn I h h') (h₂ : EditsIn I h' h'') : EditsIn I h h'' where
  sameTree := h₁.sameTree.trans h₂.sameTree
  node?_eq j hj := (h₂.node?_eq j hj).trans (h₁.node?_eq j hj)
  clock_eq := h₂.clock_eq.trans h₁.clock_eq

theorem mono (he : EditsIn I h h') (hIJ : ∀ i, I i → J i) : EditsIn J h h' :=
  ⟨he.sameTree, fun j hj => he.node?_eq j fun hi => hj (hIJ j hi), he.clock_eq⟩

theorem modify {f : Inode → Inode} (hf : ∀ n, h.node? i = some n → n.body.Alike (f n).body) :
    EditsIn (· = i) h (h.modify i f) :=
  ⟨.modify hf, fun _ hj => node?_modify_ne hj, rfl⟩

theorem setFile {c c' : Contents} (hb : h.body? i = some (.file c)) :
    EditsIn (· = i) h (h.setBody i (.file c')) := by
  refine modify fun n hn => .inr ⟨?_, rfl⟩
  rw [body?_of_node? hn] at hb
  rw [Option.some.inj hb]
  rfl

end EditsIn

theorem write_editsIn {d : Descriptor} {offset : Nat} {bs : Bytes}
    (hw : d.write offset bs h = .ok h') : EditsIn (· = d.ino) h h' := by
  unfold Descriptor.write at hw
  split_ifs at hw with h₁ h₂ h₃
  · cases hw
    exact .refl
  · split at hw
    next c hc =>
      cases hw
      exact .setFile hc
    next => cases hw
    next => cases hw
  · split at hw
    next c hc =>
      cases hw
      exact .setFile hc
    next => cases hw
    next => cases hw

theorem setLength_editsIn {d : Descriptor} {length : Nat} (hw : d.setLength length h = .ok h') :
    EditsIn (· = d.ino) h h' := by
  unfold Descriptor.setLength at hw
  split_ifs at hw
  split at hw
  next c hc =>
    cases hw
    exact .setFile hc
  next => cases hw

theorem setTimes_editsIn {d : Descriptor} {accessed modified : Option Instant} :
    EditsIn (· = d.ino) h (d.setTimes accessed modified h) :=
  .modify fun n _ => .refl n.body

/-! ## Opening -/

section Open

variable {how : OpenHow} {d : Descriptor} {path : Path}

theorem openNode_eq_ok (ho : h.openNode i how = .ok (d, h')) :
    d = how.descriptor i ∧ EditsIn (· = i) h h' ∧ h.target? i = none ∧
      (how.changes = false ∨ h.isDirectory i = false) := by
  unfold openNode at ho
  cases hb : h.body? i with
  | none =>
    rw [hb] at ho
    cases ho
  | some b =>
    rw [hb] at ho
    cases b with
    | link t => cases ho
    | socket => cases ho
    | directory es =>
      simp only at ho
      split_ifs at ho with hc
      cases ho
      exact ⟨rfl, .refl, by simp [target?, hb], .inl (by simpa using hc)⟩
    | fifo =>
      cases ho
      exact ⟨rfl, .refl, by simp [target?, hb], .inr (by simp [isDirectory, entries?, hb])⟩
    | file c =>
      cases ho
      refine ⟨rfl, ?_, by simp [target?, hb], .inr (by simp [isDirectory, entries?, hb])⟩
      split_ifs
      · exact .setFile hb
      · exact .refl

theorem openNode_eq_self (ho : h.openNode i how = .ok (d, h')) (ht : how.truncate = false) :
    h' = h := by
  unfold openNode at ho
  cases hb : h.body? i with
  | none =>
    rw [hb] at ho
    cases ho
  | some b =>
    rw [hb] at ho
    cases b with
    | link t => cases ho
    | socket => cases ho
    | directory es =>
      simp only at ho
      split_ifs at ho
      cases ho
      rfl
    | fifo =>
      cases ho
      rfl
    | file c =>
      simp only [ht, Bool.false_eq_true, if_false] at ho
      cases ho
      rfl

theorem lt_size_of_openNode (ho : h.openNode i how = .ok (d, h')) : i < h.nodes.size := by
  unfold openNode body? at ho
  cases hn : h.node? i with
  | none =>
    rw [hn] at ho
    cases ho
  | some n => exact lt_size_of_node? hn

theorem openAt_eq_ok (ho : h.openAt path how = .ok (d, h')) :
    (∃ place, h.find how.whenLink path = .ok place ∧ how.creation ≠ .mustBeNew ∧
        h.openNode place.ino how = .ok (d, h')) ∨
      ∃ dir name, h.locate how.whenLink path = .ok (.vacant dir name) ∧ how.creation ≠ .never ∧
        d = how.descriptor h.nodes.size ∧
        h' = (h.create dir.ino name (.file .empty) fileMode).2 := by
  unfold openAt at ho
  by_cases hclosed : (how.creation ≠ .never && path.closed) = true
  · rw [if_pos hclosed] at ho
    cases ho
  · simp only [if_neg hclosed] at ho
    obtain ⟨spot, hspot, ho⟩ := Outcome.bind_eq_ok_iff.mp ho
    change h.locate how.whenLink path = .ok spot at hspot
    cases spot with
    | node place =>
      by_cases hnew : how.creation = .mustBeNew
      · simp only [if_pos hnew] at ho
        cases ho
      · simp only [if_neg hnew] at ho
        exact .inl ⟨place, find_eq_ok_iff_locate.mpr hspot, hnew, ho⟩
    | vacant dir name =>
      by_cases hnever : how.creation = .never
      · simp only [if_pos hnever] at ho
        cases ho
      · simp only [if_neg hnever] at ho
        cases ho
        exact .inr ⟨dir, name, hspot, hnever, rfl, rfl⟩

end Open

/-! ## Entries -/

/-- **A new directory.** -/
theorem makeDir_child_eq_ok (ho : h.makeDir (Path.ofNames (ns ++ [name])) = .ok h') :
    ∃ dir, h.find .follow (Path.ofNames ns) = .ok dir ∧ name.contains Name.nul = false ∧
      h.lookup dir name = .ok none ∧
      h' = (h.create dir.ino name (.directory ∅) dirMode).2 := by
  obtain ⟨⟨d, m⟩, hv, ho⟩ := Outcome.bind_eq_ok_iff.mp ho
  obtain ⟨rfl, hn, dir, hf, hl, rfl⟩ := vacancy_child_eq_ok_iff.mp hv
  cases ho
  exact ⟨dir, hf, hn, hl, rfl⟩

/-- **A node that is no directory loses a name.** -/
theorem unlink_child_eq_ok (ho : h.unlink (Path.ofNames (ns ++ [name])) = .ok h') :
    ∃ dir i, h.find .follow (Path.ofNames ns) = .ok dir ∧ h.lookup dir name = .ok (some i) ∧
      h.isDirectory i = false ∧ h' = h.unbind dir.ino name := by
  obtain ⟨⟨place, m⟩, hv, ho⟩ := Outcome.bind_eq_ok_iff.mp ho
  obtain ⟨rfl, -, dir, i, hf, hl, rfl⟩ := occupant_child_eq_ok_iff.mp hv
  simp only [Path.ofNames, Bool.false_eq_true, if_false] at ho
  by_cases hd : h.isDirectory (dir.down m i).ino = true
  · rw [if_pos hd] at ho
    cases ho
  · rw [if_neg hd] at ho
    cases ho
    exact ⟨dir, i, hf, hl, by simpa using hd, rfl⟩

/-- **An empty directory loses its name.** -/
theorem removeDir_child_eq_ok (ho : h.removeDir (Path.ofNames (ns ++ [name])) = .ok h') :
    ∃ dir i, h.find .follow (Path.ofNames ns) = .ok dir ∧ h.lookup dir name = .ok (some i) ∧
      h.entries? i = some ∅ ∧ h' = h.unbind dir.ino name := by
  obtain ⟨⟨place, m⟩, hv, ho⟩ := Outcome.bind_eq_ok_iff.mp ho
  obtain ⟨rfl, -, dir, i, hf, hl, rfl⟩ := occupant_child_eq_ok_iff.mp hv
  obtain ⟨es, hes, ho⟩ := Outcome.bind_eq_ok_iff.mp ho
  rw [entriesAt_eq_ok_iff] at hes
  simp only [Place.up_down] at ho
  by_cases hempty : es = ∅
  · subst hempty
    cases ho
    exact ⟨dir, i, hf, hl, hes, rfl⟩
  · have hne : (!es.isEmpty) = true := by simpa using hempty
    rw [if_pos hne] at ho
    cases ho

theorem mayReplace_eq_ok_iff :
    h.mayReplace i j = .ok () ↔
      (h.isDirectory i = true ∧ h.entries? j = some ∅) ∨
        (h.isDirectory i = false ∧ h.isDirectory j = false) := by
  unfold mayReplace isDirectory
  cases h.entries? i <;> cases h.entries? j <;> simp

/-- What a rename puts an entry in the place of: nothing, or another node that it may replace. -/
def FreeFor (h : Host) (i : Ino) (dir : Place) (name : Name) : Prop :=
  h.lookup dir name = .ok none ∨
    ∃ j, h.lookup dir name = .ok (some j) ∧ j ≠ i ∧
      ((h.isDirectory i = true ∧ h.entries? j = some ∅) ∨
        (h.isDirectory i = false ∧ h.isDirectory j = false))

theorem FreeFor.isDirectory (hf : h.FreeFor i dir name) :
    h.isDirectory dir.ino = true ∧ name.length ≤ Name.maxLength := by
  obtain hl | ⟨_, hl, -⟩ := hf
  · exact ⟨(lookup_eq_ok_iff.mp hl).1, (lookup_eq_ok_iff.mp hl).2.1⟩
  · exact ⟨(lookup_eq_ok_iff.mp hl).1, (lookup_eq_ok_iff.mp hl).2.1⟩

theorem move_eq_ok {dir' : Place} {name' : Name}
    (ho : h.move (dir.down name i) name dir' name' = .ok h') :
    (h.isDirectory i = true → dir'.passes i = false) ∧
      h' = (h.unbind dir.ino name).bind dir'.ino name' i := by
  unfold move at ho
  by_cases hc : (h.isDirectory (dir.down name i).ino && dir'.passes (dir.down name i).ino) = true
  · rw [if_pos hc] at ho
    cases ho
  · rw [if_neg hc] at ho
    cases ho
    refine ⟨fun hd => ?_, rfl⟩
    simpa [hd] using hc

/-- **An entry is moved**, unless both names are names of one node. -/
theorem rename_child_eq_ok {name' : Name}
    (ho : h.rename (Path.ofNames (ns ++ [name])) (Path.ofNames (ms ++ [name'])) = .ok h') :
    ∃ dir dir' i, h.find .follow (Path.ofNames ns) = .ok dir ∧
      h.lookup dir name = .ok (some i) ∧ h.find .follow (Path.ofNames ms) = .ok dir' ∧
      name'.contains Name.nul = false ∧
      ((h.lookup dir' name' = .ok (some i) ∧ h' = h) ∨
        (h.FreeFor i dir' name' ∧ (h.isDirectory i = true → dir'.passes i = false) ∧
          h' = (h.unbind dir.ino name).bind dir'.ino name' i)) := by
  obtain ⟨⟨place, m⟩, hv, ho⟩ := Outcome.bind_eq_ok_iff.mp ho
  obtain ⟨rfl, -, dir, i, hf, hl, rfl⟩ := occupant_child_eq_ok_iff.mp hv
  obtain ⟨spot, hs, ho⟩ := Outcome.bind_eq_ok_iff.mp ho
  obtain ⟨hn, dir', hf', he⟩ := slot_child_eq_ok_iff.mp hs
  refine ⟨dir, dir', i, hf, hl, hf', hn, ?_⟩
  simp only [Path.ofNames, Bool.or_self, Bool.false_and, Bool.false_eq_true, if_false] at ho
  obtain ⟨hl', rfl⟩ | ⟨j, hl', rfl⟩ := enter_down_eq_ok_iff.mp he
  · obtain ⟨hpass, rfl⟩ := move_eq_ok ho
    exact .inr ⟨.inl hl', hpass, rfl⟩
  · change (if j = i then _ else _) = _ at ho
    by_cases hij : j = i
    · rw [if_pos hij] at ho
      cases ho
      rw [hij] at hl'
      exact .inl ⟨hl', rfl⟩
    · rw [if_neg hij] at ho
      obtain ⟨⟨⟩, hmay, ho⟩ := Outcome.bind_eq_ok_iff.mp ho
      obtain ⟨hpass, rfl⟩ := move_eq_ok ho
      exact .inr ⟨.inr ⟨j, hl', hij, mayReplace_eq_ok_iff.mp hmay⟩, hpass, rfl⟩

/-! ## Replacing a file -/

section ReplaceFile

variable {path : Path} {bs : Bytes} {mode : UInt32}

theorem replaceFile_eq_ok (ho : replaceFile path name bs mode h = (.ok (), h')) :
    ∃ dir o, h.find .follow path = .ok dir ∧ h.lookup dir name = .ok o ∧
      (∀ i, o = some i → h.isDirectory i = false) ∧
      h' = (h.create dir.ino name (.file (.ofBytes bs)) mode).2 := by
  unfold replaceFile at ho
  cases hf : h.find .follow path with
  | error e =>
    rw [hf] at ho
    cases ho
  | ok dir =>
    simp only [hf] at ho
    cases hl : h.lookup dir name with
    | error e =>
      rw [hl] at ho
      cases ho
    | ok o =>
      simp only [hl] at ho
      by_cases hc : (o.map h.isDirectory).getD false = true
      · rw [if_pos hc] at ho
        cases ho
      · rw [if_neg hc] at ho
        cases ho
        refine ⟨dir, o, rfl, hl, ?_, rfl⟩
        rintro i rfl
        simpa using hc

theorem replaceFile_eq_error {e : HostError}
    (ho : replaceFile path name bs mode h = (.error e, h')) :
    h' = h ∨ ∃ dir, h.find .follow path = .ok dir ∧ h' = h.modifyEntries dir.ino id := by
  unfold replaceFile at ho
  cases hf : h.find .follow path with
  | error e =>
    rw [hf] at ho
    cases ho
    exact .inl rfl
  | ok dir =>
    simp only [hf] at ho
    cases hl : h.lookup dir name with
    | error e =>
      rw [hl] at ho
      cases ho
      exact .inl rfl
    | ok o =>
      simp only [hl] at ho
      by_cases hc : (o.map h.isDirectory).getD false = true
      · rw [if_pos hc] at ho
        cases ho
        exact .inr ⟨dir, rfl, rfl⟩
      · rw [if_neg hc] at ho
        cases ho

end ReplaceFile

end Host

end GuestShare
