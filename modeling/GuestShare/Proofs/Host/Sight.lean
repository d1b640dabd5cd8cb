import GuestShare.Proofs.Host.Count
import GuestShare.Proofs.Host.Way

/-!
# What is seen below a node

Where no link is met, the host finds a node, or says why there is none, by the entries below the
node from which names lead. So what is seen there depends on nothing else.

* `Host.seek`, `Host.sight`: names gone down from a node.
* **`inspect_ofNames`**: what the host sees under an absolute path.
* **`SameBelow.sight`**: where everything is as it was, the same is seen.
-/

namespace GuestShare

namespace Host

variable {h h' : Host} {i j : Ino} {name : Name} {ns ms : List Name} {p : Place}

/-- Go down from a node name by name. -/
def seek (h : Host) : Ino → List Name → Except HostError Ino
  | i, [] => .ok i
  | i, name :: ns =>
    if h.isDirectory i = false then .error .notDirectory
    else if Name.maxLength < name.length then .error .nameTooLong
    else
      match h.child? i name with
      | some j => h.seek j ns
      | none => .error .notFound

/-- The node below another one. -/
def sight (h : Host) (i : Ino) (ns : List Name) : Except HostError (Ino × Inode) :=
  if ns.any (·.contains Name.nul) then .error .nulByte
  else do
    let j ← h.seek i ns
    match h.node? j with
    | some n => return (j, n)
    | none => throw .notFound

theorem seek_append_of_descend (hns : h.descend i ns = some j)
    (hlen : ∀ n ∈ ns, n.length ≤ Name.maxLength) : h.seek i (ns ++ ms) = h.seek j ms := by
  induction ns generalizing i with
  | nil =>
    cases hns
    rfl
  | cons name ns ih =>
    obtain ⟨k, hk, hns⟩ := Option.bind_eq_some_iff.mp hns
    rw [List.cons_append, seek, if_neg (by simp [isDirectory_of_child? hk]),
      if_neg (Nat.not_lt.mpr (hlen name List.mem_cons_self)), hk]
    exact ih hns fun n hn => hlen n (List.mem_cons_of_mem _ hn)

theorem IsTree.sight_append (ht : h.IsTree) (hns : h.descend i ns = some j) :
    h.sight i (ns ++ ms) = h.sight j ms := by
  have hfits := ht.descend_fits hns
  have hnul : ns.any (·.contains Name.nul) = false := by
    rw [List.any_eq_false]
    exact fun n hn => ne_true_of_eq_false (hfits n hn).1
  unfold sight
  rw [List.any_append, hnul, Bool.false_or,
    seek_append_of_descend hns fun n hn => (hfits n hn).2]

/-! ## Absolute paths -/

/-- The node at the end of a way. -/
def Spot.node! : Spot → Except HostError Ino
  | .node p => .ok p.ino
  | .vacant .. => .error .notFound

theorem lookup_eq : h.lookup p name =
    if h.isDirectory p.ino = false then .error .notDirectory
    else if Name.maxLength < name.length then .error .nameTooLong
    else .ok (h.child? p.ino name) := by
  unfold lookup Host.entriesAt child? isDirectory
  cases h.entries? p.ino with
  | none => rfl
  | some es =>
    simp only [Outcome.ok_bind, Option.isSome_some, Bool.true_eq_false, if_false, Option.bind_some]
    split_ifs <;> rfl

theorem walkSteps_seek (atEnd : AtEnd) (expand : Place → List Step → Except HostError Spot)
    (hl : ∀ front j, front <+: ns → h.descend p.ino front = some j → h.target? j = none) :
    h.walkSteps atEnd expand p (ns.map .down) >>= Spot.node! = h.seek p.ino ns := by
  induction ns generalizing p with
  | nil => rfl
  | cons n ns ih =>
    rw [List.map_cons, walkSteps, seek, lookup_eq]
    by_cases hd : h.isDirectory p.ino = false
    · rw [if_pos hd, if_pos hd]
      rfl
    by_cases hlen : Name.maxLength < n.length
    · rw [if_neg hd, if_neg hd, if_pos hlen, if_pos hlen]
      rfl
    rw [if_neg hd, if_neg hd, if_neg hlen, if_neg hlen, Outcome.ok_bind]
    cases hj : h.child? p.ino n with
    | none => cases ns <;> rfl
    | some j =>
      have hnone : h.target? j = none :=
        hl [n] j (List.prefix_append [n] ns) (descend_singleton.trans hj)
      simp only [hnone]
      exact ih (p := p.down n j) fun front k hf hk =>
        hl (n :: front) k (List.cons_prefix_cons.mpr ⟨rfl, hf⟩) (by rw [descend_cons, hj]; exact hk)

/-- **Where no link is met, the host sees under a path what is below its root.** -/
theorem inspect_ofNames
    (hl : ∀ front j, front <+: ns → h.descend 0 front = some j → h.target? j = none) :
    h.inspect (Path.ofNames ns) = h.sight 0 ns := by
  obtain ⟨expand, hwalk⟩ := walk_eq_walkSteps h .keep maxLinks Place.root
  have hseek := walkSteps_seek .keep expand (p := Place.root) hl
  have hnul : (Path.ofNames ns).steps.any Step.hasNul = ns.any (·.contains Name.nul) := by
    simp only [Path.ofNames, List.any_map]
    rfl
  unfold inspect sight find locate
  rw [hnul]
  simp only [Path.ofNames, Path.isEmpty, Path.toSteps, Bool.not_true, Bool.false_and,
    Bool.false_eq_true, if_false, if_true]
  split_ifs
  · rfl
  · rw [hwalk, ← show h.seek Place.root.ino ns = h.seek 0 ns from rfl, ← hseek]
    cases h.walkSteps .keep expand Place.root (ns.map .down) with
    | error e => rfl
    | ok spot => cases spot <;> rfl

/-! ## The same sight -/

theorem SameBelow.seek (hs : SameBelow h h' i) : h'.seek i ns = h.seek i ns := by
  induction ns generalizing i with
  | nil => rfl
  | cons name ns ih =>
    have hi := hs.node? [] i rfl
    rw [Host.seek, Host.seek, isDirectory_congr hi, child?_congr hi]
    cases hj : h.child? i name with
    | none => rfl
    | some j =>
      simp only
      have hdown : h.descend i [name] = some j := descend_singleton.trans hj
      rw [ih (hs.below hdown)]

theorem descend_of_seek (hns : h.seek i ns = .ok j) : h.descend i ns = some j := by
  induction ns generalizing i with
  | nil =>
    cases hns
    rfl
  | cons name ns ih =>
    rw [seek] at hns
    split_ifs at hns
    cases hk : h.child? i name with
    | none =>
      rw [hk] at hns
      cases hns
    | some k =>
      rw [hk] at hns
      rw [descend_cons, hk]
      exact ih hns

/-- **Where everything is as it was, the same is seen.** -/
theorem SameBelow.sight (hs : SameBelow h h' i) : h'.sight i ns = h.sight i ns := by
  unfold Host.sight
  rw [hs.seek]
  cases hj : h.seek i ns with
  | error e => rfl
  | ok j =>
    simp only [Outcome.ok_bind]
    rw [hs.node? ns j (descend_of_seek hj)]

theorem descend_of_sight {n : Inode} (hn : h.sight i ns = .ok (j, n)) :
    h.descend i ns = some j := by
  unfold Host.sight at hn
  split_ifs at hn
  obtain ⟨k, hk, hn⟩ := Outcome.bind_eq_ok_iff.mp hn
  cases hnode : h.node? k with
  | none =>
    rw [hnode] at hn
    cases hn
  | some m =>
    rw [hnode] at hn
    cases hn
    exact descend_of_seek hk

end Host

end GuestShare
