import Mathlib
import GuestShare.Proofs.Share.Answer
import GuestShare.Proofs.Share.Footprint

/-!
# How far a walk gets

A walk takes the longest beginning of its names that can be stepped along, and where it goes is
told by the names alone. So it can be cut into pieces: what the pieces come to, one after the other,
is what the whole walk comes to.

* `Share.Passes`, `Share.Passable`: a name that a walk can step along, and a list of such names.
* `GuestPath.along`, `GuestPath.stations`: where names lead, and the paths in between.
* `Share.LongestWalk`: the nodes of a walk are those of the longest passable beginning of its names.
* **`steps_append`**: a walk goes on from where its beginning ends.
* `Share.SamePieces`: a walk and its two pieces come to the same.
* **`steps_longestWalk_and_samePieces`**: a walk gets as far as its names lead, whole or in pieces.
-/

namespace GuestShare

namespace GuestPath

/-- The path that names lead to. -/
def along (p : GuestPath) (names : List String) : GuestPath := names.foldl next p

/-- The paths that names lead to, one after the other. -/
def stations : GuestPath → List String → List GuestPath
  | _, [] => []
  | p, name :: names => p.next name :: stations (p.next name) names

variable {p : GuestPath} {a b : List String}

theorem along_append : p.along (a ++ b) = (p.along a).along b := List.foldl_append

theorem getLast?_stations (ha : a ≠ []) : (p.stations a).getLast? = some (p.along a) := by
  induction a generalizing p with
  | nil => exact absurd rfl ha
  | cons name names ih =>
    cases names with
    | nil => rfl
    | cons name' names => exact ih (List.cons_ne_nil _ _)

end GuestPath

theorem isPlainName_iff {name : String} :
    isPlainName name = true ↔ name ≠ "" ∧ '/' ∉ name.toList ∧ '\x00' ∉ name.toList := by
  simp [isPlainName, String.contains_char_eq, and_assoc]

namespace Share

/-- A walk can step along a name: it is the name of something, and the path that it leads to exists
and lies in the export, links followed. -/
structure Passes (s : Share) (p : GuestPath) (name : String) : Prop where
  nonempty : name ≠ ""
  slash : '/' ∉ name.toList
  nul : '\x00' ∉ name.toList
  found : ∃ i n, s.host.inspect (s.hostPath (p.next name)) = .ok (i, n)
  inside : ∃ names, s.host.canonical (s.hostPath (p.next name)) = .ok names ∧ s.root <+: names

/-- A walk can step along all the names. -/
def Passable (s : Share) : GuestPath → List String → Prop
  | _, [] => True
  | p, name :: names => s.Passes p name ∧ Passable s (p.next name) names

/-- The nodes are those that names lead to, as far as a walk can step along the names. `front` is
that far. -/
structure LongestWalk (s : Share) (p : GuestPath) (names front : List String) (nodes : List Node) :
    Prop where
  passable : s.Passable p front
  begins : front <+: names
  longest : ∀ more, more <+: names → s.Passable p more → more <+: front
  paths : nodes.map Node.path = p.stations front
  found : ∀ n ∈ nodes, s.node n.path = .ok n
  below : ∀ n ∈ nodes, n.path.Valid ∧ s.root <+: s.hostNames n.path

variable {s : Share} {p : GuestPath} {name : String} {a b names front : List String} {n : Node}
  {id newId : FidId} {fid : Fid}

/-! ## One step -/

theorem staysInside_iff :
    s.staysInside p = true ↔
      ∃ names, s.host.canonical (s.hostPath p) = .ok names ∧ s.root <+: names := by
  unfold staysInside
  cases s.host.canonical (s.hostPath p) with
  | error e => simp
  | ok names => simp [List.isPrefixOf_iff_prefix]

theorem node_ok_iff :
    (∃ n, s.node p = .ok n) ↔ ∃ i n, s.host.inspect (s.hostPath p) = .ok (i, n) := by
  constructor
  · rintro ⟨n, hn⟩
    exact ⟨n.ino, n.inode, Outcome.mapError_eq_ok_iff.mp (node_eq_ok_iff.mp hn).1⟩
  · rintro ⟨i, n, hi⟩
    exact ⟨_, node_of_inspect (Outcome.mapError_eq_ok_iff.mpr hi)⟩

theorem step_eq_some_iff :
    s.step p name = some n ↔ s.Passes p name ∧ s.node (p.next name) = .ok n := by
  constructor
  · intro hn
    obtain ⟨hplain, hnode, hin⟩ := step_eq_some hn
    obtain ⟨hne, hslash, hnul⟩ := isPlainName_iff.mp hplain
    exact ⟨⟨hne, hslash, hnul, node_ok_iff.mp ⟨n, hnode⟩, staysInside_iff.mp hin⟩, hnode⟩
  · rintro ⟨⟨hne, hslash, hnul, -, hin⟩, hnode⟩
    simp [step, isPlainName_iff.mpr ⟨hne, hslash, hnul⟩, hnode, staysInside_iff.mpr hin]

theorem not_passes_of_step (hn : s.step p name = none) : ¬ s.Passes p name := by
  intro hp
  obtain ⟨n, hnode⟩ := node_ok_iff.mpr hp.found
  rw [step_eq_some_iff.mpr ⟨hp, hnode⟩] at hn
  cases hn

theorem steps_cons_none (hn : s.step p name = none) : s.steps p (name :: names) = [] := by
  rw [steps, hn]

theorem steps_cons_some (hn : s.step p name = some n) :
    s.steps p (name :: names) = n :: s.steps (p.next name) names := by
  rw [steps, hn, ← path_of_node (step_eq_some hn).2.1]

/-! ## The longest beginning -/

/-- The names along which a walk gets on. -/
def frontOf (s : Share) (p : GuestPath) (names : List String) : List String :=
  names.take (s.steps p names).length

theorem length_frontOf : (s.frontOf p names).length = (s.steps p names).length := by
  unfold frontOf
  rw [List.length_take, min_eq_left length_steps_le]

theorem passable_frontOf : s.Passable p (s.frontOf p names) := by
  induction names generalizing p with
  | nil => trivial
  | cons name names ih =>
    unfold frontOf
    cases hn : s.step p name with
    | none =>
      rw [steps_cons_none hn]
      trivial
    | some n =>
      rw [steps_cons_some hn]
      exact ⟨(step_eq_some_iff.mp hn).1, ih⟩

theorem length_le_of_passable (hfront : front <+: names) (hp : s.Passable p front) :
    front.length ≤ (s.steps p names).length := by
  induction names generalizing p front with
  | nil => exact hfront.length_le
  | cons name names ih =>
    cases front with
    | nil => exact Nat.zero_le _
    | cons name' front =>
      obtain ⟨rfl, hrest⟩ := List.cons_prefix_cons.mp hfront
      cases hn : s.step p name' with
      | none => exact absurd hp.1 (not_passes_of_step hn)
      | some n =>
        rw [steps_cons_some hn]
        exact Nat.succ_le_succ (ih hrest hp.2)

theorem visited_eq_stations : s.visited p names = p.stations (s.frontOf p names) := by
  induction names generalizing p with
  | nil => rfl
  | cons name names ih =>
    unfold frontOf visited
    cases hn : s.step p name with
    | none =>
      rw [steps_cons_none hn]
      rfl
    | some n =>
      rw [steps_cons_some hn]
      have hpath : n.path = p.next name := path_of_node (step_eq_some hn).2.1
      exact congr (congrArg List.cons hpath) ih

theorem steps_longestWalk (hp : p.Valid) :
    s.LongestWalk p names (s.frontOf p names) (s.steps p names) where
  passable := passable_frontOf
  begins := List.take_prefix _ _
  longest more hmore hpass := by
    refine List.prefix_of_prefix_length_le hmore (List.take_prefix _ _) ?_
    rw [length_frontOf]
    exact length_le_of_passable hmore hpass
  paths := visited_eq_stations
  found _ hn := node_of_mem_steps hn
  below n hn := ⟨valid_of_steps hp n hn, List.prefix_append _ _⟩

/-! ## Going on -/

/-- The walk gets through all the names. -/
def WalksThrough (s : Share) (p : GuestPath) (names : List String) : Prop :=
  (s.steps p names).length = names.length

instance : Decidable (s.WalksThrough p names) := inferInstanceAs (Decidable (_ = _))

/-- **A walk goes on from where its beginning ends, if its beginning ends.** -/
theorem steps_append :
    s.steps p (a ++ b) =
      s.steps p a ++ if s.WalksThrough p a then s.steps (p.along a) b else [] := by
  induction a generalizing p with
  | nil => simp [WalksThrough, steps, GuestPath.along]
  | cons name names ih =>
    rw [List.cons_append]
    cases hn : s.step p name with
    | none => simp [WalksThrough, steps_cons_none hn]
    | some n =>
      have hw : s.WalksThrough p (name :: names) ↔ s.WalksThrough (p.next name) names := by
        simp [WalksThrough, steps_cons_some hn]
      simp only [steps_cons_some hn, ih, List.cons_append, hw]
      rfl

theorem walksThrough_append :
    s.WalksThrough p (a ++ b) ↔ s.WalksThrough p a ∧ s.WalksThrough (p.along a) b := by
  have ha : (s.steps p a).length ≤ a.length := length_steps_le
  unfold WalksThrough
  rw [steps_append, List.length_append, List.length_append]
  split_ifs with h
  · unfold WalksThrough at h
    omega
  · unfold WalksThrough at h
    simp only [List.length_nil, h, false_and, iff_false]
    omega

theorem frontOf_of_walksThrough (hw : s.WalksThrough p names) : s.frontOf p names = names := by
  rw [frontOf, hw, List.take_length]

theorem walksThrough_iff_passable : s.WalksThrough p names ↔ s.Passable p names := by
  constructor
  · intro hw
    rw [← frontOf_of_walksThrough hw]
    exact passable_frontOf
  · exact fun hp => le_antisymm length_steps_le (length_le_of_passable List.prefix_rfl hp)

theorem path_of_getLast? (hw : s.WalksThrough p names)
    (hlast : (s.steps p names).getLast? = some n) : n.path = p.along names := by
  have hne : names ≠ [] := by
    rintro rfl
    cases hlast
  have hpaths : (s.visited p names).getLast? = some n.path := by
    rw [visited, List.getLast?_map, hlast]
    rfl
  rw [visited_eq_stations, frontOf_of_walksThrough hw, GuestPath.getLast?_stations hne] at hpaths
  exact (Option.some.inj hpaths).symm

theorem steps_bindFid : (s.bindFid id fid).steps p names = s.steps p names := by
  induction names generalizing p with
  | nil => rfl
  | cons name names ih =>
    rw [steps, steps, show (s.bindFid id fid).step p name = s.step p name from rfl]
    cases s.step p name with
    | none => rfl
    | some n => exact congrArg (n :: ·) ih

/-! ## Requests to walk -/

/-- The qids that a reply to a walk carries. -/
def walkedQids : Except ShareError Reply → List Qid
  | .ok (.walk qids) => qids
  | _ => []

/-- The reply says that a walk has got through all its names. -/
def Completes (reply : Except ShareError Reply) (names : List String) : Prop :=
  ∃ qids, reply = .ok (.walk qids) ∧ qids.length = names.length

/-- What a fid is bound to that a walk by the names has ended at. -/
def walkedFid (fid : Fid) (names : List String) : Fid :=
  { fid with path := fid.path.along names, handle := .unopened }

theorem perform_walk_unbound (hid : s.fids[id]? = none) :
    s.perform (.walk id newId names) = (.error (.unknownFid id), s) := by
  simp [perform, walk, Fids.find, hid, settle]

theorem perform_walk_of_walksThrough (newId : FidId) (hid : s.fids[id]? = some fid)
    (hw : s.WalksThrough fid.path names) :
    s.perform (.walk id newId names) =
      (.ok (.walk ((s.steps fid.path names).map Node.qid)),
        s.bindFid newId (walkedFid fid names)) := by
  show s.settle _ = _
  rw [settle_eq_ok_iff]
  unfold walk
  rw [fids_find_eq_ok_iff.mpr hid, Outcome.ok_bind]
  cases names with
  | nil => rfl
  | cons name names =>
    simp only [List.isEmpty_cons, Bool.false_eq_true, if_false]
    split
    next hnone =>
      rw [List.getLast?_eq_none_iff] at hnone
      rw [WalksThrough, hnone] at hw
      cases hw
    next last hlast =>
      rw [if_pos (show (s.steps _ _).length = _ from hw), walkedFid, path_of_getLast? hw hlast]
      rfl

/-- A walk that stops before leaves the share as it is. Its reply, if it is not an error, carries
the qids of the nodes that it came by. -/
theorem perform_walk_of_not_walksThrough (hid : s.fids[id]? = some fid)
    (hw : ¬ s.WalksThrough fid.path names) :
    (s.perform (.walk id newId names)).2 = s ∧
      walkedQids (s.perform (.walk id newId names)).1 = (s.steps fid.path names).map Node.qid := by
  show (s.settle _).2 = s ∧ walkedQids (s.settle _).1 = _
  unfold walk
  rw [fids_find_eq_ok_iff.mpr hid, Outcome.ok_bind]
  cases names with
  | nil => exact absurd rfl hw
  | cons name names =>
    simp only [List.isEmpty_cons, Bool.false_eq_true, if_false]
    split
    next hnone =>
      rw [List.getLast?_eq_none_iff.mp hnone]
      exact ⟨rfl, rfl⟩
    next last hlast =>
      rw [if_neg (show ¬ (s.steps _ _).length = _ from hw)]
      exact ⟨rfl, rfl⟩

theorem walkedQids_perform (hid : s.fids[id]? = some fid) :
    walkedQids (s.perform (.walk id newId names)).1 = (s.steps fid.path names).map Node.qid := by
  by_cases hw : s.WalksThrough fid.path names
  · rw [perform_walk_of_walksThrough _ hid hw]
    rfl
  · exact (perform_walk_of_not_walksThrough hid hw).2

/-- **A request to walk is answered in full exactly if its fid is there and the names can be
stepped along.** -/
theorem completes_iff :
    Completes (s.perform (.walk id newId names)).1 names ↔
      ∃ fid, s.fids[id]? = some fid ∧ s.WalksThrough fid.path names := by
  constructor
  · rintro ⟨qids, hreply, hlen⟩
    cases hid : s.fids[id]? with
    | none =>
      rw [perform_walk_unbound hid] at hreply
      cases hreply
    | some fid =>
      refine ⟨fid, rfl, ?_⟩
      have hqids : qids = (s.steps fid.path names).map Node.qid := by
        rw [← walkedQids_perform hid, hreply]
        rfl
      rw [WalksThrough, ← hlen, hqids, List.length_map]
  · rintro ⟨fid, hid, hw⟩
    rw [perform_walk_of_walksThrough _ hid hw]
    exact ⟨_, rfl, by rw [List.length_map]; exact hw⟩

/-- A walk by two lists of names, `one`, comes to the same as a walk by the first list and then a
walk by the second one from where the first ended. -/
structure SamePieces (s : Share) (id newId : FidId) (a b : List String)
    (one first second : Except ShareError Reply × Share) : Prop where
  completes : Completes one.1 (a ++ b) ↔ Completes first.1 a ∧ Completes second.1 b
  qids : Completes first.1 a → walkedQids one.1 = walkedQids first.1 ++ walkedQids second.1
  stopped : ¬ Completes first.1 a → walkedQids one.1 = walkedQids first.1 ∧ first.2 = s
  bound : Completes one.1 (a ++ b) → ∃ fid, s.fids[id]? = some fid ∧
    one.2 = s.bindFid newId (walkedFid fid (a ++ b)) ∧
    second.2 = first.2.bindFid newId (walkedFid fid (a ++ b))
  unbound : ¬ Completes one.1 (a ++ b) → one.2 = s

theorem perform_walk_of_not_completes
    (hw : ¬ Completes (s.perform (.walk id newId names)).1 names) :
    (s.perform (.walk id newId names)).2 = s := by
  cases hid : s.fids[id]? with
  | none => rw [perform_walk_unbound hid]
  | some fid =>
    exact (perform_walk_of_not_walksThrough hid fun h => hw (completes_iff.mpr ⟨fid, hid, h⟩)).1

/-- **A walk comes to the same as its two pieces**, whichever fid stands in between. -/
theorem perform_walk_append (s : Share) (id midId newId : FidId) (a b : List String) :
    s.SamePieces id newId a b (s.perform (.walk id newId (a ++ b)))
      (s.perform (.walk id midId a))
      ((s.perform (.walk id midId a)).2.perform (.walk midId newId b)) := by
  by_cases hfirst : Completes (s.perform (.walk id midId a)).1 a
  · obtain ⟨fid, hid, ha⟩ := completes_iff.mp hfirst
    rw [perform_walk_of_walksThrough midId hid ha]
    set mid := walkedFid fid a with hmid
    have hmidId : (s.bindFid midId mid).fids[midId]? = some mid := by simp [bindFid]
    have hb : (s.bindFid midId mid).WalksThrough mid.path b ↔ s.WalksThrough (fid.path.along a) b :=
      by rw [WalksThrough, steps_bindFid]; rfl
    have hone : Completes (s.perform (.walk id newId (a ++ b))).1 (a ++ b) ↔
        s.WalksThrough (fid.path.along a) b := by
      simp [completes_iff, hid, walksThrough_append, ha]
    have hsecond : Completes ((s.bindFid midId mid).perform (.walk midId newId b)).1 b ↔
        s.WalksThrough (fid.path.along a) b := by
      simp [completes_iff, hmidId, hb]
    have hdone : Completes (.ok (.walk ((s.steps fid.path a).map Node.qid))) a :=
      ⟨_, rfl, by rw [List.length_map]; exact ha⟩
    refine ⟨?_, fun _ => ?_, fun h => absurd hdone h, fun h => ?_, perform_walk_of_not_completes⟩
    · exact hone.trans ⟨fun h => ⟨hdone, hsecond.mpr h⟩, fun h => hsecond.mp h.2⟩
    · rw [walkedQids_perform hid, walkedQids_perform hmidId, steps_append, if_pos ha,
        List.map_append, steps_bindFid]
      rfl
    · have hthrough := hone.mp h
      refine ⟨fid, hid, ?_, ?_⟩
      · rw [perform_walk_of_walksThrough _ hid (walksThrough_append.mpr ⟨ha, hthrough⟩)]
      · rw [perform_walk_of_walksThrough _ hmidId (hb.mpr hthrough)]
        simp [hmid, walkedFid, GuestPath.along_append]
  · have hone : ¬ Completes (s.perform (.walk id newId (a ++ b))).1 (a ++ b) := by
      intro h
      obtain ⟨fid, hid, hw⟩ := completes_iff.mp h
      exact hfirst (completes_iff.mpr ⟨fid, hid, (walksThrough_append.mp hw).1⟩)
    refine ⟨?_, fun h => absurd h hfirst, fun _ => ⟨?_, perform_walk_of_not_completes hfirst⟩,
      fun h => absurd h hone, perform_walk_of_not_completes⟩
    · exact ⟨fun h => absurd h hone, fun h => absurd h.1 hfirst⟩
    · cases hid : s.fids[id]? with
      | none => rw [perform_walk_unbound hid, perform_walk_unbound hid]
      | some fid =>
        have ha : ¬ s.WalksThrough fid.path a := fun h => hfirst (completes_iff.mpr ⟨fid, hid, h⟩)
        rw [walkedQids_perform hid, walkedQids_perform hid, steps_append, if_neg ha,
          List.append_nil]

/-- **Walks follow their names**, as far as these can be stepped along, and come to the same whole
or in pieces. -/
theorem steps_longestWalk_and_samePieces (s : Share) (hp : p.Valid) :
    (∀ names, ∃ front, s.LongestWalk p names front (s.steps p names)) ∧
      (∀ names, s.WalksThrough p names ↔ s.Passable p names) ∧
      (∀ a b, s.steps p (a ++ b) =
        s.steps p a ++ if s.WalksThrough p a then s.steps (p.along a) b else []) ∧
      ∀ id midId newId a b,
        s.SamePieces id newId a b (s.perform (.walk id newId (a ++ b)))
          (s.perform (.walk id midId a))
          ((s.perform (.walk id midId a)).2.perform (.walk midId newId b)) :=
  ⟨fun _ => ⟨_, steps_longestWalk hp⟩, fun _ => walksThrough_iff_passable, fun _ _ => steps_append,
    fun id midId newId a b => s.perform_walk_append id midId newId a b⟩

/-- From a path of a new share that is not there, a walk gets to the root, and stays there. -/
theorem steps_longestWalk_and_samePieces_up :
    ∃ s, (start ⟨"/export", "/meta", defaultIounit⟩ (.empty ⟨0, 0⟩)).1 = .ok s ∧
      GuestPath.Valid ["d"] ∧
      (∃ front, s.LongestWalk ["d"] ["..", "..", "x"] front (s.steps ["d"] ["..", "..", "x"])) ∧
      s.visited ["d"] ["..", "..", "x"] = [[], []] := by
  have hp : GuestPath.Valid ["d"] := by simp [GuestPath.Valid, isEntryName, isPlainName]
  exact ⟨_, rfl, hp, (steps_longestWalk_and_samePieces _ hp).1 _, by cbv⟩

end Share

end GuestShare
