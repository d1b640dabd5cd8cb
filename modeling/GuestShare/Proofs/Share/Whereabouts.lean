import GuestShare.Proofs.Share.CoherentRun
import GuestShare.Proofs.Share.Deed

/-!
# Where nodes are after a request

In an export without links of the host, a path leads to a node by the entries of directories, so a
node stays at its path unless a request removes it, puts another one in its place, or moves it or a
directory above it.

* `Share.NotAt`: a request neither removes what is at a path nor moves anything there or away.
* **`Deed.has`**: what is at such a path stays there.
* **`Deed.has_of_inside`**: a directory that is still in the export is at the path to which the
  request carries its path.
* `Share.Plain`: a share of an export without links, as it is in every state.
* **`Plain.perform_leadsTo`**: a fid of a directory keeps leading there, as long as the directory is
  in the export.
-/

namespace GuestShare

namespace Share

/-- A request that goes well does not remove what is at a path, does not put anything else in its
place, and does not move it or anything above it. -/
structure NotAt (s : Share) (r : Request) (q : GuestPath) : Prop where
  removed : s.Does r → s.removedPath r ≠ some q
  moved : ∀ old new, s.Does r → s.movedPaths r = some (old, new) → ¬ old <+: q ∧ new ≠ q

variable {s s' : Share} {r : Request} {p q rest : GuestPath} {name name' : String} {i j : Ino}
  {dir dir' : Place}

theorem hostNames_inj : s.hostNames p = s.hostNames q ↔ p = q :=
  ⟨fun h => Classical.not_not.mp fun hne => hostNames_ne hne h, fun h => h ▸ rfl⟩

/-- What a rename replaces has nothing below it. If it is a directory, it loses its entry. -/
theorem LinkFree.replaced (hl : s.LinkFree) (hs : s.Sound)
    (hold : s.Has (p ++ [name]) i) (hf' : s.host.find .follow (s.hostPath q) = .ok dir')
    (hcase : s.host.lookup dir' (Name.ofText name') = .ok (some i) ∨
      s.host.FreeFor i dir' (Name.ofText name'))
    (hne : p ++ [name] ≠ q ++ [name']) (hj : s.Has (q ++ [name'] ++ rest) j) :
    rest = [] ∧ (s.host.isDirectory j = true →
      i ≠ j ∧ s.host.child? dir'.ino (Name.ofText name') = some j) := by
  have hdir' : s.Has q dir'.ino := hl.has_of_find hs hf'
  -- the node that is at the new path itself
  obtain ⟨k, hk, hbelow⟩ : ∃ k, s.Has (q ++ [name']) k ∧
      s.host.descend k (rest.map Name.ofText) = some j := by
    unfold Has at hj
    rw [hostNames_append, Host.descend_append] at hj
    exact Option.bind_eq_some_iff.mp hj
  obtain ⟨d, hd, hchild⟩ := has_concat_iff.mp hk
  obtain rfl : d = dir'.ino := hd.unique hdir'
  have hempty : s.host.isDirectory k = false ∨ s.host.entries? k = some ∅ ∧ i ≠ k := by
    obtain hlook | hlook | ⟨m, hlook, hmi, hm⟩ := hcase
    · obtain rfl : i = k := Option.some.inj ((Host.lookup_eq_ok_iff.mp hlook).2.2.symm.trans hchild)
      refine .inl ?_
      cases hdirectory : s.host.isDirectory i with
      | false => rfl
      | true =>
        exact absurd (hostNames_inj.mp (hs.isTree.descend_unique hdirectory hold hk)) hne
    · rw [(Host.lookup_eq_ok_iff.mp hlook).2.2] at hchild
      cases hchild
    · obtain rfl : m = k := Option.some.inj ((Host.lookup_eq_ok_iff.mp hlook).2.2.symm.trans hchild)
      obtain ⟨-, hm⟩ | ⟨-, hm⟩ := hm
      · exact .inr ⟨hm, fun h => hmi h.symm⟩
      · exact .inl hm
  have hrest : rest.map Name.ofText = [] :=
    Host.eq_nil_of_descend (hempty.imp_right And.left) hbelow
  obtain rfl : rest = [] := List.map_eq_nil_iff.mp hrest
  obtain rfl : k = j := Option.some.inj hbelow
  refine ⟨rfl, fun hdirectory => ?_⟩
  obtain hno | ⟨-, hik⟩ := hempty
  · rw [hno] at hdirectory
    cases hdirectory
  · exact ⟨hik, hchild⟩

theorem NotAt.not_below_new (hn : s.NotAt r q) (hl : s.LinkFree) (hs : s.Sound)
    (does : s.Does r) (paths : s.movedPaths r = some (p ++ [name], rest ++ [name']))
    (hold : s.Has (p ++ [name]) i) (hf' : s.host.find .follow (s.hostPath rest) = .ok dir')
    (hcase : s.host.lookup dir' (Name.ofText name') = .ok (some i) ∨
      s.host.FreeFor i dir' (Name.ofText name')) (hj : s.Has q j) : ¬ rest ++ [name'] <+: q := by
  obtain ⟨hnot, hnew⟩ := hn.moved _ _ does paths
  rintro ⟨below, rfl⟩
  have hne : p ++ [name] ≠ rest ++ [name'] := fun he => hnot (he ▸ List.prefix_append _ _)
  obtain ⟨rfl, -⟩ := hl.replaced hs hold hf' hcase hne hj
  exact hnew (List.append_nil _).symm

/-- **What a request does not remove, replace or move stays at its path.** -/
theorem Deed.has (hd : Deed s r s') (hl : s.LinkFree) (hs : s.Sound) (hroot : s'.root = s.root)
    (hn : s.NotAt r q) (hi : s.Has q i) : s'.Has q i := by
  rw [has_of_root_eq hroot]
  cases hd with
  | keep paths tree records => exact tree.descend hi
  | permit path tree records => exact tree.descend hi
  | record path does tree records => exact tree.descend hi
  | @remove p name dir k path does found entry nothing tree records =>
    have hne : q ≠ p ++ [name] := fun h => hn.removed does (h ▸ path)
    have hremoves := hs.isTree.unbind_removes (hl.has_of_find hs found)
      (Host.lookup_eq_ok_iff.mp entry).2.2 nothing
    rw [tree]
    refine hremoves.descend _ _ ?_ hi
    rw [← hostNames_concat]
    exact hostNames_ne hne
  | @move p p' name name' dir dir' k paths does names found entry found' tree records =>
    obtain ⟨hold, -⟩ := hn.moved _ _ does paths
    obtain ⟨hk, hmoves, -⟩ := hl.moves hs found entry found' tree
    have hapart : ¬ p' ++ [name'] <+: q :=
      hn.not_below_new hl hs does paths hk found' (tree.imp And.left And.left) hi
    rw [hmoves.apart _ (hostNames_prefix_iff.not.mpr hold) (hostNames_prefix_iff.not.mpr hapart)]
    exact hi

theorem Deed.isDirectory (hd : Deed s r s') (hi : i < s.host.nodes.size) :
    s'.host.isDirectory i = s.host.isDirectory i := by
  cases hd with
  | keep paths tree records => exact tree.isDirectory i hi
  | permit path tree records => exact tree.isDirectory i hi
  | record path does tree records => exact tree.isDirectory i hi
  | remove path does found entry nothing tree records =>
    rw [tree]
    exact Host.isDirectory_unbind
  | move paths does names found entry found' tree records =>
    obtain ⟨-, tree⟩ | ⟨-, -, tree⟩ := tree
    · rw [tree]
    · rw [tree]
      exact Host.isDirectory_bind.trans Host.isDirectory_unbind

theorem Deed.workDir_eq (hd : Deed s r s') : s'.host.workDir = s.host.workDir := by
  cases hd with
  | keep paths tree records => exact tree.workDir_eq
  | permit path tree records => exact tree.workDir_eq
  | record path does tree records => exact tree.workDir_eq
  | remove path does found entry nothing tree records =>
    rw [tree]
    exact Host.workDir_unbind
  | move paths does names found entry found' tree records =>
    obtain ⟨-, tree⟩ | ⟨-, -, tree⟩ := tree
    · rw [tree]
    · rw [tree]
      exact Host.workDir_bind.trans Host.workDir_unbind

theorem Deed.child? {d : Ino} {m : Name} (hd : Deed s r s') (hl : s.LinkFree) (hs : s.Sound)
    (hout : ¬ s.Inside d) (hi : s.host.child? d m = some i) : s'.host.child? d m = some i := by
  have apart : ∀ {p : GuestPath} {dir : Place}, s.host.find .follow (s.hostPath p) = .ok dir →
      d ≠ dir.ino := fun hf he => hout ⟨_, he ▸ hl.has_of_find hs hf⟩
  cases hd with
  | keep paths tree records => exact tree.child? d m i hi
  | permit path tree records => exact tree.child? d m i hi
  | record path does tree records => exact tree.child? d m i hi
  | remove path does found entry nothing tree records =>
    rw [tree, Host.child?_unbind, if_neg fun h => apart found h.1]
    exact hi
  | move paths does names found entry found' tree records =>
    obtain ⟨-, tree⟩ | ⟨-, -, tree⟩ := tree
    · rw [tree]
      exact hi
    · rw [tree, Host.child?_bind, if_neg fun h => apart found' h.1, Host.child?_unbind,
        if_neg fun h => apart found h.1]
      exact hi

theorem permittedPath_not_moved (hp : s.permittedPath r = some p) : s.movedPaths r = none := by
  cases r <;> first | rfl | cases hp

theorem madePath_not_moved (hp : s.madePath r = some p) : s.movedPaths r = none := by
  cases r <;> first | rfl | cases hp

theorem removedPath_not_moved (hp : s.removedPath r = some p) : s.movedPaths r = none := by
  cases r <;> first | rfl | cases hp

theorem not_inside_of_not_named (h0 : i ≠ 0) (hi : ∀ e n, s.host.child? e n ≠ some i) :
    ¬ s.Inside i := fun ⟨_, hns⟩ => Host.descend_ne_of_not_named h0 hi hns

/-- **A directory that is still in the export is at the path to which its own is carried.** -/
theorem Deed.has_of_inside (hd : Deed s r s') (hl : s.LinkFree) (hs : s.Sound)
    (hroot : s'.root = s.root) (hdir : s.host.isDirectory i = true) (hi : s.Has q i)
    (hin : s'.Inside i) : s'.Has (s.carried r q) i := by
  rw [has_of_root_eq hroot]
  cases hd with
  | keep paths tree records =>
    rw [paths]
    exact tree.descend hi
  | permit path tree records =>
    rw [carried_of_not_moved (permittedPath_not_moved path)]
    exact tree.descend hi
  | record path does tree records =>
    rw [carried_of_not_moved (madePath_not_moved path)]
    exact tree.descend hi
  | @remove p name dir k path does found entry nothing tree records =>
    rw [carried_of_not_moved (removedPath_not_moved path)]
    obtain ⟨-, -, hchild⟩ := Host.lookup_eq_ok_iff.mp entry
    have hp : s.Has p dir.ino := hl.has_of_find hs found
    by_cases hq : q = p ++ [name]
    · subst hq
      obtain rfl : k = i := (has_concat_iff.mpr ⟨dir.ino, hp, hchild⟩ : s.Has _ k).unique hi
      refine absurd hin (not_inside_of_not_named (hs.isTree.entry_ne_root hchild) ?_)
      rw [tree]
      exact hs.isTree.unbind_not_named hdir hchild
    · rw [tree]
      refine (hs.isTree.unbind_removes hp hchild nothing).descend _ _ ?_ hi
      rw [← hostNames_concat]
      exact hostNames_ne hq
  | @move p p' name name' dir dir' k paths does names found entry found' tree records =>
    rw [carried_of_moved paths does]
    obtain ⟨hk, hmoves, -⟩ := hl.moves hs found entry found' tree
    by_cases hold : p ++ [name] <+: q
    · obtain ⟨rest, rfl⟩ := hold
      rw [GuestPath.rebase_append, ← has_of_root_eq hroot]
      exact has_of_moves hroot hk hmoves hi
    rw [GuestPath.rebase_of_not_prefix hold]
    by_cases hnew : p' ++ [name'] <+: q
    · obtain ⟨rest, rfl⟩ := hnew
      have hne : p ++ [name] ≠ p' ++ [name'] := fun he => hold (he ▸ List.prefix_append _ _)
      obtain ⟨rfl, hreplaced⟩ := hl.replaced hs hk found' (tree.imp And.left And.left) hne hi
      obtain ⟨hik, hchild⟩ := hreplaced hdir
      obtain ⟨hlook, -⟩ | ⟨-, -, htree⟩ := tree
      · rw [(Host.lookup_eq_ok_iff.mp hlook).2.2] at hchild
        exact absurd (Option.some.inj hchild) hik
      · refine absurd hin (not_inside_of_not_named (hs.isTree.entry_ne_root hchild) ?_)
        rw [htree]
        exact hs.isTree.move_not_named hdir hchild hik
    · rw [hmoves.apart _ (hostNames_prefix_iff.not.mpr hold) (hostNames_prefix_iff.not.mpr hnew)]
      exact hi

/-! ## Exports without links -/

/-- A share of an export without links. -/
structure Plain (s : Share) : Prop where
  sound : s.Sound
  linkFree : s.LinkFree
  validPaths : s.ValidPaths

variable {s₀ : Share} {frame : Bytes} {o : ShareOptions} {h : Host} {id : FidId} {fid : Fid}

namespace Plain

theorem guards (hp : s.Plain) (r : Request) : s.Guards r := fun _ _ _ _ =>
  hp.linkFree.staysInside hp.sound

theorem confined (hp : s.Plain) (r : Request) : Confined s (s.perform r).1 (s.perform r).2 :=
  perform_confined hp.sound (hp.guards r)

theorem perform (hp : s.Plain) (r : Request) : (s.perform r).2.Plain where
  sound := (hp.confined r).sound
  linkFree i hi :=
    hp.linkFree.on (hp.confined r).changes i ((inside_on_iff (hp.confined r).root_eq).mpr hi)
  validPaths := perform_validPaths hp.validPaths r

theorem flushRecords (hp : s.Plain) : s.flushRecords.2.Plain where
  sound := (flushRecords_writesRecords hp.sound).sound
  linkFree := hp.linkFree.writesRecords (flushRecords_writesRecords hp.sound)
  validPaths := validPaths_congr hp.validPaths rfl

/-- **A frame keeps an export without links.** -/
theorem respond (hp : s.Plain) : (s.respond frame).2.2.Plain := by
  obtain ⟨-, -, hs, -⟩ | ⟨m, -, hs, -⟩ := s.respond_cases frame
  · rw [hs]
    exact hp
  · rw [hs]
    exact (hp.perform m.body).flushRecords

theorem reset (hp : s.Plain) : s.reset.Plain where
  sound := hp.sound.congr rfl rfl
  linkFree := hp.linkFree
  validPaths _ _ hid := by cases hid

theorem of_reachable (hp : s₀.Plain) (hr : s₀.Reachable s) : s.Plain :=
  hr.invariant hp (fun _ r ht => (ht.perform r).flushRecords) fun _ ht => ht.reset

end Plain

theorem Reachable.run {frames : List Bytes} (hr : s₀.Reachable s) :
    s₀.Reachable (s.run frames) := by
  induction frames generalizing s with
  | nil => exact hr
  | cons frame frames ih => exact ih (hr.respond frame)

theorem start_plain (hh : h.WellFormed) (hs : (start o h).1 = .ok s) (hl : s.LinkFree) :
    s.Plain where
  sound := start_sound hh hs
  linkFree := hl
  validPaths id fid hid := by
    rw [(start_eq_ok hs).2.2.2.2] at hid
    cases hid

/-- A fid leads to the directory `i` as long as that is in the export. -/
def LeadsTo (s : Share) (id : FidId) (i : Ino) : Prop :=
  s.host.isDirectory i = true ∧
    ∀ fid, s.fids[id]? = some fid → s.Inside i → s.Has fid.path i

theorem Plain.perform_leadsTo (hp : s.Plain) (hr : s.Spares id r) (hi : s.LeadsTo id i) :
    (s.perform r).2.LeadsTo id i := by
  obtain ⟨hdir, hfid⟩ := hi
  have hlt : i < s.host.nodes.size := Host.lt_size_of_isDirectory hdir
  have hd := perform_deed s r
  have hc := hp.confined r
  refine ⟨(hd.isDirectory hlt).trans hdir, fun fid' hid' hin => ?_⟩
  rw [hr.perform_fid] at hid'
  obtain ⟨fid, hid, rfl⟩ := Option.map_eq_some_iff.mp hid'
  have hin₀ : s.Inside i := hc.changes.outside i hlt ((inside_on_iff hc.root_eq).mpr hin)
  exact hd.has_of_inside hp.linkFree hp.sound hc.root_eq hdir (hfid fid hid hin₀) hin

theorem LeadsTo.flushRecords (hs : s.Sound) (hi : s.LeadsTo id i) :
    s.flushRecords.2.LeadsTo id i := by
  obtain ⟨hdir, hfid⟩ := hi
  have hputs := Store.flush_puts (s := s.store) (h := s.host)
  have hlt : i < s.host.nodes.size := Host.lt_size_of_isDirectory hdir
  refine ⟨(hputs.isDirectory_eq hlt).trans hdir, fun fid hid hin => ?_⟩
  have hin₀ : s.Inside i := (flushRecords_writesRecords hs).outside i hlt hin
  exact hputs.descend_of_isDirectory hdir (hfid fid hid hin₀)

end Share

end GuestShare
