import GuestShare.Proofs.Share.Confinement
import GuestShare.Proofs.Share.EntryNames
import GuestShare.Proofs.Share.Footprint
import GuestShare.Proofs.Share.Stray

/-!
# One path for each key

On the host, the path of a fid is that of the exported directory with names behind it, and the key
of a record is made of these names again. They are names of entries whichever way the fid has come
to its path, so no key is that of two paths, and only what is about the root comes by its key.

* `Share.nextNames`, `Share.relative`: a step of a walk on the host, and the key of a path there.
* `Share.DistinctKeys`: keys tell paths of the host apart.
* `Share.OnRoot`: requests about the root.
* `Share.OwnKeys`: a request reads and changes the records of its own paths only.
* `Store.Keyed`: a store that has records under the keys of paths only.
* **`run_ownKeys`**: after any run, keys are distinct, and every request keeps to its own.
-/

namespace GuestShare

/-- All records are under keys of paths. -/
def Store.Keyed (s : Store) : Prop :=
  ∀ k, s.overlay k ≠ .blank → ∃ p : GuestPath, p.Valid ∧ p.key = k

namespace Share

/-- Where a name leads from a path on the host. There is no way up from the exported directory. -/
def nextNames (s : Share) (names : List Name) (name : String) : List Name :=
  if name = "." then names
  else if name = ".." then if names = s.root then names else names.dropLast
  else names ++ [Name.ofText name]

/-- The key of a path on the host. A path outside the exported directory would have the key of the
root. -/
def relative (s : Share) (names : List Name) : String :=
  match behind? s.root names with
  | none => "."
  | some rest => GuestPath.key (rest.filterMap fun name =>
    match Step.ofPiece? name with
    | some (.down name) => some (Text.ofBytes name)
    | _ => none)

/-- Keys tell the paths of the host apart that go on behind the exported directory by names of
entries. -/
structure DistinctKeys (s : Share) : Prop where
  inside : ∀ p, behind? s.root (s.hostNames p) ≠ none
  root : ∀ p : GuestPath, p.Valid → (s.relative (s.hostNames p) = "." ↔ s.hostNames p = s.root)
  joined : ∀ p : GuestPath, p.Valid → p ≠ [] → s.relative (s.hostNames p) = "/".intercalate p
  injective : ∀ p q : GuestPath, p.Valid → q.Valid →
    s.relative (s.hostNames p) = s.relative (s.hostNames q) → s.hostNames p = s.hostNames q

/-- The request is about the root: it names a fid that is there, attaches one, or walks there. -/
def OnRoot (s : Share) (r : Request) : Prop :=
  (∃ id ∈ r.fids, s.At id []) ∨
    match r with
    | .attach .. => True
    | .walk id _ names => ∃ fid, s.fids[id]? = some fid ∧ [] ∈ s.visited fid.path names
    | _ => False

/-- What a request reads of the records, and what it changes. -/
structure OwnKeys (s : Share) (r : Request) : Prop where
  /-- The key of a path that it comes by is that of no other path. -/
  owner : ∀ p, s.Touches r p → p.Valid ∧
    ∀ q : GuestPath, q.Valid → s.relative (s.hostNames q) = p.key → q = p
  /-- It does not depend on records under other keys. -/
  reads : ∀ t, s.store.Agree (s.Touches r) t →
    Alike (s.Touches r) (s.perform r) ((s.withRecords t).perform r)
  /-- It replaces the records under one such key, or moves those of one path to another one. -/
  writes : s.store.Rewrites (s.Writes r) (s.perform r).2.store
  /-- If it is not about the root, it does not depend on the record of the root. -/
  rootUnread : ¬ s.OnRoot r → ∀ t : Store, (∀ k, k ≠ "." → t.overlay k = s.store.overlay k) →
    Alike (fun p => p.Valid ∧ p ≠ []) (s.perform r) ((s.withRecords t).perform r)
  /-- If it is not about the root, it leaves the record of the root as it is. -/
  rootKept : ¬ s.OnRoot r → (s.perform r).2.store.overlay "." = s.store.overlay "."

variable {s : Share} {p q old new : GuestPath} {name : String} {id : FidId} {r : Request}

/-! ## Paths on the host -/

theorem behind?_hostNames : behind? s.root (s.hostNames p) = some (p.map Name.ofText) :=
  behind?_eq_some_iff.mpr rfl

/-- **A walk goes the same way on the host.** -/
theorem nextNames_hostNames : s.nextNames (s.hostNames p) name = s.hostNames (p.next name) := by
  have hroot : s.hostNames p = s.root ↔ p = [] := by simp [hostNames]
  unfold nextNames GuestPath.next
  simp only [hroot]
  split_ifs with hdot hdots hp
  · rfl
  · rw [hp]
    rfl
  · obtain ⟨front, last, rfl⟩ := List.eq_nil_or_concat p |>.resolve_left hp
    rw [List.concat_eq_append, List.dropLast_concat, hostNames_concat, List.dropLast_concat]
  · exact hostNames_concat.symm

/-- **Fids move the same way on the host.** -/
theorem hostNames_rebase :
    s.hostNames (p.rebase old new) =
      match behind? (s.hostNames old) (s.hostNames p) with
      | some rest => s.hostNames new ++ rest
      | none => s.hostNames p := by
  by_cases hp : old <+: p
  · obtain ⟨rest, rfl⟩ := hp
    rw [GuestPath.rebase_append, behind?_eq_some_iff.mpr hostNames_append]
    exact hostNames_append
  · have hnone : behind? (s.hostNames old) (s.hostNames p) = none := by
      rw [Option.eq_none_iff_forall_ne_some]
      intro rest hrest
      exact hp (hostNames_prefix_iff.mp ⟨rest, (behind?_eq_some_iff.mp hrest).symm⟩)
    rw [GuestPath.rebase_of_not_prefix hp, hnone]

theorem ofPiece?_ofText (hn : isEntryName name = true) :
    Step.ofPiece? (Name.ofText name) = some (.down (Name.ofText name)) := by
  obtain ⟨hplain, hdot, hdots⟩ := isEntryName_iff.mp hn
  have hne : ∀ {other : String}, name ≠ other → Name.ofText name ≠ Name.ofText other :=
    fun hname he => hname (Bytes.ofText_injective he)
  have hempty : Name.ofText name ≠ [] := hne fun (he : name = "") => by
    rw [he] at hplain
    cases hplain
  have hdot' : Name.ofText name ≠ [Name.dot] := hne hdot
  have hdots' : Name.ofText name ≠ [Name.dot, Name.dot] := hne hdots
  unfold Step.ofPiece?
  rw [if_neg (by simpa using hempty), if_neg hdot', if_neg hdots']

/-- **The key of a path below the exported directory is that of its names.** -/
theorem relative_hostNames (hp : p.Valid) : s.relative (s.hostNames p) = p.key := by
  unfold relative
  rw [behind?_hostNames]
  simp only [List.filterMap_map]
  congr 1
  refine (List.filterMap_congr fun name hname => ?_).trans List.filterMap_some
  simp only [Function.comp_apply, ofPiece?_ofText (hp name hname)]
  exact congrArg some (Text.ofBytes_ofText name)

theorem key_eq_root_iff (hp : p.Valid) : p.key = "." ↔ p = [] :=
  ⟨fun he => hp.eq_of_key_eq GuestPath.valid_nil he, fun he => he ▸ rfl⟩

theorem distinctKeys (s : Share) : s.DistinctKeys where
  inside p := by
    rw [behind?_hostNames]
    exact Option.some_ne_none _
  root p hp := by
    rw [relative_hostNames hp, key_eq_root_iff hp]
    simp [hostNames]
  joined p hp hne := by
    rw [relative_hostNames hp]
    unfold GuestPath.key
    rw [if_neg (by simpa using hne)]
  injective p q hp hq he := by
    rw [relative_hostNames hp, relative_hostNames hq] at he
    rw [hp.eq_of_key_eq hq he]

/-! ## Paths of requests -/

/-- **A request comes by paths of names of entries only.** -/
theorem Touches.valid (hv : s.ValidPaths) (hn : s.Named) (hp : s.Touches r p) : p.Valid := by
  cases r with
  | attach id afid uname aname uid =>
    obtain rfl : p = [] := hp
    exact GuestPath.valid_nil
  | walk id newId names =>
    obtain ⟨fid, hid, hp⟩ := hp
    obtain ⟨n, hn, rfl⟩ := List.mem_map.mp hp
    exact valid_of_steps (hv id fid hid) n hn
  | readdir id offset count =>
    obtain ⟨fid, names, name, hid, hh, hname, rfl⟩ := hp
    exact (hv id fid hid).concat (hn.listed id fid names hid hh name hname)
  | renameat oldId oldName newId newName =>
    rcases hp with hp | hp | ⟨hp, -⟩
    · exact hp.valid hv
    · exact hp.valid hv
    · exact hp
  | lopen | «open» | readlink | getattr | setattr | read | remove => exact At.valid hv hp
  | lcreate | symlink | mknod | mkdir | unlinkat =>
    rcases hp with hp | hp
    · exact hp.valid hv
    · exact hp.valid hv
  | version | flush | fsync | write | clunk | unknown => cases hp

theorem not_atEntry_root : ¬ s.AtEntry id name [] := by
  rintro ⟨-, fid, -, he⟩
  simp at he

theorem onRoot_of_touches (hr : s.Touches r []) : s.OnRoot r := by
  have self : ∀ {id : FidId}, r.fids = [id] → s.At id [] → s.OnRoot r := fun hf ha =>
    .inl ⟨_, hf ▸ List.mem_cons_self, ha⟩
  cases r with
  | attach id afid uname aname uid => exact .inr trivial
  | walk id newId names => exact .inr hr
  | readdir id offset count =>
    obtain ⟨fid, names, name, -, -, -, he⟩ := hr
    simp at he
  | renameat oldId oldName newId newName =>
    rcases hr with hr | hr | ⟨-, q, hq, he⟩
    · exact .inl ⟨oldId, List.mem_cons_self, hr⟩
    · exact .inl ⟨newId, List.mem_cons_of_mem _ List.mem_cons_self, hr⟩
    · rw [List.prefix_nil.mp hq] at he
      exact he.elim (absurd · not_atEntry_root) (absurd · not_atEntry_root)
  | lopen | «open» | readlink | getattr | setattr | read | remove => exact self rfl hr
  | lcreate | symlink | mknod | mkdir | unlinkat =>
    exact self rfl (hr.resolve_right not_atEntry_root)
  | version | flush | fsync | write | clunk | unknown => cases hr

/-- **A request keeps to its own keys.** -/
theorem ownKeys (hv : s.ValidPaths) (hn : s.Named) (r : Request) : s.OwnKeys r where
  owner p hp := by
    have hvalid := hp.valid hv hn
    refine ⟨hvalid, fun q hq he => ?_⟩
    rw [relative_hostNames hq] at he
    exact hq.eq_of_key_eq hvalid he
  reads t ha := perform_alike hv r ha
  writes := perform_rewrites hv r
  rootUnread hr t ht := by
    refine perform_alike_of_agree hv (fun p hp => hp.1) (fun p hp => ?_) fun p hp => ?_
    · refine ⟨hp.valid hv hn, ?_⟩
      rintro rfl
      exact hr (onRoot_of_touches hp)
    · exact ht _ ((key_eq_root_iff hp.1).not.mpr hp.2)
  rootKept hr :=
    overlay_of_not_writes hv GuestPath.valid_nil fun hw => hr (onRoot_of_touches hw.2.1)

end Share

/-! ## Records under keys of paths -/

namespace Store

variable {s s' : Store} {p old new : GuestPath}

theorem Keyed.of_overlay (hk : s.Keyed) (he : ∀ k, s'.overlay k = s.overlay k) : s'.Keyed :=
  fun k hb => hk k (he k ▸ hb)

theorem Keyed.rename (hk : s.Keyed) (ho : old.Valid) (hn : new.Valid) (hone : old ≠ [])
    (hnne : new ≠ []) : (s.rename old.key new.key).Keyed := by
  by_cases hsame : old.key = new.key
  · rw [hsame, rename_self]
    exact hk
  intro k hb
  cases hs : suffix? new.key k with
  | none =>
    rw [overlay_rename_of_none hsame hs] at hb
    split_ifs at hb
    · exact absurd rfl hb
    · exact hk k hb
  | some tail =>
    rw [overlay_rename hsame hs] at hb
    obtain ⟨hkey, htail⟩ := suffix?_eq_some_iff.mp hs
    obtain ⟨q, hq, he⟩ := hk _ hb
    obtain ⟨rest, rfl, rfl⟩ := (ho.suffix?_key_eq_some_iff hq hone).mp
      (suffix?_eq_some_iff.mpr ⟨he, htail⟩)
    exact ⟨new ++ rest, hn.append hq.of_append_right, by rw [GuestPath.key_append hnne, hkey]⟩

theorem Rewrites.keyed {P : GuestPath → Prop} (hr : s.Rewrites P s') (hP : ∀ p, P p → p.Valid)
    (hk : s.Keyed) : s'.Keyed := by
  cases hr with
  | nothing records => exact hk.of_overlay records
  | @put p o own records =>
    intro k hb
    rw [records] at hb
    split_ifs at hb with hkey
    · exact ⟨p, hP p own, hkey.symm⟩
    · exact hk k hb
  | @move old new old_ne new_ne own_old own_new records =>
    have hold : old.Valid := valid_of_below hP own_old
    have hnew : new.Valid := valid_of_below hP own_new
    exact (hk.rename hold hnew old_ne new_ne).of_overlay records

end Store

namespace Share

variable {s s₀ t : Share} {h : Host} {o : ShareOptions} {log : List Moment}

/-! ## Histories -/

theorem start_validPaths (hs : (start o h).1 = .ok s₀) : s₀.ValidPaths := by
  obtain ⟨-, -, -, -, hfids⟩ := start_eq_ok hs
  exact fun _ _ hk => by simp [hfids] at hk

theorem History.validPaths (hr : s₀.History log t) (h₀ : s₀.ValidPaths) : t.ValidPaths := by
  refine hr.invariant h₀ fun x _ hv => x.holds_after hv (fun m _ => ?_) ?_ fun _ _ => hv
  · exact validPaths_congr (perform_validPaths hv m.body) rfl
  · exact fun _ _ hk => by simp [reset] at hk

theorem History.keyed (hr : s₀.History log t) (h₀ : s₀.ValidPaths) (hk : s₀.store.Keyed) :
    t.store.Keyed := by
  refine hr.invariant (P := fun s => s.store.Keyed) hk fun x hx hk => ?_
  obtain ⟨front, hfront, -⟩ := hr.before hx
  refine x.holds_after (P := fun s => s.store.Keyed) hk (fun m _ => ?_) hk fun _ _ => hk
  have hwrites := perform_rewrites (hfront.validPaths h₀) m.body
  exact (hwrites.keyed (fun _ hp => hp.1) hk).of_overlay Store.flush_sameRecords.overlay

/-- **Paths and keys go together at any time.** The path of every fid is that of the exported
directory with names of entries behind it; keys tell such paths apart; and every request keeps to
the records of its own paths. If the records were under keys of paths at first, they are so ever
after, and no others change. -/
theorem run_ownKeys (hw : h.WellFormed) (hh : h.Named) (hs : (start o h).1 = .ok s₀)
    (hlog : ∀ x ∈ log, ∀ h', x.happening = .host h' → h'.Named) (hr : s₀.History log t) :
    t.root = s₀.root ∧
      (∀ (id : FidId) (fid : Fid), t.fids[id]? = some fid →
        fid.path.Valid ∧ t.hostNames fid.path = s₀.root ++ fid.path.map Name.ofText) ∧
      t.DistinctKeys ∧ (∀ r, t.OwnKeys r) ∧
      (s₀.store.Keyed → t.store.Keyed ∧ ∀ r k,
        (t.perform r).2.store.overlay k ≠ t.store.overlay k → ∃ p, t.Writes r p ∧ p.key = k) := by
  have hroot : t.root = s₀.root := hr.root_eq
  have hv₀ : s₀.ValidPaths := start_validPaths hs
  have hv : t.ValidPaths := hr.validPaths hv₀
  have hn : t.Named := hr.named (start_named hw hh hs) hlog
  refine ⟨hroot, fun id fid hid => ⟨hv id fid hid, ?_⟩, distinctKeys t, ownKeys hv hn, ?_⟩
  · rw [← hroot]
    rfl
  · intro hk₀
    have hk : t.store.Keyed := hr.keyed hv₀ hk₀
    refine ⟨hk, fun r k hne => ?_⟩
    have hwrites := perform_rewrites hv r
    have hk' : (t.perform r).2.store.Keyed := hwrites.keyed (fun _ hp => hp.1) hk
    obtain ⟨p, hp, rfl⟩ : ∃ p : GuestPath, p.Valid ∧ p.key = k := by
      by_cases hb : t.store.overlay k = .blank
      · exact hk' k (hb ▸ hne)
      · exact hk k hb
    refine ⟨p, ?_, rfl⟩
    by_contra hw
    exact hne (overlay_of_not_writes hv hp hw)

/-- A client makes a directory and walks there. -/
def descent : List Happening :=
  [.frame attachFrame, .frame (requestFrame (.mkdir 0 "a" 0o755 0)),
    .frame (requestFrame (.walk 0 1 ["a"]))]

theorem run_descent :
    ((start ⟨"/export", "/meta", defaultIounit⟩ (.empty ⟨0, 0⟩)).1.map fun s =>
      (descent.foldl take s).fids[(1 : FidId)]?) = .ok (some ⟨["a"], 0, .unopened⟩) := by
  cbv

/-- The directory has a key of its own, in a store that had no records. -/
theorem run_ownKeys_descent :
    ∃ s₀ log t, (start ⟨"/export", "/meta", defaultIounit⟩ (.empty ⟨0, 0⟩)).1 = .ok s₀ ∧
      s₀.History log t ∧ t.fids[(1 : FidId)]? = some ⟨["a"], 0, .unopened⟩ ∧
      t.relative (t.hostNames ["a"]) = "a" ∧ t.store.Keyed := by
  obtain ⟨s₀, hs, hk₀⟩ : ∃ s₀, (start ⟨"/export", "/meta", defaultIounit⟩ (.empty ⟨0, 0⟩)).1 =
      .ok s₀ ∧ s₀.store.Keyed := ⟨_, rfl, fun k hb => absurd rfl hb⟩
  have hid : (descent.foldl take s₀).fids[(1 : FidId)]? = some ⟨["a"], 0, .unopened⟩ := by
    have hrun := run_descent
    rw [hs] at hrun
    exact Except.ok.inj hrun
  have hempty : (Host.empty ⟨0, 0⟩).Named := fun d name i he => by
    rw [Host.child?_empty] at he
    cases he
  have hr : s₀.History ([] ++ s₀.log descent) (descent.foldl take s₀) := .extend .start descent
  have hlog : ∀ x ∈ [] ++ s₀.log descent, ∀ h', x.happening = .host h' → h'.Named := by
    intro x hx h' he
    simp only [descent, List.nil_append, Share.log, List.mem_cons, List.not_mem_nil,
      or_false] at hx
    rcases hx with rfl | rfl | rfl <;> cases he
  obtain ⟨-, hfids, hdistinct, -, hkeyed⟩ :=
    run_ownKeys (Host.wellFormed_empty _) hempty hs hlog hr
  have hvalid := (hfids 1 _ hid).1
  exact ⟨s₀, _, _, hs, hr, hid, hdistinct.joined ["a"] hvalid (by simp), (hkeyed hk₀).1⟩

end Share

end GuestShare
