import GuestShare.Proofs.Share.Effect
import GuestShare.Proofs.Share.History
import GuestShare.Proofs.Text.Lossy

/-!
# Names of entries

A file system has no entries without a name, and none whose name is a dot or two, or holds a slash
or a NUL. What the server makes on its host has such names, so all that it ever lists has.

* `Host.Named`: a host with such names, as far as they are text.
* `Path.Named`: a path that goes down by such names.
* `Share.Named`: a share on such a host, all of whose fids list such names.
* **`perform_named`**, **`History.named`**: it stays one.
-/

namespace GuestShare

/-- The entries whose names are text have names of entries. -/
def Host.Named (h : Host) : Prop :=
  ∀ (d : Ino) (name : String) (i : Ino), h.child? d (Name.ofText name) = some i →
    isEntryName name = true

/-- The names are names of entries, as far as they are text and can be looked up. -/
def Path.Named (p : Path) : Prop :=
  ∀ name : String, .down (Name.ofText name) ∈ p.steps →
    (Name.ofText name).contains Name.nul = false → isEntryName name = true

/-! ## Paths -/

theorem isPlainName_of_bytes {name : String} (hempty : Name.ofText name ≠ [])
    (hslash : Name.slash ∉ Name.ofText name) (hnul : Name.nul ∉ Name.ofText name) :
    isPlainName name = true := by
  have hname : name ≠ "" := by
    rintro rfl
    exact hempty rfl
  have hslash' : '/' ∉ name.toList := fun hc => hslash (Bytes.mem_ofText hc (by decide))
  have hnul' : '\x00' ∉ name.toList := fun hc => hnul (Bytes.mem_ofText hc (by decide))
  simp [isPlainName, hname, String.contains_char_eq, hslash', hnul']

namespace Path

variable {p q : Path}

theorem slash_not_mem_of_mem_pieces {bs piece : Bytes} (hp : piece ∈ pieces bs) :
    Name.slash ∉ piece := by
  unfold pieces at hp
  induction bs generalizing piece with
  | nil =>
    obtain rfl := List.mem_singleton.mp hp
    exact List.not_mem_nil
  | cons b bs ih =>
    simp only [List.foldr_cons] at hp
    split_ifs at hp with hb
    · rcases List.mem_cons.mp hp with rfl | hp
      · exact List.not_mem_nil
      · exact ih hp
    · split at hp
      next =>
        obtain rfl := List.mem_singleton.mp hp
        simpa using Ne.symm hb
      next first rest hps =>
        rw [hps] at ih
        rcases List.mem_cons.mp hp with rfl | hp
        · rw [List.mem_cons, not_or]
          exact ⟨Ne.symm hb, ih List.mem_cons_self⟩
        · exact ih (List.mem_cons_of_mem _ hp)

/-- **A path that is read from a text goes down by names of entries.** -/
theorem named_parse (bs : Bytes) : (parse bs).Named := by
  intro name hname hnul
  obtain ⟨piece, hpiece, hstep⟩ := List.mem_filterMap.mp hname
  unfold Step.ofPiece? at hstep
  split_ifs at hstep with hempty hdot hdots
  · cases hstep
  · cases hstep
  · obtain rfl : piece = Name.ofText name := Step.down.inj (Option.some.inj hstep)
    have hplain : isPlainName name = true := by
      refine isPlainName_of_bytes ?_ (slash_not_mem_of_mem_pieces hpiece) ?_
      · simpa using hempty
      · simpa using hnul
    refine isEntryName_iff.mpr ⟨hplain, ?_, ?_⟩
    · rintro rfl
      exact hdot rfl
    · rintro rfl
      exact hdots rfl

theorem Named.of_subset (hp : p.Named) (hs : q.steps ⊆ p.steps) : q.Named :=
  fun name hn => hp name (hs hn)

theorem Named.ancestors (hp : p.Named) : ∀ q ∈ p.ancestors, q.Named := by
  intro q hq
  unfold Path.ancestors at hq
  split at hq
  next => cases hq
  next =>
    rcases List.mem_cons.mp hq with rfl | hq
    · exact hp
    · obtain ⟨n, -, rfl⟩ := List.mem_map.mp hq
      exact hp.of_subset (List.Subset.trans (List.take_subset _ _) moves_subset)

end Path

/-! ## Hosts -/

namespace Host

variable {h h' : Host} {d i : Ino} {name : Name} {b : Body} {mode : UInt32} {ps : List Path}
  {p : Path}

theorem Named.of_child? (hn : h.Named)
    (hc : ∀ d name i, h'.child? d name = some i → h.child? d name = some i) : h'.Named :=
  fun d name i he => hn d name i (hc d _ i he)

theorem Named.sameTree (hn : h.Named) (hs : SameTree h h') : h'.Named :=
  hn.of_child? fun d name _ he => (hs.child? d name).symm.trans he

theorem Named.descend {ns : List Name} {s : String} (hn : h.Named) (hd : h.descend d ns = some i)
    (hs : Name.ofText s ∈ ns) : isEntryName s = true := by
  obtain ⟨front, back, rfl⟩ := List.append_of_mem hs
  rw [descend_append] at hd
  obtain ⟨e, -, hd⟩ := Option.bind_eq_some_iff.mp hd
  obtain ⟨j, hj, -⟩ := Option.bind_eq_some_iff.mp hd
  exact hn e s j hj

theorem Named.unbind (hn : h.Named) : (h.unbind d name).Named :=
  hn.of_child? fun _ _ _ he => child?_of_unbind he

theorem Named.bind (hn : h.Named) (hname : ∀ s, name = Name.ofText s → isEntryName s = true) :
    (h.bind d name i).Named := by
  intro e s j he
  rw [child?_bind] at he
  split_ifs at he with hnew
  · exact hname s hnew.2.1.symm
  · exact hn e s j he

theorem Named.create (hn : h.Named) (hb : b.Bare)
    (hname : ∀ s, name = Name.ofText s → isEntryName s = true) :
    (h.create d name b mode).2.Named :=
  Named.bind (hn.of_child? fun e n _ he => (child?_alloc hb e n).symm.trans he) hname

theorem isEntryName_of_ofText {s t : String} (ht : isEntryName t = true)
    (he : Name.ofText t = Name.ofText s) : isEntryName s = true :=
  Bytes.ofText_injective he ▸ ht

theorem Named.makes (hn : h.Named) (hm : Makes ps h h') (hps : ∀ p ∈ ps, p.Named) : h'.Named := by
  induction hm with
  | refl => exact hn
  | step _ hp ho ih =>
    obtain ⟨front, name, dir, hsteps, hnul, -, -, rfl⟩ := makeDir_eq_ok ho
    refine ih.create Body.bare_directory fun s hs => hps _ hp s ?_ ?_
    · rw [hsteps, hs]
      exact List.mem_append_right _ List.mem_cons_self
    · rw [hsteps, List.any_append, Bool.or_eq_false_iff] at hnul
      simpa [Step.hasNul, hs] using hnul.2

theorem Named.makeDirs (hn : h.Named) (hp : p.Named) : (makeDirs p h).2.Named :=
  hn.makes makeDirs_makes hp.ancestors

end Host

namespace Store

variable {s : Store} {h h' top : Host}

theorem isEntryName_fileName (c : Category) : isEntryName c.fileName = true := by
  have hplain : isPlainName c.fileName = true := by
    apply isPlainName_of_bytes <;> cases c <;> decide
  refine isEntryName_iff.mpr ⟨hplain, ?_, ?_⟩ <;> cases c <;> decide

theorem Writes.named (hw : Writes s top h h') (hn : h.Named) : h'.Named := by
  induction hw with
  | refl => exact hn
  | touch _ _ ih => exact ih.of_child? fun _ _ _ he => by rwa [Host.child?_modifyEntries_id] at he
  | write _ _ _ _ _ ih =>
    exact ih.create (Body.bare_file _) fun _ hs =>
      Host.isEntryName_of_ofText (isEntryName_fileName _) hs

theorem named_dirPath (dir : String) : (dirPath dir).Named := by
  unfold dirPath
  simp only
  split_ifs
  · intro name hname
    simp at hname
  · exact Path.named_parse _

/-- **Writing the records makes entries under such names only.** -/
theorem flush_named (hn : h.Named) : (s.flush h).2.2.Named := by
  obtain hsame | hw := s.flush_writes (h := h)
  · rwa [hsame]
  · exact hw.named (hn.makeDirs (named_dirPath s.dir))

end Store

/-! ## Shares -/

namespace Share

/-- The share is on a host whose entries have names of entries, and all that its fids have listed
are such names. -/
structure Named (s : Share) : Prop where
  host : s.host.Named
  root : (Path.ofNames s.root).Named
  listed : ∀ (id : FidId) (fid : Fid) names, s.fids[id]? = some fid → fid.handle = .dir names →
    ∀ name ∈ names, isEntryName name = true

variable {s s' : Share} {p : GuestPath} {name : String} {names : List String} {id : FidId}
  {fid : Fid} {h : Host} {b : Body} {r : Request} {x : Except ShareError Reply}

/-- What a fid has listed are names of entries. -/
def ListsEntries (fid : Fid) : Prop :=
  ∀ names, fid.handle = .dir names → ∀ name ∈ names, isEntryName name = true

theorem Named.on (hn : s.Named) (hh : h.Named) : (s.on h).Named := ⟨hh, hn.root, hn.listed⟩

theorem Named.recorded {store : Store} (hn : s.Named) : ({ s with store } : Share).Named :=
  ⟨hn.host, hn.root, hn.listed⟩

theorem Named.bindFid (hn : s.Named) (hf : ListsEntries fid) : (s.bindFid id fid).Named :=
  ⟨hn.host, hn.root, fun _ _ names hk hd =>
    Fids.of_insert (P := ListsEntries) (fun k f hk ns hd => hn.listed k f ns hk hd) hf hk names hd⟩

theorem Named.dropFid (hn : s.Named) : (s.dropFid id).Named :=
  ⟨hn.host, hn.root, fun _ _ names hk hd =>
    Fids.of_erase (P := ListsEntries) (fun k f hk ns hd => hn.listed k f ns hk hd) hk names hd⟩

theorem Named.listing (hn : s.Named) (hl : s.listing p = .ok names) :
    ∀ name ∈ names, isEntryName name = true := by
  obtain ⟨ns, hns, hl⟩ := Outcome.bind_eq_ok_iff.mp hl
  cases hl
  obtain ⟨place, -, hlist⟩ := Outcome.bind_eq_ok_iff.mp (Outcome.mapError_eq_ok_iff.mp hns)
  obtain ⟨es, hes, hlist⟩ := Outcome.bind_eq_ok_iff.mp hlist
  cases hlist
  intro name hname
  obtain ⟨bs, hbs, hname⟩ := List.mem_filterMap.mp hname
  obtain rfl := Bytes.toText?_eq_some_iff.mp hname
  rw [Std.ExtTreeMap.mem_keys, ← Std.ExtTreeMap.isSome_getElem?_iff_mem] at hbs
  obtain ⟨i, hi⟩ := Option.isSome_iff_exists.mp hbs
  exact hn.host place.ino name i
    (Host.child?_eq_some_iff.mpr ⟨es, Host.entriesAt_eq_ok_iff.mp hes, hi⟩)

theorem Makes.named (hm : s.Makes p name b h) (hn : s.host.Named) (hb : b.Bare)
    (hname : isEntryName name = true) : h.Named := by
  obtain ⟨dir, mode, -, -, -, rfl⟩ := hm
  exact hn.create hb fun _ => Host.isEntryName_of_ofText hname

theorem Alters.named (ha : s.Alters h) (hn : s.Named) : h.Named := by
  cases ha with
  | same => exact hn.host
  | makeRoot made => exact made ▸ hn.host.makeDirs hn.root
  | edit edits => exact hn.host.sameTree edits.sameTree
  | make makes bare entry => exact makes.named hn.host bare entry
  | move entry' renames =>
    obtain ⟨-, rfl⟩ | ⟨-, -, rfl⟩ := renames.tree
    · exact hn.host
    · exact hn.host.unbind.bind fun _ => Host.isEntryName_of_ofText entry'
  | unlink => exact hn.host.unbind

theorem Act.listsEntries (ha : Act s r x s') (hn : s.Named) :
    ∀ (id : FidId) fid, s'.fids[id]? = some fid → ListsEntries fid := by
  have old : ∀ (k : FidId) f, s.fids[k]? = some f → ListsEntries f := fun k f hk names hd =>
    hn.listed k f names hk hd
  have bound : ∀ {id : FidId} {fid : Fid}, ListsEntries fid →
      ∀ (k : FidId) f, (s.fids.insert id fid)[k]? = some f → ListsEntries f := fun hf _ _ hk =>
    Fids.of_insert (P := ListsEntries) old hf hk
  have dropped : ∀ {id : FidId} (k : FidId) f, (s.fids.erase id)[k]? = some f → ListsEntries f :=
    fun _ _ hk => Fids.of_erase (P := ListsEntries) old hk
  cases ha with
  | begin => exact fun _ _ hk => by simp [reset] at hk
  | attach | walk => exact bound fun _ hd => by cases hd
  | «open» opening source node opened =>
    refine bound fun names hd => ?_
    obtain rfl := hd
    cases opened with
    | dir listed => exact hn.listing listed
  | create source entry there after =>
    subst after
    exact bound fun _ hd => by cases hd
  | make source entry makes records after =>
    subst after
    exact old
  | move =>
    exact fun _ _ hk => Fids.of_relocate (P := ListsEntries) old (fun _ _ _ hf => hf) hk
  | remove | drop => exact dropped
  | _ => exact old

/-- **Every request keeps the names of entries.** -/
theorem perform_named (hn : s.Named) (r : Request) : (s.perform r).2.Named where
  host := (perform_act rfl).alters.named hn
  root := (perform_evolves s r).root_eq ▸ hn.root
  listed id fid names hid := (perform_act rfl).listsEntries hn id fid hid names

theorem flushRecords_named (hn : s.Named) : s.flushRecords.2.Named :=
  ⟨s.store.flush_named hn.host, hn.root, hn.listed⟩

/-! ## Histories -/

variable {s₀ t : Share} {log : List Moment} {o : ShareOptions}

theorem start_named (hw : h.WellFormed) (hh : h.Named) (hs : (start o h).1 = .ok s₀) :
    s₀.Named := by
  obtain ⟨-, hhost, -, -, hfids⟩ := start_eq_ok hs
  have hnamed : s₀.host.Named := hhost ▸ hh.makeDirs (Path.named_parse _)
  obtain ⟨i, hi, -⟩ := (start_sound hw hs).root
  refine ⟨hnamed, fun name hname _ => hnamed.descend hi ?_, fun _ _ _ hk _ => by simp [hfids] at hk⟩
  obtain ⟨n, hn, hstep⟩ := List.mem_map.mp hname
  cases hstep
  exact hn

/-- **Names stay names of entries**, if nobody else makes others. -/
theorem History.named (hr : s₀.History log t) (h₀ : s₀.Named)
    (hh : ∀ x ∈ log, ∀ h, x.happening = .host h → h.Named) : t.Named := by
  refine hr.invariant h₀ fun x hx hn => x.holds_after hn (fun m _ => ?_) ?_ fun h he => ?_
  · exact flushRecords_named (perform_named hn m.body)
  · exact ⟨hn.host, hn.root, fun _ _ _ hk _ => by simp [reset] at hk⟩
  · exact hn.on (hh x hx h he)

end Share

end GuestShare
