import GuestShare.Proofs.Metadata.CategoryFile
import GuestShare.Proofs.Metadata.Flush
import GuestShare.Proofs.Host.Missing

/-!
# Records on the disk

Between two writes a ledger that is not pending is as its files have it, and writing makes more
ledgers so. This needs the files of the records for themselves: a category file that is a link to
another one changes together with it, and a metadata path that goes up may lead to files that were
out of reach before.

* `Store.SettledAt`: a ledger is as its files have it, unless it is pending.
* `Store.PlainFiles`: none of the files in the metadata directory is a link.
* `Store.SameFiles`: hosts with the same files in the metadata directory.
* `Store.OnDisk`: what is not pending is on the disk.
* **`OnDisk.flush`**, **`hasPending_flush`**: writing keeps it there, and if it succeeds nothing is
  pending any more.
-/

namespace GuestShare

namespace Host

variable {h h' : Host} {path : Path} {place : Place} {name : Name} {i d : Ino} {bs : Bytes}

/-! ## Reading files -/

/-- The bytes of a node. -/
def readNode (h : Host) (i : Ino) : Except HostError Bytes :=
  match h.body? i with
  | none => .error .notFound
  | some (.file c) => .ok c.toList
  | some (.directory _) => .error .isDirectory
  | some (.link _) => .error .tooManyLinks
  | some .fifo => .error .noSeek
  | some .socket => .error .noDevice

theorem readNode_congr (hb : h'.body? i = h.body? i) : h'.readNode i = h.readNode i := by
  unfold readNode
  rw [hb]

theorem readNode_of_isDirectory (hd : h.isDirectory i = true) :
    h.readNode i = .error .isDirectory := by
  obtain ⟨es, hes⟩ := isDirectory_iff.mp hd
  unfold readNode
  rw [hes]

theorem openNode_readAll :
    (h.openNode i .reading >>= fun (d, h) => d.readAll h) = h.readNode i := by
  unfold openNode readNode
  cases hb : h.body? i with
  | none => rfl
  | some b =>
    cases b <;>
      simp [OpenHow.changes, OpenHow.reading, OpenHow.descriptor, Descriptor.readAll, hb]

theorem leadsToDirectory_of_fileBytes (he : path.isEmpty = false)
    (ho : h.fileBytes (path.child name) = .ok bs) : h.leadsToDirectory path = true := by
  obtain ⟨⟨d, h₁⟩, hopen, -⟩ := Outcome.bind_eq_ok_iff.mp ho
  obtain ⟨place, hf, -, -⟩ | ⟨_, _, -, hnever, -⟩ := openAt_eq_ok hopen
  · obtain ⟨-, hnul, hlead, -⟩ := find_follow_eq_ok_iff.mp hf
    obtain ⟨dir, hdir, hd, -⟩ := walk_lastFrom (hlead : h.Leads _ (path.steps ++ [.down name]) _)
    refine leadsToDirectory_iff.mpr ⟨dir, find_follow_eq_ok_iff.mpr ⟨he, ?_, hdir, fun _ => hd⟩, hd⟩
    rw [Path.child, List.any_append, Bool.or_eq_false_iff] at hnul
    exact hnul.1
  · exact absurd rfl hnever

theorem fileBytes_child (hp : h.HasDir path place) (hn : Fits name)
    (hl : ∀ i, h.child? place.ino name = some i → h.target? i = none) :
    h.fileBytes (path.child name) =
      match h.child? place.ino name with
      | none => .error .notFound
      | some i => h.readNode i := by
  obtain ⟨hf, hd⟩ := hp
  obtain ⟨-, hnul, hlead, -⟩ := find_follow_eq_ok_iff.mp hf
  have hlook : h.lookup place name = .ok (h.child? place.ino name) :=
    lookup_eq_ok_iff.mpr ⟨hd, hn.2, rfl⟩
  have hwalk : h.walk .follow maxLinks (h.origin path.absolute) (path.steps ++ [.down name]) =
      h.enter (.down name) (.node place) := by
    have hlead' : h.walk .follow maxLinks (h.origin path.absolute) path.steps =
        .ok (.node place) := hlead
    rw [walk_concat, hlead']
    · rfl
    · intro dir m i hdir hm he
      rw [hlead'] at hdir
      cases hdir
      cases hm
      exact .inr (hl i he)
  have hlocate : h.locate .follow (path.child name) = h.enter (.down name) (.node place) := by
    unfold locate
    have hempty : (path.child name).isEmpty = false := by simp [Path.isEmpty, Path.child]
    have hnul' : (path.child name).steps.any Step.hasNul = false := by
      rw [Path.child, List.any_append, hnul]
      simpa [Step.hasNul] using hn.1
    rw [hempty, hnul', ← hwalk]
    rfl
  unfold fileBytes openAt
  simp only [OpenHow.reading, ne_eq, not_true_eq_false, decide_false, Bool.false_and,
    Bool.false_eq_true, if_false, hlocate, enter, hlook, Outcome.ok_bind, reduceCtorEq]
  cases h.child? place.ino name with
  | none => rfl
  | some i => exact openNode_readAll

theorem body?_modifyEntries_id : (h.modifyEntries d id).body? i = h.body? i := by
  by_cases hi : i = d
  · subst hi
    unfold modifyEntries
    split
    next es hes =>
      have hb := entries?_eq_some_iff.mp hes
      rw [hb]
      unfold body? at hb ⊢
      rw [setBody, node?_modify, if_pos rfl]
      cases hn : h.node? i with
      | none =>
        rw [hn] at hb
        cases hb
      | some n => rfl
    next => rfl
  · exact body?_modifyEntries_ne hi

end Host

namespace Store

variable {s : Store} {h h' : Host} {dir : Path} {place : Place} {name : Name} {i : Ino}
  {c c' : Category} {cs : List Category} {bs : Bytes}

/-! ## Category files -/

/-- A name of a category file, as it is now or as it was before. -/
def IsFileName (name : Name) : Prop :=
  ∃ c : Category, name = Name.ofText c.fileName ∨ name = Name.ofText c.olderFileName

theorem IsFileName.fits (hn : IsFileName name) : Host.Fits name := by
  obtain ⟨c, rfl | rfl⟩ := hn
  · exact fits_fileName c
  · cases c <;> exact ⟨by decide, by decide⟩

theorem isFileName_fileName (c : Category) : IsFileName (Name.ofText c.fileName) :=
  ⟨c, .inl rfl⟩

theorem isFileName_olderFileName (c : Category) : IsFileName (Name.ofText c.olderFileName) :=
  ⟨c, .inr rfl⟩

theorem fileName_ne (hc : c' ≠ c) : Name.ofText c'.fileName ≠ Name.ofText c.fileName := by
  cases c <;> cases c' <;> first | exact absurd rfl hc | decide

theorem olderFileName_ne (c c' : Category) :
    Name.ofText c'.olderFileName ≠ Name.ofText c.fileName := by
  cases c <;> cases c' <;> decide

theorem dirPath_isEmpty (dir : String) : (dirPath dir).isEmpty = false := by
  unfold dirPath
  cases he : (Path.ofText dir).isEmpty with
  | true =>
    simp only [he, if_true]
    rfl
  | false => simp only [he, Bool.false_eq_true, if_false]

/-- Two hosts from which a category is loaded alike. -/
def SameLoad (dir : Path) (c : Category) (h h' : Host) : Prop :=
  ∀ {α : Type} (p : Payload α) (older : JsonValue → Option (List (String × α))),
    loadRecords p older c dir h' = loadRecords p older c dir h

theorem SameLoad.trans {h'' : Host} (h₁ : SameLoad dir c h h') (h₂ : SameLoad dir c h' h'') :
    SameLoad dir c h h'' := fun p older => (h₂ p older).trans (h₁ p older)

theorem fileBytes_of_not_leads (he : dir.isEmpty = false) (hl : h.leadsToDirectory dir = false)
    (bs : Bytes) : h.fileBytes (dir.child name) ≠ .ok bs := by
  intro ho
  rw [Host.leadsToDirectory_of_fileBytes he ho] at hl
  cases hl

theorem loadRecords_of_unreadable {α : Type} {p : Payload α}
    {older : JsonValue → Option (List (String × α))}
    (hno : ∀ name, name = Name.ofText c.fileName ∨ name = Name.ofText c.olderFileName →
      ∀ bs, h.fileBytes (dir.child name) ≠ .ok bs) : loadRecords p older c dir h = ∅ := by
  unfold loadRecords
  split
  next bs ho => exact absurd ho (hno _ (.inl rfl) bs)
  next =>
    split
    next bs ho => exact absurd ho (hno _ (.inr rfl) bs)
    next => rfl
  next => rfl

theorem loadRecords_of_not_leads {α : Type} {p : Payload α}
    {older : JsonValue → Option (List (String × α))} (he : dir.isEmpty = false)
    (hl : h.leadsToDirectory dir = false) : loadRecords p older c dir h = ∅ :=
  loadRecords_of_unreadable fun _ _ => fileBytes_of_not_leads he hl

theorem sameLoad_of_not_leads (he : dir.isEmpty = false) (hl : h.leadsToDirectory dir = false)
    (hl' : h'.leadsToDirectory dir = false) : SameLoad dir c h h' := fun _ _ => by
  rw [loadRecords_of_not_leads he hl, loadRecords_of_not_leads he hl']

theorem sameLoad_of_fileBytes
    (hf : ∀ name, name = Name.ofText c.fileName ∨ name = Name.ofText c.olderFileName →
      h'.fileBytes (dir.child name) = h.fileBytes (dir.child name)) : SameLoad dir c h h' := by
  intro _ p older
  unfold loadRecords
  rw [hf _ (.inl rfl), hf _ (.inr rfl)]

/-- None of the files in the metadata directory is a link. -/
def PlainFiles (dir : Path) (h : Host) : Prop :=
  ∀ place name i, h.HasDir dir place → IsFileName name → h.child? place.ino name = some i →
    ∃ b, h.body? i = some b ∧ b.isLink = false

theorem PlainFiles.target? (hp : PlainFiles dir h) (hd : h.HasDir dir place)
    (hn : IsFileName name) (he : h.child? place.ino name = some i) : h.target? i = none := by
  obtain ⟨b, hb, hlink⟩ := hp place name i hd hn he
  unfold Host.target?
  rw [hb]
  cases b <;> first | rfl | cases hlink

theorem PlainFiles.fileBytes (hp : PlainFiles dir h) (hd : h.HasDir dir place)
    (hn : IsFileName name) :
    h.fileBytes (dir.child name) =
      match h.child? place.ino name with
      | none => .error .notFound
      | some i => h.readNode i :=
  Host.fileBytes_child hd hn.fits fun _ he => hp.target? hd hn he

theorem plainFiles_of_not_leads (hl : h.leadsToDirectory dir = false) : PlainFiles dir h := by
  intro place name i hd
  rw [Host.leadsToDirectory_iff_hasDir.mpr ⟨place, hd⟩] at hl
  cases hl

/-- Two hosts with the same files in the metadata directory. -/
structure SameFiles (dir : Path) (h h' : Host) : Prop where
  hasDir : ∀ place, h'.HasDir dir place ↔ h.HasDir dir place
  child? : ∀ place name, h.HasDir dir place → IsFileName name →
    h'.child? place.ino name = h.child? place.ino name
  body? : ∀ place name i, h.HasDir dir place → IsFileName name →
    h.child? place.ino name = some i → h'.body? i = h.body? i

theorem SameFiles.refl (dir : Path) (h : Host) : SameFiles dir h h :=
  ⟨fun _ => Iff.rfl, fun _ _ _ _ => rfl, fun _ _ _ _ _ _ => rfl⟩

theorem SameFiles.leadsToDirectory (hs : SameFiles dir h h') :
    h'.leadsToDirectory dir = h.leadsToDirectory dir := by
  rw [Bool.eq_iff_iff, Host.leadsToDirectory_iff_hasDir, Host.leadsToDirectory_iff_hasDir]
  simp only [hs.hasDir]

theorem SameFiles.plainFiles (hs : SameFiles dir h h') (hp : PlainFiles dir h) :
    PlainFiles dir h' := by
  intro place name i hd hn he
  have hd' := (hs.hasDir place).mp hd
  rw [hs.child? place name hd' hn] at he
  rw [hs.body? place name i hd' hn he]
  exact hp place name i hd' hn he

theorem SameFiles.fileBytes (hs : SameFiles dir h h') (hp : PlainFiles dir h)
    (hd : h.HasDir dir place) (hn : IsFileName name) :
    h'.fileBytes (dir.child name) = h.fileBytes (dir.child name) := by
  rw [hp.fileBytes hd hn, (hs.plainFiles hp).fileBytes ((hs.hasDir place).mpr hd) hn,
    hs.child? place name hd hn]
  cases hi : h.child? place.ino name with
  | none => rfl
  | some i => exact Host.readNode_congr (hs.body? place name i hd hn hi)

theorem SameFiles.sameLoad (hs : SameFiles dir h h') (hp : PlainFiles dir h)
    (he : dir.isEmpty = false) : SameLoad dir c h h' := by
  cases hl : h.leadsToDirectory dir with
  | false => exact sameLoad_of_not_leads he hl (hs.leadsToDirectory.trans hl)
  | true =>
    obtain ⟨place, hd⟩ := Host.leadsToDirectory_iff_hasDir.mp hl
    exact sameLoad_of_fileBytes fun name hname => hs.fileBytes hp hd ⟨c, hname⟩

/-! ## A file written -/

theorem hasDir_written (hp : PlainFiles dir h) (hd : h.HasDir dir place)
    (hno : ∀ i, h.child? place.ino (Name.ofText c.fileName) = some i → h.isDirectory i = false)
    {q : Place} : (written h place c bs).HasDir dir q ↔ h.HasDir dir q :=
  Host.hasDir_congr
    (Host.create_grows hd.2 (Body.bare_file _) fun i hi =>
      ⟨hno i hi, hp.target? hd (isFileName_fileName c) hi⟩)
    (Host.create_file_grows hd.2)

theorem child?_written (hd : h.isDirectory place.ino = true) :
    (written h place c bs).child? place.ino name =
      if name = Name.ofText c.fileName then some h.nodes.size else h.child? place.ino name := by
  rw [written, Host.child?_create (Body.bare_file _) hd]
  simp

theorem body?_written_size (hd : h.isDirectory place.ino = true) :
    (written h place c bs).body? h.nodes.size = some (.file (.ofBytes bs)) := by
  rw [written, Host.body?_of_node?
    (Host.node?_create_size (Nat.ne_of_lt (Host.lt_size_of_isDirectory hd)))]

theorem body?_written (hi : i ≠ place.ino) {b : Body} (hb : h.body? i = some b) :
    (written h place c bs).body? i = some b := by
  have hne : i ≠ h.nodes.size := by
    rintro rfl
    simp [Host.body?, Host.node?_size] at hb
  unfold Host.body? at hb ⊢
  rw [written, Host.node?_create_ne hi hne, hb]

theorem plainFiles_written (hp : PlainFiles dir h) (hd : h.HasDir dir place)
    (hno : ∀ i, h.child? place.ino (Name.ofText c.fileName) = some i → h.isDirectory i = false) :
    PlainFiles dir (written h place c bs) := by
  intro q name i hq hn he
  obtain rfl := hd.unique ((hasDir_written hp hd hno).mp hq)
  rw [child?_written hd.2] at he
  split_ifs at he
  · cases he
    exact ⟨_, body?_written_size hd.2, rfl⟩
  · by_cases hi : i = place.ino
    · have hdir : (written h place c bs).isDirectory i = true := by
        rw [hi]
        exact Host.isDirectory_create hd.2
      obtain ⟨es, hes⟩ := Host.isDirectory_iff.mp hdir
      exact ⟨_, hes, rfl⟩
    · obtain ⟨b, hb, hlink⟩ := hp place name i hd hn he
      exact ⟨b, body?_written hi hb, hlink⟩

theorem fileBytes_written (hp : PlainFiles dir h) (hd : h.HasDir dir place)
    (hno : ∀ i, h.child? place.ino (Name.ofText c.fileName) = some i → h.isDirectory i = false) :
    (written h place c bs).fileBytes (dir.child (Name.ofText c.fileName)) = .ok bs := by
  rw [(plainFiles_written hp hd hno).fileBytes ((hasDir_written hp hd hno).mpr hd)
    (isFileName_fileName c), child?_written hd.2, if_pos rfl]
  simp only [Host.readNode, body?_written_size hd.2, Contents.toList_ofBytes]

theorem fileBytes_written_ne (hp : PlainFiles dir h) (hd : h.HasDir dir place)
    (hno : ∀ i, h.child? place.ino (Name.ofText c.fileName) = some i → h.isDirectory i = false)
    (hn : IsFileName name) (hne : name ≠ Name.ofText c.fileName) :
    (written h place c bs).fileBytes (dir.child name) = h.fileBytes (dir.child name) := by
  rw [(plainFiles_written hp hd hno).fileBytes ((hasDir_written hp hd hno).mpr hd) hn,
    hp.fileBytes hd hn, child?_written hd.2, if_neg hne]
  cases he : h.child? place.ino name with
  | none => rfl
  | some i =>
    by_cases hi : i = place.ino
    · -- a directory cannot be read, whatever is put into it
      rw [hi]
      exact (Host.readNode_of_isDirectory (Host.isDirectory_create hd.2)).trans
        (Host.readNode_of_isDirectory hd.2).symm
    · obtain ⟨b, hb, -⟩ := hp place name i hd hn he
      exact Host.readNode_congr ((body?_written hi hb).trans hb.symm)

theorem sameLoad_written (hp : PlainFiles dir h) (hd : h.HasDir dir place)
    (hno : ∀ i, h.child? place.ino (Name.ofText c.fileName) = some i → h.isDirectory i = false)
    (hc : c' ≠ c) : SameLoad dir c' h (written h place c bs) := by
  refine sameLoad_of_fileBytes fun name hname => ?_
  refine fileBytes_written_ne hp hd hno ⟨c', hname⟩ ?_
  rcases hname with rfl | rfl
  · exact fileName_ne hc
  · exact olderFileName_ne c c'

/-! ## Settled ledgers -/

/-- A ledger is as its files have it, unless it is pending. -/
def SettledAt (s : Store) (h : Host) : Category → Prop
  | .permissions => s.permissions.pending = false → s.permissions = (load s.dir h).permissions
  | .symlinks => s.symlinks.pending = false → s.symlinks = (load s.dir h).symlinks
  | .types => s.kinds.pending = false → s.kinds = (load s.dir h).kinds
  | .devices => s.devices.pending = false → s.devices = (load s.dir h).devices

/-- **Every ledger is as its files have it**, unless it is pending. -/
def Settled (s : Store) (h : Host) : Prop := ∀ c, s.SettledAt h c

theorem load_settled (dir : String) (h : Host) : (load dir h).Settled h := by
  intro c
  cases c <;> exact fun _ => rfl

theorem Settled.eq_load (hs : s.Settled h) (hp : s.hasPending = false) : load s.dir h = s := by
  have hpend : ∀ c, s.isPending c = false := by
    intro c
    rw [hasPending, List.any_eq_false] at hp
    simpa using hp c (by cases c <;> decide)
  have h₁ := hs .permissions (hpend .permissions)
  have h₂ := hs .symlinks (hpend .symlinks)
  have h₃ := hs .types (hpend .types)
  have h₄ := hs .devices (hpend .devices)
  obtain ⟨dir, permissions, symlinks, kinds, devices⟩ := s
  simp only at h₁ h₂ h₃ h₄
  rw [h₁, h₂, h₃, h₄]
  rfl

theorem SettledAt.congr (hs : s.SettledAt h c) (hl : SameLoad (dirPath s.dir) c h h') :
    s.SettledAt h' c := by
  cases c <;>
  · intro hp
    rw [hs hp]
    simp only [load, hl _ _]

theorem SettledAt.settle_ne (hs : s.SettledAt h c') (hc : c' ≠ c) :
    (s.settle c).SettledAt h c' := by
  cases c <;> cases c' <;> first | exact absurd rfl hc | exact hs

theorem loadRecords_of_fileBytes {α : Type} {p : Payload α}
    {older : JsonValue → Option (List (String × α))} {rs : Records α} (hp : p.Lawful)
    (he : CategoryFile.encode p c rs = .ok bs)
    (hb : h.fileBytes (dir.child (Name.ofText c.fileName)) = .ok bs) :
    loadRecords p older c dir h = rs := by
  unfold loadRecords
  rw [hb]
  simp only [CategoryFile.decode_encode hp he, Option.getD_some]

theorem settledAt_settle (he : s.encode c = .ok bs)
    (hb : h.fileBytes ((dirPath s.dir).child (Name.ofText c.fileName)) = .ok bs) :
    (s.settle c).SettledAt h c := by
  cases c with
  | permissions =>
    intro _
    simp only [settle, load, loadRecords_of_fileBytes Payload.lawful_permission he hb]
  | symlinks =>
    intro _
    simp only [settle, load, loadRecords_of_fileBytes Payload.lawful_target he hb]
  | types =>
    intro _
    simp only [settle, load, loadRecords_of_fileBytes Payload.lawful_kind he hb]
  | devices =>
    intro _
    simp only [settle, load, loadRecords_of_fileBytes Payload.lawful_device he hb]

theorem isPending_settle : (s.settle c).isPending c' = (s.isPending c' && c' ≠ c) := by
  cases c <;> cases c' <;> simp [settle, isPending]

/-! ## Writing -/

/-- The metadata directory is there, or its path does not go up, so that making directories for it
brings none into reach that was there before. -/
def Reached (dir : Path) (h : Host) : Prop := h.leadsToDirectory dir = true ∨ dir.Straight

/-- **What is not pending is on the disk**, in files that are files of their own. -/
structure OnDisk (s : Store) (h : Host) : Prop where
  settled : s.Settled h
  plain : PlainFiles (dirPath s.dir) h
  reached : Reached (dirPath s.dir) h

theorem OnDisk.congr (ho : s.OnDisk h) (hl : ∀ c, SameLoad (dirPath s.dir) c h h')
    (hp : PlainFiles (dirPath s.dir) h') (hr : Reached (dirPath s.dir) h') : s.OnDisk h' :=
  ⟨fun c => (ho.settled c).congr (hl c), hp, hr⟩

theorem OnDisk.writeCategory (ho : s.OnDisk h) (hw : s.writeCategory c h = (.ok (), h')) :
    (s.settle c).OnDisk h' := by
  obtain ⟨place, bs, hd, he, hno, rfl⟩ := written_of_writeCategory hw
  have hplain : PlainFiles (dirPath s.dir) (written h place c bs) :=
    plainFiles_written ho.plain hd hno
  have hreached : Reached (dirPath s.dir) (written h place c bs) :=
    .inl (Host.leadsToDirectory_iff_hasDir.mpr ⟨place, (hasDir_written ho.plain hd hno).mpr hd⟩)
  have hdir := (settle_sameRecords s c).dir
  refine ⟨fun c' => ?_, hdir ▸ hplain, hdir ▸ hreached⟩
  by_cases hc : c' = c
  · subst hc
    exact settledAt_settle he (fileBytes_written ho.plain hd hno)
  · refine ((ho.settled c').settle_ne hc).congr ?_
    rw [hdir]
    exact sameLoad_written ho.plain hd hno hc

theorem sameFiles_touch {d : Ino} : SameFiles dir h (h.modifyEntries d id) := by
  have hgrows : Host.Grows h (h.modifyEntries d id) :=
    { workDir_eq := Host.workDir_modifyEntries
      isDirectory := fun hi => by rwa [Host.isDirectory_modifyEntries]
      target? := fun ht => by rwa [Host.target?_modifyEntries]
      child? := fun he _ => by rwa [Host.child?_modifyEntries_id] }
  exact ⟨fun _ => Host.hasDir_congr hgrows Host.modifyEntries_id_grows,
    fun _ _ _ _ => Host.child?_modifyEntries_id, fun _ _ _ _ _ _ => Host.body?_modifyEntries_id⟩

theorem OnDisk.sameFiles (ho : s.OnDisk h) (hs : SameFiles (dirPath s.dir) h h') : s.OnDisk h' :=
  ho.congr (fun _ => hs.sameLoad ho.plain (dirPath_isEmpty _)) (hs.plainFiles ho.plain)
    (ho.reached.imp_left fun hl => hs.leadsToDirectory.trans hl)

theorem OnDisk.writeCategory_error {e : StoreError} (ho : s.OnDisk h)
    (hw : s.writeCategory c h = (.error e, h')) : s.OnDisk h' := by
  obtain ⟨-, rfl⟩ | ⟨-, bs, e', -, hr⟩ := writeCategory_eq_error hw
  · exact ho
  · obtain rfl | ⟨place, -, rfl⟩ := Host.replaceFile_eq_error hr
    · exact ho
    · exact ho.sameFiles sameFiles_touch

/-- **Every write leaves what is not pending as its files have it.** -/
theorem OnDisk.flushEach (ho : s.OnDisk h) :
    (flushEach cs s h).2.1.OnDisk (flushEach cs s h).2.2 := by
  induction cs generalizing s h with
  | nil => exact ho
  | cons c cs ih =>
    rw [Store.flushEach]
    split_ifs
    · split
      next h₁ hw => exact ih (ho.writeCategory hw)
      next e h₁ hw => exact ho.writeCategory_error hw
    · exact ih ho

theorem isPending_flushEach (hc : s.isPending c = false) :
    (flushEach cs s h).2.1.isPending c = false := by
  induction cs generalizing s h with
  | nil => exact hc
  | cons c' cs ih =>
    rw [flushEach]
    split_ifs
    · split
      next => exact ih (by rw [isPending_settle, hc, Bool.false_and])
      next => exact hc
    · exact ih hc

theorem isPending_of_flushEach (hok : (flushEach cs s h).1 = .ok ()) (hc : c ∈ cs) :
    (flushEach cs s h).2.1.isPending c = false := by
  induction cs generalizing s h with
  | nil => cases hc
  | cons c' cs ih =>
    rw [flushEach] at hok ⊢
    rcases List.mem_cons.mp hc with rfl | hc
    · split_ifs with hp
      · rw [if_pos hp] at hok
        split
        next => exact isPending_flushEach (by simp [isPending_settle])
        next e h₁ hw =>
          rw [hw] at hok
          cases hok
      · exact isPending_flushEach (by simpa using hp)
    · split_ifs with hp
      · rw [if_pos hp] at hok
        split
        next h₁ hw =>
          rw [hw] at hok
          exact ih hok hc
        next e h₁ hw =>
          rw [hw] at hok
          cases hok
      · rw [if_neg hp] at hok
        exact ih hok hc

theorem plainFiles_of_empty (hf : h.find .follow dir = .ok place)
    (hes : h.entries? place.ino = some ∅) : PlainFiles dir h := by
  have hd : h.HasDir dir place := ⟨hf, by simp [Host.isDirectory, hes]⟩
  intro q name i hq _ hi
  obtain rfl := hd.unique hq
  rw [Host.child?, hes] at hi
  simp at hi

theorem sameLoad_of_empty (he : dir.isEmpty = false) (hl : h.leadsToDirectory dir = false)
    (hf : h'.find .follow dir = .ok place) (hes : h'.entries? place.ino = some ∅) :
    SameLoad dir c h h' := by
  have hd : h'.HasDir dir place := ⟨hf, by simp [Host.isDirectory, hes]⟩
  have hnone : ∀ name, h'.child? place.ino name = none := fun name => by
    simp [Host.child?, hes]
  have hplain := plainFiles_of_empty hf hes
  intro _ p older
  rw [loadRecords_of_not_leads he hl]
  unfold loadRecords
  rw [hplain.fileBytes hd (isFileName_fileName c), hplain.fileBytes hd (isFileName_olderFileName c),
    hnone, hnone]

/-- Making the metadata directory does nothing, or there was none before and now there still is
none, or an empty one. -/
theorem makeDirs_cases (hr : Reached dir h) :
    (Host.makeDirs dir h).2 = h ∨
      h.leadsToDirectory dir = false ∧
        ((Host.makeDirs dir h).2.leadsToDirectory dir = false ∨
          ∃ place, (Host.makeDirs dir h).2.find .follow dir = .ok place ∧
            (Host.makeDirs dir h).2.entries? place.ino = some ∅) := by
  cases hl : h.leadsToDirectory dir with
  | true =>
    rw [Host.makeDirs_of_leadsToDirectory hl]
    exact .inl rfl
  | false =>
    have hstraight : dir.Straight := hr.resolve_left (by rw [hl]; simp)
    rcases hm : Host.makeDirs dir h with ⟨_ | ⟨⟩, h₁⟩
    · exact (Host.makeDirs_eq_error hm).imp_right fun hl' => ⟨rfl, .inl hl'⟩
    · exact (Host.makeDirs_eq_ok hstraight hm).imp_right fun hempty => ⟨rfl, .inr hempty⟩

theorem Reached.makeDirs (hr : Reached dir h) : Reached dir (Host.makeDirs dir h).2 := by
  refine hr.imp_left fun hl => ?_
  rw [Host.makeDirs_of_leadsToDirectory hl]
  exact hl

theorem PlainFiles.makeDirs (hp : PlainFiles dir h) (hr : Reached dir h) :
    PlainFiles dir (Host.makeDirs dir h).2 := by
  obtain hsame | ⟨-, hl | ⟨place, hf, hes⟩⟩ := makeDirs_cases hr
  · rwa [hsame]
  · exact plainFiles_of_not_leads hl
  · exact plainFiles_of_empty hf hes

theorem OnDisk.makeDirs (ho : s.OnDisk h) : s.OnDisk (Host.makeDirs (dirPath s.dir) h).2 := by
  refine ho.congr (fun _ => ?_) (ho.plain.makeDirs ho.reached) ho.reached.makeDirs
  obtain hsame | ⟨hl, hl' | ⟨place, hf, hes⟩⟩ := makeDirs_cases ho.reached
  · rw [hsame]
    exact fun _ _ => rfl
  · exact sameLoad_of_not_leads (dirPath_isEmpty _) hl hl'
  · exact sameLoad_of_empty (dirPath_isEmpty _) hl hf hes

/-- **Writing keeps what is not pending on the disk.** -/
theorem OnDisk.flush (ho : s.OnDisk h) : (s.flush h).2.1.OnDisk (s.flush h).2.2 := by
  have hmade := ho.makeDirs
  unfold Store.flush
  split_ifs
  · split
    next h₁ hm =>
      rw [hm] at hmade
      exact hmade.flushEach
    next e h₁ hm =>
      rw [hm] at hmade
      exact hmade
  · exact ho

theorem hasPending_flush (hok : (s.flush h).1 = .ok ()) : (s.flush h).2.1.hasPending = false := by
  unfold flush at hok ⊢
  split_ifs with hp
  · rw [if_pos hp] at hok
    rcases hm : Host.makeDirs (dirPath s.dir) h with ⟨_ | ⟨⟩, h₁⟩
    · rw [hm] at hok
      cases hok
    · rw [hm] at hok
      rw [hasPending, List.any_eq_false]
      intro c hc
      rw [isPending_of_flushEach hok hc]
      simp
  · simpa using hp

end Store

end GuestShare
