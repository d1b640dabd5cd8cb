import GuestShare.Metadata.Store
import GuestShare.Proofs.Host.Addition

/-!
# What writing the records does to the host

Writing the records makes the directories of the metadata path that are missing and puts files into
the last of them. In memory only the marks of what is pending change.

* `Host.HasDir`: the directory to which a path leads.
* `Host.OnWay`: the directories that a path passes, the last one included.
* `Store.SameRecords`: two stores that hold the same records.
* `Store.Writes`: what becomes of a host as category files are written.
* **`flush_sameRecords`**: the records stay.
* **`flush_puts`**: the host gets new nodes in directories on the way of the metadata path.
-/

namespace GuestShare

namespace Host

variable {h h' : Host} {p : Path} {place : Place} {i d : Ino} {name : Name}
  {mode : UInt32}

/-! ## Directories of a path -/

/-- The directory to which a path leads. -/
def HasDir (h : Host) (p : Path) (place : Place) : Prop :=
  h.find .follow p = .ok place ∧ h.isDirectory place.ino = true

theorem HasDir.unique {place' : Place} (hp : h.HasDir p place) (hp' : h.HasDir p place') :
    place = place' := by
  have := hp.1.symm.trans hp'.1
  cases this
  rfl

theorem leadsToDirectory_iff_hasDir :
    h.leadsToDirectory p = true ↔ ∃ place, h.HasDir p place := leadsToDirectory_iff

theorem hasDir_congr (hg : Grows h h') (hg' : Grows h' h) :
    h'.HasDir p place ↔ h.HasDir p place :=
  ⟨fun ⟨hf, hd⟩ => ⟨hg'.find hd hf, hg'.isDirectory hd⟩,
    fun ⟨hf, hd⟩ => ⟨hg.find hd hf, hg.isDirectory hd⟩⟩

/-- A directory on the way of a path. -/
def OnWay (h : Host) (p : Path) : Ino → Prop := h.Passes (p :: p.ancestors)

theorem OnWay.of_find {q : Place} (hf : h.find .follow p = .ok q)
    (hd : h.isDirectory q.ino = true) : h.OnWay p q.ino := by
  obtain ⟨-, -, hl, -⟩ := find_follow_eq_ok_iff.mp hf
  exact ⟨p, List.mem_cons_self, p.steps, q, List.prefix_rfl, hl, rfl, hd⟩

theorem makeDirs_puts :
    Puts ((makeDirs p h).2.OnWay p) h (makeDirs p h).2 :=
  (makeDirs_makes.mono (List.subset_cons_self _ _)).puts

theorem create_file_grows {c : Contents} (hd : h.isDirectory d = true) :
    Grows (h.create d name (.file c) mode).2 h where
  workDir_eq := workDir_create.symm
  isDirectory {i} hi := by
    by_cases hs : i = h.nodes.size
    · rw [hs, isDirectory_create_size] at hi
      cases hi
    · rwa [isDirectory_create_of_ne hs] at hi
  target? ht := by rwa [target?_create (Body.bare_file c)] at ht
  child? {e n i} he hi := by
    rw [child?_create (Body.bare_file c) hd] at he
    split_ifs at he
    · cases he
      rw [isDirectory_create_size, target?_create (Body.bare_file c), target?_size] at hi
      simp [Body.isDirectory] at hi
    · exact he

theorem modifyEntries_id_grows : Grows (h.modifyEntries d id) h where
  workDir_eq := workDir_modifyEntries.symm
  isDirectory hi := by rwa [isDirectory_modifyEntries] at hi
  target? ht := by rwa [target?_modifyEntries] at ht
  child? he _ := by rwa [child?_modifyEntries_id] at he

end Host

namespace Store

/-- Two stores that hold the same records for the same directory. -/
structure SameRecords (s s' : Store) : Prop where
  dir : s'.dir = s.dir
  permissions : s'.permissions.records = s.permissions.records
  symlinks : s'.symlinks.records = s.symlinks.records
  kinds : s'.kinds.records = s.kinds.records
  devices : s'.devices.records = s.devices.records

theorem SameRecords.refl (s : Store) : SameRecords s s := ⟨rfl, rfl, rfl, rfl, rfl⟩

theorem SameRecords.trans {s s' s'' : Store} (h₁ : SameRecords s s') (h₂ : SameRecords s' s'') :
    SameRecords s s'' where
  dir := h₂.dir.trans h₁.dir
  permissions := h₂.permissions.trans h₁.permissions
  symlinks := h₂.symlinks.trans h₁.symlinks
  kinds := h₂.kinds.trans h₁.kinds
  devices := h₂.devices.trans h₁.devices

theorem settle_sameRecords (s : Store) (c : Category) : SameRecords s (s.settle c) := by
  cases c <;> exact ⟨rfl, rfl, rfl, rfl, rfl⟩

variable {s s' : Store} {h h' : Host} {c : Category} {cs : List Category}

theorem writeCategory_eq_ok (hw : s.writeCategory c h = (.ok (), h')) :
    ∃ bs, s.encode c = .ok bs ∧
      Host.replaceFile (dirPath s.dir) (Name.ofText c.fileName) bs categoryFileMode h =
        (.ok (), h') := by
  unfold writeCategory at hw
  split at hw
  next => cases hw
  next bs hbs =>
    split at hw
    next h₁ hr =>
      cases hw
      exact ⟨bs, hbs, hr⟩
    next => cases hw

theorem writeCategory_eq_error {e : StoreError} (hw : s.writeCategory c h = (.error e, h')) :
    s.encode c = .error e ∧ h' = h ∨
      e = .io ∧ ∃ bs e', s.encode c = .ok bs ∧
        Host.replaceFile (dirPath s.dir) (Name.ofText c.fileName) bs categoryFileMode h =
          (.error e', h') := by
  unfold writeCategory at hw
  split at hw
  next e' he =>
    cases hw
    exact .inl ⟨he, rfl⟩
  next bs hbs =>
    split at hw
    next => cases hw
    next e' h₁ hr =>
      cases hw
      exact .inr ⟨rfl, bs, e', hbs, hr⟩

theorem flushEach_sameRecords : SameRecords s (flushEach cs s h).2.1 := by
  induction cs generalizing s h with
  | nil => exact .refl s
  | cons c cs ih =>
    rw [flushEach]
    split_ifs
    · split
      · exact (settle_sameRecords s c).trans ih
      · exact .refl s
    · exact ih

theorem flush_of_not_pending (hp : s.hasPending = false) : s.flush h = (.ok (), s, h) := by
  simp [flush, hp]

/-- **Writing leaves the records as they are.** -/
theorem flush_sameRecords : SameRecords s (s.flush h).2.1 := by
  unfold flush
  split_ifs
  · split
    · exact flushEach_sameRecords
    · exact .refl s
  · exact .refl s

theorem fits_fileName (c : Category) : Host.Fits (Name.ofText c.fileName) := by
  cases c <;> exact ⟨by decide, by decide⟩

/-- The host after a new category file. -/
def written (h : Host) (place : Place) (c : Category) (bs : Bytes) : Host :=
  (h.create place.ino (Name.ofText c.fileName) (.file (.ofBytes bs)) categoryFileMode).2

theorem written_of_writeCategory (hw : s.writeCategory c h = (.ok (), h')) :
    ∃ place bs, h.HasDir (dirPath s.dir) place ∧ s.encode c = .ok bs ∧
      (∀ i, h.child? place.ino (Name.ofText c.fileName) = some i → h.isDirectory i = false) ∧
        h' = written h place c bs := by
  obtain ⟨bs, he, hr⟩ := writeCategory_eq_ok hw
  obtain ⟨place, o, hf, hl, hdir, rfl⟩ := Host.replaceFile_eq_ok hr
  obtain ⟨hd, -, hlook⟩ := Host.lookup_eq_ok_iff.mp hl
  exact ⟨place, bs, ⟨hf, hd⟩, he, fun i hi => hdir i (hlook.symm.trans hi), rfl⟩

/-- The second host is the first one after some category files have been put into the directory to
which the metadata path leads in `top`. -/
inductive Writes (s : Store) (top h : Host) : Host → Prop
  | refl : Writes s top h h
  | touch {h' : Host} {q : Place} : Writes s top h h' → top.HasDir (dirPath s.dir) q →
      Writes s top h (h'.modifyEntries q.ino id)
  | write {h' : Host} {q : Place} {c : Category} {bs : Bytes} : Writes s top h h' →
      top.HasDir (dirPath s.dir) q → h'.isDirectory q.ino = true → s.encode c = .ok bs →
      (∀ i, h'.child? q.ino (Name.ofText c.fileName) = some i → h'.isDirectory i = false) →
      Writes s top h (written h' q c bs)

theorem SameRecords.encode (hs : SameRecords s s') (c : Category) : s'.encode c = s.encode c := by
  cases c <;> simp only [Store.encode, hs.permissions, hs.symlinks, hs.kinds, hs.devices]

namespace Writes

variable {top h'' : Host}

theorem congr (hw : Writes s' top h h') (hs : SameRecords s s') : Writes s top h h' := by
  induction hw with
  | refl => exact .refl
  | touch _ hq ih => exact ih.touch (hs.dir ▸ hq)
  | write _ hq hd he hno ih => exact ih.write (hs.dir ▸ hq) hd (hs.encode _ ▸ he) hno

theorem trans (h₁ : Writes s top h h') (h₂ : Writes s top h' h'') : Writes s top h h'' := by
  induction h₂ with
  | refl => exact h₁
  | touch _ hq ih => exact ih.touch hq
  | write _ hq hd he hno ih => exact ih.write hq hd he hno

theorem puts (hw : Writes s top h h') :
    Host.Puts (fun i => ∃ q, top.HasDir (dirPath s.dir) q ∧ q.ino = i) h h' := by
  induction hw with
  | refl => exact .refl
  | touch _ hq ih => exact ih.touch ⟨_, hq, rfl⟩
  | write _ hq hd _ hno ih =>
    exact ih.put ⟨_, hq, rfl⟩ hd (fits_fileName _) (fun i hi => ⟨hno i hi, rfl⟩) (Body.bare_file _)

end Writes

/-- The files of some categories are written in the directory of the metadata path, as a host has it
from which the files at hand have come. -/
theorem flushEach_writes {top : Host} (hg : Host.Grows h top) :
    Writes s top h (flushEach cs s h).2.2 := by
  induction cs generalizing s h with
  | nil => exact .refl
  | cons c cs ih =>
    have found : ∀ {q : Place}, h.find .follow (dirPath s.dir) = .ok q →
        h.isDirectory q.ino = true → top.HasDir (dirPath s.dir) q := fun hf hd =>
      ⟨hg.find hd hf, hg.isDirectory hd⟩
    rw [flushEach]
    split_ifs
    · split
      next h₁ hw =>
        obtain ⟨dir, bs, ⟨hf, hd⟩, he, hno, rfl⟩ := written_of_writeCategory hw
        have hwrite : Writes s top h (written h dir c bs) :=
          Writes.refl.write (found hf hd) hd he hno
        exact hwrite.trans
          ((ih ((Host.create_file_grows hd).trans hg)).congr (settle_sameRecords s c))
      next e h₁ hw =>
        obtain ⟨-, rfl⟩ | ⟨-, bs, e', -, hr⟩ := writeCategory_eq_error hw
        · exact .refl
        · obtain rfl | ⟨dir, hf, rfl⟩ := Host.replaceFile_eq_error hr
          · exact .refl
          · by_cases hd : h.isDirectory dir.ino = true
            · exact Writes.refl.touch (found hf hd)
            · have hnone : h.entries? dir.ino = none := by
                simpa [Host.isDirectory] using hd
              have : h.modifyEntries dir.ino id = h := by
                unfold Host.modifyEntries
                rw [hnone]
              rw [this]
              exact .refl
    · exact ih hg

theorem flush_writes :
    (s.flush h).2.2 = h ∨
      Writes s (Host.makeDirs (dirPath s.dir) h).2 (Host.makeDirs (dirPath s.dir) h).2
        (s.flush h).2.2 := by
  unfold flush
  split_ifs
  · refine .inr ?_
    split
    next h₁ hm =>
      rw [hm]
      exact flushEach_writes (.refl _)
    next e h₁ hm =>
      rw [hm]
      exact .refl
  · exact .inl rfl

/-- **Writing puts new nodes into directories on the way of the metadata path**, as that path leads
once its directories are made. -/
theorem flush_puts :
    Host.Puts ((Host.makeDirs (dirPath s.dir) h).2.OnWay (dirPath s.dir)) h (s.flush h).2.2 := by
  obtain hsame | hw := s.flush_writes (h := h)
  · rw [hsame]
    exact .refl
  · refine Host.makeDirs_puts.trans (hw.puts.mono ?_)
    rintro _ ⟨q, hq, rfl⟩
    exact Host.OnWay.of_find hq.1 hq.2

end Store

end GuestShare
