import GuestShare.Proofs.Metadata.Disk
import GuestShare.Proofs.Metadata.Overlay

/-!
# Records in their files

Records that are written get a new file in the metadata directory. There they stay as long as they
stay in memory: whenever the file is written again, it is written with them. So they are loaded by
whoever loads the directory.

* `Overlay.Le`, `Overlay.Has`: records that are among others, and records of a category.
* `Overlay.InFile`: a file of a category has the record of it.
* `Store.Filed`: that is so for the category file in a directory.
* `Host.Fresh`: a node that is new, and in one directory only.
* **`filed_of_flush`**: what was pending is in its file after a write that succeeds.
* **`Filed.flush`**: what is in its file stays there as records are written.
* **`load_le`**: what is in its file is loaded.
-/

namespace GuestShare

namespace Overlay

/-- Every record of the first overlay is in the second one. -/
structure Le (a b : Overlay) : Prop where
  permission : ∀ r, a.permission = some r → b.permission = some r
  symlink : ∀ t, a.symlink = some t → b.symlink = some t
  kind : ∀ k, a.kind = some k → b.kind = some k
  device : ∀ d, a.device = some d → b.device = some d

theorem Le.refl (o : Overlay) : o.Le o :=
  ⟨fun _ hr => hr, fun _ ht => ht, fun _ hk => hk, fun _ hd => hd⟩

/-- There is a record of a category. -/
def Has (o : Overlay) : Category → Prop
  | .permissions => o.permission.isSome = true
  | .symlinks => o.symlink.isSome = true
  | .types => o.kind.isSome = true
  | .devices => o.device.isSome = true

end Overlay

/-- A file is that of some records with the given one under a key, if one is given. -/
def CategoryFile.Tells {α : Type} (p : Payload α) (c : Category) (bs : Bytes) (key : String)
    (record : Option α) : Prop :=
  ∀ r, record = some r → ∃ rs : Records α, encode p c rs = .ok bs ∧ rs[key]? = some r

/-- A file of a category has the record of that category under a key, if there is one. -/
def Overlay.InFile (o : Overlay) (key : String) (bs : Bytes) : Category → Prop
  | .permissions => CategoryFile.Tells .permission .permissions bs key o.permission
  | .symlinks => CategoryFile.Tells .target .symlinks bs key o.symlink
  | .types => CategoryFile.Tells .kind .types bs key o.kind
  | .devices => CategoryFile.Tells .device .devices bs key o.device

/-- A node that was not there before, and that only the entries of one directory name. -/
def Host.Fresh (h h' : Host) (d i : Ino) : Prop :=
  h.nodes.size ≤ i ∧ ∀ e name, h'.child? e name = some i → e = d

namespace Store

variable {s : Store} {h h' top : Host} {d i : Ino} {c c' : Category} {cs : List Category}
  {o : Overlay} {key dir : String} {bs : Bytes} {place q : Place} {name : Name}

theorem inFile_of_encode (hle : o.Le (s.overlay key)) (he : s.encode c = .ok bs) :
    o.InFile key bs c := by
  cases c with
  | permissions => exact fun r hr => ⟨_, he, hle.permission r hr⟩
  | symlinks => exact fun t ht => ⟨_, he, hle.symlink t ht⟩
  | types => exact fun k hk => ⟨_, he, hle.kind k hk⟩
  | devices => exact fun r hr => ⟨_, he, hle.device r hr⟩

/-- **What is in the files is loaded.** -/
theorem load_le (hf : ∀ c, o.Has c → ∃ bs,
      h.fileBytes ((dirPath dir).child (Name.ofText c.fileName)) = .ok bs ∧ o.InFile key bs c) :
    o.Le ((load dir h).overlay key) where
  permission r hr := by
    obtain ⟨bs, hb, hin⟩ := hf .permissions (by simp [Overlay.Has, hr])
    obtain ⟨rs, he, hk⟩ := hin r hr
    show (loadRecords _ _ _ _ _)[key]? = some r
    rw [loadRecords_of_fileBytes Payload.lawful_permission he hb, hk]
  symlink t ht := by
    obtain ⟨bs, hb, hin⟩ := hf .symlinks (by simp [Overlay.Has, ht])
    obtain ⟨rs, he, hk⟩ := hin t ht
    show (loadRecords _ _ _ _ _)[key]? = some t
    rw [loadRecords_of_fileBytes Payload.lawful_target he hb, hk]
  kind k hk := by
    obtain ⟨bs, hb, hin⟩ := hf .types (by simp [Overlay.Has, hk])
    obtain ⟨rs, he, hk⟩ := hin k hk
    show (loadRecords _ _ _ _ _)[key]? = some k
    rw [loadRecords_of_fileBytes Payload.lawful_kind he hb, hk]
  device r hr := by
    obtain ⟨bs, hb, hin⟩ := hf .devices (by simp [Overlay.Has, hr])
    obtain ⟨rs, he, hk⟩ := hin r hr
    show (loadRecords _ _ _ _ _)[key]? = some r
    rw [loadRecords_of_fileBytes Payload.lawful_device he hb, hk]

/-! ## Category files in a directory -/

/-- The category file in a directory has the record of its category under a key. -/
def Filed (o : Overlay) (key : String) (h : Host) (d : Ino) (c : Category) (i : Ino) : Prop :=
  h.child? d (Name.ofText c.fileName) = some i ∧
    ∃ f : Contents, h.body? i = some (.file f) ∧ o.InFile key f.toList c

theorem Filed.not_isDirectory (hf : Filed o key h d c i) : h.isDirectory i = false := by
  obtain ⟨-, f, hbody, -⟩ := hf
  cases hd : h.isDirectory i with
  | false => rfl
  | true =>
    obtain ⟨es, hes⟩ := Host.isDirectory_iff.mp hd
    cases hes.symm.trans hbody

theorem Filed.lt_size (hf : Filed o key h d c i) : i < h.nodes.size := by
  obtain ⟨-, f, hbody, -⟩ := hf
  rw [← Host.node?_isSome_iff]
  obtain ⟨n, hn, -⟩ := Option.map_eq_some_iff.mp hbody
  rw [hn]
  rfl

theorem Filed.congr (hf : Filed o key h d c i)
    (hc : h'.child? d (Name.ofText c.fileName) = some i) (hn : h'.node? i = h.node? i) :
    Filed o key h' d c i := by
  obtain ⟨-, f, hbody, hin⟩ := hf
  refine ⟨hc, f, ?_, hin⟩
  unfold Host.body? at hbody ⊢
  rw [hn, hbody]

theorem Filed.fileBytes (hf : Filed o key h place.ino c i) (hd : h.HasDir (dirPath dir) place) :
    ∃ bs, h.fileBytes ((dirPath dir).child (Name.ofText c.fileName)) = .ok bs ∧
      o.InFile key bs c := by
  obtain ⟨hchild, f, hbody, hin⟩ := hf
  refine ⟨f.toList, ?_, hin⟩
  rw [Host.fileBytes_child hd (fits_fileName c), hchild]
  · simp only [Host.readNode, hbody]
  · intro j hj
    cases hchild.symm.trans hj
    unfold Host.target?
    rw [hbody]

theorem filed_written (hd : h.isDirectory q.ino = true) (hle : o.Le (s.overlay key))
    (he : s.encode c = .ok bs) :
    Filed o key (written h q c bs) q.ino c h.nodes.size :=
  ⟨by rw [child?_written hd, if_pos rfl], _, body?_written_size hd, by
    rw [Contents.toList_ofBytes]
    exact inFile_of_encode hle he⟩

/-! ## Writing -/

namespace Writes

theorem child? (hw : Writes s top h h') (he : h.child? d name = some i)
    (hout : ∀ q (c : Category), top.HasDir (dirPath s.dir) q →
      ¬ (d = q.ino ∧ name = Name.ofText c.fileName)) : h'.child? d name = some i := by
  induction hw with
  | refl => exact he
  | touch _ _ ih => rw [Host.child?_modifyEntries_id, ih]
  | write _ hq hd _ _ ih =>
    rw [written, Host.child?_create (Body.bare_file _) hd, if_neg (hout _ _ hq), ih]

theorem grows (hw : Writes s top h h') : Host.Grows h' h := by
  induction hw with
  | refl => exact .refl h
  | touch _ _ ih => exact Host.modifyEntries_id_grows.trans ih
  | write _ _ hd _ _ ih => exact (Host.create_file_grows hd).trans ih

/-- **What is in its file stays there**, or is in a new one. -/
theorem filed (hw : Writes s top h h') (hf : Filed o key h d c i) (hle : o.Le (s.overlay key)) :
    ∃ i', Filed o key h' d c i' ∧ (i' = i ∨ h.nodes.size ≤ i') := by
  induction hw with
  | refl => exact ⟨i, hf, .inl rfl⟩
  | touch _ _ ih =>
    obtain ⟨i', ⟨hchild, f, hbody, hin⟩, hi'⟩ := ih
    exact ⟨i', ⟨Host.child?_modifyEntries_id.trans hchild, f,
      Host.body?_modifyEntries_id.trans hbody, hin⟩, hi'⟩
  | @write h₁ q c' bs hw _ hd he _ ih =>
    obtain ⟨i', hf', hi'⟩ := ih
    by_cases hnew : d = q.ino ∧ c' = c
    · obtain ⟨rfl, rfl⟩ := hnew
      exact ⟨_, filed_written hd hle he, .inr hw.puts.size_le⟩
    · have hne : ¬ (d = q.ino ∧ Name.ofText c.fileName = Name.ofText c'.fileName) := fun ⟨h₁, h₂⟩ =>
        hnew ⟨h₁, Classical.not_not.mp fun hc => fileName_ne hc h₂.symm⟩
      have hfile : i' ≠ q.ino := fun he => by
        rw [← he, hf'.not_isDirectory] at hd
        cases hd
      obtain ⟨hchild, f, hbody, hin⟩ := hf'
      refine ⟨i', ⟨?_, f, body?_written hfile hbody, hin⟩, hi'⟩
      rw [written, Host.child?_create (Body.bare_file _) hd, if_neg hne, hchild]

end Writes

theorem filed_of_flushEach (hg : Host.Grows h top) (hplace : top.HasDir (dirPath s.dir) place)
    (hle : o.Le (s.overlay key)) (hok : (flushEach cs s h).1 = .ok ()) (hc : c ∈ cs)
    (hp : s.isPending c = true) :
    ∃ i, Filed o key (flushEach cs s h).2.2 place.ino c i ∧ h.nodes.size ≤ i := by
  induction cs generalizing s h with
  | nil => cases hc
  | cons c' cs ih =>
    rw [flushEach] at hok ⊢
    split_ifs at hok ⊢ with hp'
    · split at hok
      next h₁ hw =>
        obtain ⟨q, bs, ⟨hf, hd⟩, he, -, rfl⟩ := written_of_writeCategory hw
        obtain rfl := hplace.unique ⟨hg.find hd hf, hg.isDirectory hd⟩
        have hg' : Host.Grows (written h place c' bs) top := (Host.create_file_grows hd).trans hg
        have hsame := settle_sameRecords s c'
        have hle' : o.Le ((s.settle c').overlay key) := by
          rw [hsame.overlay]
          exact hle
        by_cases hcc : c = c'
        · subst hcc
          obtain ⟨i, hi, hsize⟩ :=
            (flushEach_writes hg').filed (filed_written hd hle he) hle'
          refine ⟨i, hi, hsize.elim (fun h => h ▸ Nat.le_refl _) fun hle => ?_⟩
          exact Nat.le_trans (Nat.le_of_lt (by simp [written])) hle
        · obtain ⟨i, hi, hsize⟩ := ih hg' (hsame.dir ▸ hplace) hle' hok
            ((List.mem_cons.mp hc).resolve_left hcc) (by rw [isPending_settle]; simp [hp, hcc])
          exact ⟨i, hi, Nat.le_trans (Nat.le_of_lt (by simp [written])) hsize⟩
      next => cases hok
    · have hne : c ≠ c' := fun h => hp' (h ▸ hp)
      exact ih hg hplace hle hok ((List.mem_cons.mp hc).resolve_left hne) hp

theorem Writes.fresh (hw : Writes s top h h') (ht : h.IsTree)
    (hplace : top.HasDir (dirPath s.dir) place) (hi : h.nodes.size ≤ i) :
    h.Fresh h' place.ino i := by
  refine ⟨hi, fun e name he => ?_⟩
  obtain hold | ⟨q, hq, rfl⟩ := hw.puts.child?_or he
  · exact absurd (ht.entry_lt hold) (Nat.not_lt.mpr hi)
  · rw [hq.unique hplace]

/-- **What was pending is in a new file** after a write that succeeds. -/
theorem filed_of_flush (ht : h.IsTree) (hok : (s.flush h).1 = .ok ()) (hp : s.isPending c = true)
    (hle : o.Le (s.overlay key)) (hplace : (s.flush h).2.2.HasDir (dirPath s.dir) place) :
    ∃ i, Filed o key (s.flush h).2.2 place.ino c i ∧ h.Fresh (s.flush h).2.2 place.ino i := by
  have hall : c ∈ Category.all := by cases c <;> decide
  have hpend : s.hasPending = true := List.any_eq_true.mpr ⟨c, hall, hp⟩
  have hmade : Host.Puts _ h (Host.makeDirs (dirPath s.dir) h).2 := Host.makeDirs_puts
  unfold flush at hok hplace ⊢
  rw [if_pos hpend] at hok hplace ⊢
  rcases hm : Host.makeDirs (dirPath s.dir) h with ⟨_ | ⟨⟩, top⟩
  · rw [hm] at hok
    cases hok
  · rw [hm] at hok hplace hmade
    have hw : Writes s top top (flushEach Category.all s top).2.2 := flushEach_writes (.refl top)
    have htop : top.HasDir (dirPath s.dir) place :=
      ⟨hw.grows.find hplace.2 hplace.1, hw.grows.isDirectory hplace.2⟩
    obtain ⟨i, hi, hsize⟩ := filed_of_flushEach (.refl top) htop hle hok hall hp
    obtain ⟨-, hnames⟩ := hw.fresh (hmade.isTree ht) htop hsize
    exact ⟨i, hi, Nat.le_trans hmade.size_le hsize, hnames⟩

theorem Filed.length_target_le {t : String} (hf : Filed o key h d .symlinks i)
    (ht : o.symlink = some t) : (Bytes.ofText t).length ≤ CategoryFile.limit := by
  obtain ⟨-, f, -, hin⟩ := hf
  obtain ⟨rs, he, hk⟩ := hin t ht
  exact CategoryFile.length_le_of_encode he hk

/-- **What is in its file stays there** as the records are written, or is in a new file. -/
theorem Filed.flush (hf : Filed o key h place.ino c i) (ht : h.IsTree)
    (hle : o.Le (s.overlay key)) (hplace : h.HasDir (dirPath s.dir) place) :
    ∃ i', Filed o key (s.flush h).2.2 place.ino c i' ∧
      (i' = i ∨ h.Fresh (s.flush h).2.2 place.ino i') := by
  obtain hsame | hw := s.flush_writes (h := h)
  · rw [hsame]
    exact ⟨i, hf, .inl rfl⟩
  · rw [Host.makeDirs_of_leadsToDirectory (Host.leadsToDirectory_iff_hasDir.mpr ⟨place, hplace⟩)]
      at hw
    obtain ⟨i', hf', hi'⟩ := hw.filed hf hle
    exact ⟨i', hf', hi'.imp_right (hw.fresh ht hplace)⟩

end Store

end GuestShare
