import GuestShare.Host.Tree
import GuestShare.Proofs.Metadata.Change
import GuestShare.Proofs.Metadata.Encoding

/-!
# Writing again

Writing stops at the first category that cannot be written. What came before it is on the disk, the
rest waits in memory, and no other file is touched. So nothing is lost: writing can be tried again,
also after more changes, and once it succeeds all the records are on the disk.

* `Store.Obstacle`: why a category cannot be written.
* `Store.Stopped`: what is left in memory where writing stopped.
* `Store.Wrote`, `Store.PartlyWritten`: what is on the disk.
* `Store.Tries`: a store that is loaded, changed and written any number of times.
* **`Tries.onDisk`**: what is not pending stays on the disk.
* **`flush_retry`**: a failure loses nothing, and the next success makes up for it.
-/

namespace GuestShare

/-- The names of the files of a category. -/
def Category.fileNames (c : Category) : List Name :=
  [Name.ofText c.fileName, Name.ofText c.olderFileName]

theorem Category.mem_fileNames {c : Category} {name : Name} : name ∈ c.fileNames ↔
    name = Name.ofText c.fileName ∨ name = Name.ofText c.olderFileName := List.mem_pair

namespace Store

variable {s s' : Store} {h h' h'' : Host} {dir : Path} {name : Name} {c : Category}
  {cs done left : List Category} {e : StoreError}

/-! ## The same bytes -/

/-- A file in the metadata directory has the same bytes as before, or none as before. -/
def SameBytes (dir : Path) (name : Name) (h h' : Host) : Prop :=
  ∀ bs, h'.fileBytes (dir.child name) = .ok bs ↔ h.fileBytes (dir.child name) = .ok bs

theorem SameBytes.of_eq (he : h'.fileBytes (dir.child name) = h.fileBytes (dir.child name)) :
    SameBytes dir name h h' := fun bs => by rw [he]

theorem SameBytes.refl : SameBytes dir name h h := fun _ => Iff.rfl

theorem SameBytes.trans (h₁ : SameBytes dir name h h') (h₂ : SameBytes dir name h' h'') :
    SameBytes dir name h h'' := fun bs => (h₂ bs).trans (h₁ bs)

theorem sameBytes_makeDirs (he : dir.isEmpty = false) (hr : Reached dir h) (hn : IsFileName name) :
    SameBytes dir name h (Host.makeDirs dir h).2 := by
  obtain hsame | ⟨hl, hmade⟩ := makeDirs_cases hr
  · rw [hsame]
    exact .refl
  · have hbefore : ∀ bs, h.fileBytes (dir.child name) ≠ .ok bs := fileBytes_of_not_leads he hl
    obtain hl' | ⟨place, hf, hes⟩ := hmade
    · exact fun bs => iff_of_false (fileBytes_of_not_leads he hl' bs) (hbefore bs)
    · have hd : (Host.makeDirs dir h).2.HasDir dir place := ⟨hf, by simp [Host.isDirectory, hes]⟩
      refine fun bs => iff_of_false (fun ho => ?_) (hbefore bs)
      rw [(plainFiles_of_empty hf hes).fileBytes hd hn] at ho
      simp [Host.child?, hes] at ho

theorem sameBytes_writeCategory (hp : PlainFiles (dirPath s.dir) h)
    (hw : s.writeCategory c h = (.error e, h')) (hn : IsFileName name) :
    SameBytes (dirPath s.dir) name h h' := by
  obtain ⟨-, rfl⟩ | ⟨-, bs, e', -, hr⟩ := writeCategory_eq_error hw
  · exact .refl
  obtain rfl | ⟨place, hf, rfl⟩ := Host.replaceFile_eq_error hr
  · exact .refl
  have htouch : SameFiles (dirPath s.dir) h (h.modifyEntries place.ino id) := sameFiles_touch
  cases hl : h.leadsToDirectory (dirPath s.dir) with
  | true =>
    obtain ⟨q, hd⟩ := Host.leadsToDirectory_iff_hasDir.mp hl
    exact .of_eq (htouch.fileBytes hp hd hn)
  | false =>
    exact fun bs => iff_of_false
      (fileBytes_of_not_leads (dirPath_isEmpty _) (htouch.leadsToDirectory.trans hl) bs)
      (fileBytes_of_not_leads (dirPath_isEmpty _) hl bs)

/-! ## Categories written one after the other -/

/-- The pending ones of some categories have been written: each has its file, and there is no other
file that has changed. -/
structure Wrote (cs : List Category) (s : Store) (h h' : Host) : Prop where
  plain : PlainFiles (dirPath s.dir) h'
  written : ∀ c ∈ cs, s.isPending c = true → ∃ bs, s.encode c = .ok bs ∧
    h'.fileBytes ((dirPath s.dir).child (Name.ofText c.fileName)) = .ok bs
  kept : ∀ name, IsFileName name →
    (∀ c ∈ cs, s.isPending c = true → name ≠ Name.ofText c.fileName) →
      SameBytes (dirPath s.dir) name h h'

theorem wrote_of_writeCategory (hp : PlainFiles (dirPath s.dir) h) (hc : s.isPending c = true)
    (hw : s.writeCategory c h = (.ok (), h')) : Wrote [c] s h h' := by
  obtain ⟨place, bs, hd, he, hno, rfl⟩ := written_of_writeCategory hw
  refine ⟨plainFiles_written hp hd hno, fun c' hc' _ => ?_, fun name hn hne => ?_⟩
  · obtain rfl := List.mem_singleton.mp hc'
    exact ⟨bs, he, fileBytes_written hp hd hno⟩
  · exact .of_eq (fileBytes_written_ne hp hd hno hn (hne c List.mem_cons_self hc))

theorem Wrote.cons (h₁ : Wrote [c] s h h') (h₂ : Wrote cs (s.settle c) h' h'') (hc : c ∉ cs) :
    Wrote (c :: cs) s h h'' := by
  have hdir := (settle_sameRecords s c).dir
  have hpending : ∀ c' ∈ cs, (s.settle c).isPending c' = s.isPending c' := by
    intro c' hc'
    have hne : c' ≠ c := by
      rintro rfl
      exact hc hc'
    simp [isPending_settle, hne]
  obtain ⟨hplain, hwritten, hkept⟩ := h₂
  rw [hdir] at hplain hwritten hkept
  refine ⟨hplain, fun c' hc' hp => ?_, fun name hn hne => ?_⟩
  · rcases List.mem_cons.mp hc' with rfl | hc'
    · obtain ⟨bs, he, hb⟩ := h₁.written c' List.mem_cons_self hp
      refine ⟨bs, he, (hkept _ (isFileName_fileName c') (fun c'' hc'' _ => fileName_ne ?_) bs).mpr
        hb⟩
      rintro rfl
      exact hc hc''
    · obtain ⟨bs, he, hb⟩ := hwritten c' hc' ((hpending c' hc').trans hp)
      exact ⟨bs, ((settle_sameRecords s c).encode c').symm.trans he, hb⟩
  · have hfirst : SameBytes (dirPath s.dir) name h h' := h₁.kept name hn fun c' hc' hp => by
      obtain rfl := List.mem_singleton.mp hc'
      exact hne c' List.mem_cons_self hp
    exact hfirst.trans (hkept name hn fun c' hc' hp =>
      hne c' (List.mem_cons_of_mem c hc') ((hpending c' hc').symm.trans hp))

theorem flushEach_wrote (hcs : cs.Nodup) (hp : PlainFiles (dirPath s.dir) h)
    (hf : flushEach cs s h = (.ok (), s', h')) : Wrote cs s h h' := by
  induction cs generalizing s h with
  | nil =>
    cases hf
    exact ⟨hp, fun _ hc => absurd hc List.not_mem_nil, fun _ _ _ => .refl⟩
  | cons c cs ih =>
    obtain ⟨hc, hcs⟩ := List.nodup_cons.mp hcs
    rw [flushEach] at hf
    split_ifs at hf with hpend
    · split at hf
      next h₁ hw =>
        have hfirst := wrote_of_writeCategory hp hpend hw
        have hplain : PlainFiles (dirPath (s.settle c).dir) h₁ :=
          (settle_sameRecords s c).dir.symm ▸ hfirst.plain
        exact hfirst.cons (ih hcs hplain hf) hc
      next => cases hf
    · obtain ⟨hplain, hwritten, hkept⟩ := ih hcs hp hf
      refine ⟨hplain, fun c' hc' hp' => ?_, fun name hn hne =>
        hkept name hn fun c' hc' => hne c' (List.mem_cons_of_mem c hc')⟩
      rcases List.mem_cons.mp hc' with rfl | hc'
      · exact absurd hp' hpend
      · exact hwritten c' hc' hp'

theorem isPending_flushEach_of_notMem (hc : c ∉ cs) :
    (flushEach cs s h).2.1.isPending c = s.isPending c := by
  induction cs generalizing s h with
  | nil => rfl
  | cons c' cs ih =>
    rw [List.mem_cons, not_or] at hc
    obtain ⟨hne, hc⟩ := hc
    rw [flushEach]
    split_ifs
    · split
      next =>
        rw [ih hc, isPending_settle]
        simp [hne]
      next => rfl
    · exact ih hc

/-! ## Where writing stops -/

theorem flushEach_eq_error (hf : flushEach cs s h = (.error e, s', h')) :
    ∃ done c rest h₁, cs = done ++ c :: rest ∧ flushEach done s h = (.ok (), s', h₁) ∧
      s'.isPending c = true ∧ s'.writeCategory c h₁ = (.error e, h') := by
  induction cs generalizing s h with
  | nil => cases hf
  | cons c cs ih =>
    rw [flushEach] at hf
    split_ifs at hf with hpend
    · split at hf
      next h₁ hw =>
        obtain ⟨done, c', rest, h₂, rfl, hdone, hc', hw'⟩ := ih hf
        exact ⟨c :: done, c', rest, h₂, rfl, by rw [flushEach, if_pos hpend, hw]; exact hdone,
          hc', hw'⟩
      next e' h₁ hw =>
        cases hf
        exact ⟨[], c, cs, h, rfl, rfl, hpend, hw⟩
    · obtain ⟨done, c', rest, h₂, rfl, hdone, hc', hw'⟩ := ih hf
      exact ⟨c :: done, c', rest, h₂, rfl, by rw [flushEach, if_neg hpend]; exact hdone, hc', hw'⟩

/-- Why a category cannot be written. -/
inductive Obstacle (s : Store) (c : Category) (h' : Host) : StoreError → Prop
  | tooManyEntries : CategoryFile.limit < (s.records c).size →
      Obstacle s c h' (.tooManyEntries c (s.records c).size)
  | fieldTooLong {n : Nat} : CategoryFile.limit < n → s.encode c = .error (.fieldTooLong c n) →
      Obstacle s c h' (.fieldTooLong c n)
  | notReplaceable {bs : Bytes} {e : HostError} {h : Host} : s.encode c = .ok bs →
      Host.replaceFile (dirPath s.dir) (Name.ofText c.fileName) bs categoryFileMode h =
        (.error e, h') → Obstacle s c h' .io

theorem Obstacle.of_encode (he : s.encode c = .error e) : s.Obstacle c h' e := by
  rw [encode_eq] at he
  obtain ⟨hsize, rfl⟩ | ⟨-, n, hn, rfl⟩ := CategoryFile.encode_eq_error_iff.mp he
  · exact .tooManyEntries hsize
  · exact .fieldTooLong (by simpa using List.find?_some hn) ((encode_eq s c).trans he)

/-- Writing stopped with an error, after some categories and before the others. The records are the
same, what came before is no longer pending, and what did not come to be written is as it was. There
is no metadata directory, or else the first category that is left cannot be written. -/
structure Stopped (done left : List Category) (s : Store) (h : Host) (e : StoreError) (s' : Store)
    (h' : Host) : Prop where
  order : done ++ left = Category.all
  records : SameRecords s s'
  written : ∀ c ∈ done, s'.isPending c = false
  waiting : ∀ c ∈ left, s'.isPending c = s.isPending c
  reason : done = [] ∧ e = .io ∧ (∃ e', Host.makeDirs (dirPath s.dir) h = (.error e', h')) ∨
    ∃ c rest, left = c :: rest ∧ s.isPending c = true ∧ s.Obstacle c h' e

/-- The files where writing stopped: the categories before have their encodings, those after and
those that were not pending have the files that they had. -/
structure PartlyWritten (done left : List Category) (s : Store) (h h' : Host) : Prop where
  written : ∀ c ∈ done, s.isPending c = true → ∃ bs, s.encode c = .ok bs ∧
    h'.fileBytes ((dirPath s.dir).child (Name.ofText c.fileName)) = .ok bs
  kept : ∀ c, c ∈ left ∨ s.isPending c = false → ∀ name ∈ c.fileNames,
    SameBytes (dirPath s.dir) name h h'

theorem flush_eq_error (hf : s.flush h = (.error e, s', h')) :
    (e = .io ∧ s' = s ∧ ∃ e', Host.makeDirs (dirPath s.dir) h = (.error e', h')) ∨
      ∃ done c rest h₀ h₁, Host.makeDirs (dirPath s.dir) h = (.ok (), h₀) ∧
        Category.all = done ++ c :: rest ∧ flushEach done s h₀ = (.ok (), s', h₁) ∧
          s'.isPending c = true ∧ s'.writeCategory c h₁ = (.error e, h') := by
  unfold flush at hf
  split_ifs at hf
  · split at hf
    next h₀ hm =>
      obtain ⟨done, c, rest, h₁, hall, hdone, hpend, hw⟩ := flushEach_eq_error hf
      exact .inr ⟨done, c, rest, h₀, h₁, hm, hall, hdone, hpend, hw⟩
    next e' h₀ hm =>
      cases hf
      exact .inl ⟨rfl, rfl, e', hm⟩
  · cases hf

section Stop

variable {rest : List Category} {h₀ h₁ : Host}

theorem notMem_of_order (hall : Category.all = done ++ left) (hc : c ∈ left) : c ∉ done := by
  have hnodup : (done ++ left).Nodup := hall ▸ (by decide : Category.all.Nodup)
  exact fun hmem => (List.nodup_append.mp hnodup).2.2 c hmem c hc rfl

theorem stopped_of_flushEach (hall : Category.all = done ++ c :: rest)
    (hdone : flushEach done s h₀ = (.ok (), s', h₁)) (hpend : s'.isPending c = true)
    (hw : s'.writeCategory c h₁ = (.error e, h')) :
    Stopped done (c :: rest) s h e s' h' := by
  have hsame : SameRecords s s' := by
    have : SameRecords s (flushEach done s h₀).2.1 := flushEach_sameRecords
    rwa [hdone] at this
  have hwaiting : ∀ c' ∈ c :: rest, s'.isPending c' = s.isPending c' := by
    intro c' hc'
    have := isPending_flushEach_of_notMem (s := s) (h := h₀) (notMem_of_order hall hc')
    rwa [hdone] at this
  refine ⟨hall.symm, hsame, fun c' hc' => ?_, hwaiting, .inr ?_⟩
  · have := isPending_of_flushEach (by rw [hdone]) hc'
    rwa [hdone] at this
  · refine ⟨c, rest, rfl, (hwaiting c List.mem_cons_self).symm.trans hpend, ?_⟩
    obtain ⟨he, -⟩ | ⟨rfl, bs, e', hbs, hr⟩ := writeCategory_eq_error hw
    · exact .of_encode (hsame.encode c ▸ he)
    · exact .notReplaceable (hsame.encode c ▸ hbs) (hsame.dir ▸ hr)

theorem partlyWritten_of_flushEach (hp : PlainFiles (dirPath s.dir) h)
    (hr : Reached (dirPath s.dir) h) (hm : (Host.makeDirs (dirPath s.dir) h).2 = h₀)
    (hall : Category.all = done ++ c :: rest)
    (hdone : flushEach done s h₀ = (.ok (), s', h₁))
    (hw : s'.writeCategory c h₁ = (.error e, h')) :
    PartlyWritten done (c :: rest) s h h' := by
  have hnodup : (done ++ c :: rest).Nodup := hall ▸ (by decide : Category.all.Nodup)
  have hdir : s'.dir = s.dir := by
    have : (flushEach done s h₀).2.1.dir = s.dir := flushEach_sameRecords.dir
    rwa [hdone] at this
  have hwrote : Wrote done s h₀ h₁ :=
    flushEach_wrote (List.nodup_append.mp hnodup).1 (hm ▸ hp.makeDirs hr) hdone
  have hlast : ∀ name, IsFileName name → SameBytes (dirPath s.dir) name h₁ h' := by
    intro name hn
    have := sameBytes_writeCategory (hdir.symm ▸ hwrote.plain) hw hn
    rwa [hdir] at this
  refine ⟨fun c' hc' hpend => ?_, fun c' hc' name hname => ?_⟩
  · obtain ⟨bs, he, hb⟩ := hwrote.written c' hc' hpend
    exact ⟨bs, he, (hlast _ (isFileName_fileName c') bs).mpr hb⟩
  · rw [Category.mem_fileNames] at hname
    have hn : IsFileName name := ⟨c', hname⟩
    have hmade : SameBytes (dirPath s.dir) name h h₀ :=
      hm ▸ sameBytes_makeDirs (dirPath_isEmpty _) hr hn
    refine hmade.trans ((hwrote.kept name hn fun c'' hc'' hpend => ?_).trans (hlast name hn))
    -- the file of a category that was written is none of those that are kept
    have hne : c' ≠ c'' := by
      rintro rfl
      obtain hc' | hc' := hc'
      · exact notMem_of_order hall hc' hc''
      · rw [hc'] at hpend
        cases hpend
    rcases hname with rfl | rfl
    · exact fileName_ne hne
    · exact olderFileName_ne _ _

end Stop

/-- **A failure loses nothing**: the records are as they were, the categories before the first that
cannot be written are on the disk, and the files of the others are as they were. -/
theorem stopped_of_flush (hf : s.flush h = (.error e, s', h')) :
    ∃ done left, Stopped done left s h e s' h' ∧
      (PlainFiles (dirPath s.dir) h → Reached (dirPath s.dir) h →
        PartlyWritten done left s h h') := by
  obtain ⟨rfl, rfl, e', hm⟩ | ⟨done, c, rest, h₀, h₁, hm, hall, hdone, hpend, hw⟩ :=
    flush_eq_error hf
  · refine ⟨[], Category.all, ⟨rfl, .refl _, fun _ hc => absurd hc List.not_mem_nil,
      fun _ _ => rfl, .inl ⟨rfl, rfl, e', hm⟩⟩, fun _ hr =>
        ⟨fun _ hc => absurd hc List.not_mem_nil, fun c _ name hname => ?_⟩⟩
    have := sameBytes_makeDirs (dirPath_isEmpty _) hr ⟨c, Category.mem_fileNames.mp hname⟩
    rwa [hm] at this
  · exact ⟨done, c :: rest, stopped_of_flushEach hall hdone hpend hw, fun hp hr =>
      partlyWritten_of_flushEach hp hr (by rw [hm]) hall hdone hw⟩

/-! ## Trying again -/

/-- Nothing else has changed the files of a category: each reads as it did, or as before neither can
be read. -/
def Unaltered (dir : Path) (c : Category) (h h' : Host) : Prop :=
  (∀ name ∈ c.fileNames, h'.fileBytes (dir.child name) = h.fileBytes (dir.child name)) ∨
    ∀ name ∈ c.fileNames, ∀ bs,
      h.fileBytes (dir.child name) ≠ .ok bs ∧ h'.fileBytes (dir.child name) ≠ .ok bs

theorem Unaltered.sameLoad (hu : Unaltered dir c h h') : SameLoad dir c h h' := by
  obtain hsame | hno := hu
  · exact sameLoad_of_fileBytes fun name hname => hsame name (Category.mem_fileNames.mpr hname)
  · intro _ p older
    rw [loadRecords_of_unreadable fun name hname bs =>
        (hno name (Category.mem_fileNames.mpr hname) bs).1,
      loadRecords_of_unreadable fun name hname bs =>
        (hno name (Category.mem_fileNames.mpr hname) bs).2]

theorem settledAt_of_isPending (hc : s.isPending c = true) : s.SettledAt h c := by
  cases c <;> exact fun hp => absurd (hc.symm.trans hp) (by simp)

/-- A store that was loaded, and what has happened since: changes in memory, writes that went well
or not, and whatever else went on at the host, but for the files of categories that were not
pending. Files of the records are no links at any time, and their directory is within reach. -/
inductive Tries (dir : String) : Store → Host → Prop
  | load {h : Host} : PlainFiles (dirPath dir) h → Reached (dirPath dir) h →
      Tries dir (load dir h) h
  | change {s : Store} {h : Host} (c : Change) : Tries dir s h → Tries dir (c.apply s) h
  | flush {s : Store} {h : Host} : Tries dir s h → Tries dir (s.flush h).2.1 (s.flush h).2.2
  | outside {s : Store} {h h' : Host} : Tries dir s h →
      (∀ c, s.isPending c = false → Unaltered (dirPath dir) c h h') →
        PlainFiles (dirPath dir) h' → Reached (dirPath dir) h' → Tries dir s h'

theorem OnDisk.outside (ho : s.OnDisk h)
    (hu : ∀ c, s.isPending c = false → Unaltered (dirPath s.dir) c h h')
    (hp : PlainFiles (dirPath s.dir) h') (hr : Reached (dirPath s.dir) h') : s.OnDisk h' := by
  refine ⟨fun c => ?_, hp, hr⟩
  cases hc : s.isPending c with
  | true => exact settledAt_of_isPending hc
  | false => exact (ho.settled c).congr (hu c hc).sameLoad

/-- **However often it was tried, what is not pending is on the disk.** -/
theorem Tries.onDisk {dir : String} (ht : Tries dir s h) : s.dir = dir ∧ s.OnDisk h := by
  induction ht with
  | load hp hr => exact ⟨rfl, load_settled _ _, hp, hr⟩
  | change c _ ih => exact ⟨(c.kept _).dir.trans ih.1, ih.2.kept (c.kept _)⟩
  | flush _ ih => exact ⟨flush_sameRecords.dir.trans ih.1, ih.2.flush⟩
  | outside _ hu hp hr ih =>
    obtain ⟨rfl, ho⟩ := ih
    exact ⟨rfl, ho.outside hu hp hr⟩

theorem OnDisk.sameRecords_load (ho : s.OnDisk h) (hok : (s.flush h).1 = .ok ()) :
    SameRecords s (load s.dir (s.flush h).2.2) := by
  have hsame : SameRecords s (s.flush h).2.1 := flush_sameRecords
  have hload := ho.flush.settled.eq_load (hasPending_flush hok)
  rw [hsame.dir] at hload
  rwa [hload]

/-- **A failed write loses nothing and can be tried again.** What it leaves are the records as they
were, the categories before the first that cannot be written on the disk, and all the rest as it
was. After any number of failures, with changes in between, the first success writes what is then in
memory. -/
theorem flush_retry (dir : String) :
    (∀ s h e s' h', s.flush h = (.error e, s', h') →
      ∃ done left, Stopped done left s h e s' h' ∧
        (PlainFiles (dirPath s.dir) h → Reached (dirPath s.dir) h →
          PartlyWritten done left s h h')) ∧
      ∀ s h, Tries dir s h → (s.flush h).1 = .ok () →
        SameRecords s (load dir (s.flush h).2.2) := by
  refine ⟨fun s h e s' h' hf => stopped_of_flush hf, fun s h ht hok => ?_⟩
  obtain ⟨rfl, ho⟩ := ht.onDisk
  exact ho.sameRecords_load hok

/-! ## A file that is blocked -/

theorem plainFiles_of_hasDir {place : Place} (hd : h.HasDir dir place)
    (hall : ∀ c ∈ Category.all, ∀ name ∈ c.fileNames, ∀ i ∈ h.child? place.ino name,
      ∃ b ∈ h.body? i, b.isLink = false) : PlainFiles dir h := by
  intro q name i hq ⟨c, hname⟩ hi
  obtain rfl := hd.unique hq
  exact hall c (by cases c <;> decide) name (Category.mem_fileNames.mpr hname) i hi

/-- A host with a directory in the place of the file of the links. -/
def blockedHost : Host :=
  ((Chore.dir 0o755).perform (Path.ofText "/meta/symlinks.bin") (.empty ⟨0, 0⟩)).2

/-- A store of that host with a new link. -/
def blockedStore : Store :=
  ((load "/meta" blockedHost).setPermission "x" ⟨0o600, 1, 2, 0⟩).setSymlink "x" "t"

/-- That host without the directory, after the link could not be written. -/
def freedHost : Host :=
  (Chore.removeDir.perform (Path.ofText "/meta/symlinks.bin")
    (blockedStore.flush blockedHost).2.2).2

theorem tries_blockedStore : Tries "/meta" blockedStore blockedHost := by
  have hdir : blockedHost.HasDir (dirPath "/meta") ⟨[(Name.ofText "meta", 1)]⟩ := ⟨rfl, rfl⟩
  have hplain : PlainFiles (dirPath "/meta") blockedHost :=
    plainFiles_of_hasDir hdir (by decide +kernel)
  have hload : Tries "/meta" (load "/meta" blockedHost) blockedHost := .load hplain (.inl rfl)
  exact (hload.change (.setPermission "x" ⟨0o600, 1, 2, 0⟩)).change (.setSymlink "x" "t")

theorem tries_freedHost : Tries "/meta" (blockedStore.flush blockedHost).2.1 freedHost := by
  have hdir : freedHost.HasDir (dirPath "/meta") ⟨[(Name.ofText "meta", 1)]⟩ := ⟨rfl, rfl⟩
  refine tries_blockedStore.flush.outside (fun c hc => .inl fun name hname => ?_)
    (plainFiles_of_hasDir hdir (by decide +kernel)) (.inl rfl)
  cases c with
  | permissions => rcases Category.mem_fileNames.mp hname with rfl | rfl <;> decide +kernel
  | symlinks => cases hc
  | types => cases hc
  | devices => rcases Category.mem_fileNames.mp hname with rfl | rfl <;> decide +kernel

/-- The link is written once the directory is gone, along with what was recorded since. -/
theorem flush_retry_blocked :
    (∃ done left, PartlyWritten done left blockedStore blockedHost
      (blockedStore.flush blockedHost).2.2) ∧
      ∃ s, s = (blockedStore.flush blockedHost).2.1.setDevice "y" ⟨.char, 1, 3⟩ ∧
        SameRecords s (load "/meta" (s.flush freedHost).2.2) := by
  obtain ⟨hstops, hretry⟩ := flush_retry "/meta"
  obtain ⟨done, left, -, hwritten⟩ := hstops blockedStore blockedHost .io _ _ rfl
  have ho := tries_blockedStore.onDisk.2
  exact ⟨⟨done, left, hwritten ho.plain ho.reached⟩, _, rfl,
    hretry _ _ (tries_freedHost.change (.setDevice "y" ⟨.char, 1, 3⟩)) (by decide +kernel)⟩

/-- A host on which the file of the devices is a link to that of the permissions, and a directory is
in the place of the file of the links. -/
def mirroredHost : Host :=
  ((Chore.link (Bytes.ofText "permissions.bin")).perform (Path.ofText "/meta/devices.bin")
    blockedHost).2

/-- A host with a file of links, of `x` to `t`. -/
def distantHost : Host :=
  ((Chore.file (Bytes.ofText "V87M" ++ [1, 0, 1, 0, 1, 0] ++ Bytes.ofText "x" ++ [1, 0] ++
    Bytes.ofText "t") Host.fileMode).perform (Path.ofText "/meta/symlinks.bin")
    (.empty ⟨0, 0⟩)).2

/-- Through a link, a failed write changes the file of a category that is not pending; and a write
that succeeds may bring files into reach that were not loaded. -/
theorem exists_not_retry :
    (∃ (s : Store) (s' : Store) (h' : Host), s.dir = "/meta" ∧
      s.flush mirroredHost = (.error .io, s', h') ∧ s.isPending .devices = false ∧
        ¬ SameBytes (dirPath s.dir) (Name.ofText Category.devices.fileName) mirroredHost h') ∧
      ∃ s, s = (load "/a/../meta" distantHost).setPermission "x" ⟨0o600, 1, 2, 0⟩ ∧
        (s.flush distantHost).1 = .ok () ∧
          ¬ SameRecords s (load "/a/../meta" (s.flush distantHost).2.2) := by
  refine ⟨⟨((load "/meta" mirroredHost).setPermission "x" ⟨0o600, 1, 2, 0⟩).setSymlink "x" "t",
    _, _, rfl, rfl, rfl, fun hs => ?_⟩, _, rfl, rfl, fun hs => ?_⟩
  · have hnone := (hs _).mp rfl
    cases hnone
  · have hnone : some _ = none := congrArg (fun rs => rs["x"]?) hs.symlinks
    cases hnone

end Store

end GuestShare
