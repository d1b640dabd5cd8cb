import GuestShare.Proofs.Share.Coherence
import GuestShare.Proofs.Share.ConfinedRun

/-!
# Records stay coherent

Writing the records changes none of them, and takes no node away. So as long as only the server
changes an export without links, its records fit each other and the host after every frame, whatever
a client sends, and a client is told the same of links whichever way it asks.

* `Share.Regular`: what holds of a share at any time.
* **`Regular.respond`**: a frame keeps a share regular.
* `Share.ReadsLink`, `Share.ReportsLink`, `Share.ReportsLinkMode`: the ways to ask whether a node is
  a link.
* **`run_coherent`**: coherent records stay coherent, and all ways to ask agree.
-/

namespace GuestShare

namespace Share

/-- An export without links with fids of valid paths and grounded records. -/
structure Regular (s : Share) : Prop where
  sound : s.Sound
  linkFree : s.LinkFree
  validPaths : s.ValidPaths
  grounded : s.Grounded

/-- The target of the fid's node can be read. -/
def ReadsLink (s : Share) (id : FidId) : Prop :=
  ∃ t, (s.answer (.readlink id)).1 = .ok (.readlink t)

/-- The attributes of the fid's node have the qid of a link. -/
def ReportsLink (s : Share) (id : FidId) (mask : UInt64) : Prop :=
  ∃ a, (s.answer (.getattr id mask)).1 = .ok (.getattr a) ∧ a.qid.isSymlink = true

/-- The attributes of the fid's node have the mode of a link. -/
def ReportsLinkMode (s : Share) (id : FidId) (mask : UInt64) : Prop :=
  ∃ a, (s.answer (.getattr id mask)).1 = .ok (.getattr a) ∧
    a.mode &&& NodeKind.typeMask = NodeKind.symlink.typeBits

variable {s s' : Share} {frame : Bytes} {frames : List Bytes} {h : Host} {o : ShareOptions}
  {id : FidId} {fid : Fid} {i : Ino} {n : Inode} {mask : UInt64} {reply : Reply}

/-! ## Frames -/

theorem overlay_flushRecords (k : String) :
    s.flushRecords.2.store.overlay k = s.store.overlay k :=
  Store.flush_sameRecords.overlay k

theorem flushRecords_effect (hs : s.Sound) : Effect s s.flushRecords.2 :=
  .keep (Store.flush_puts.keeps hs.isTree) overlay_flushRecords

namespace Regular

theorem guards (hr : s.Regular) (r : Request) : s.Guards r := fun _ _ _ _ =>
  hr.linkFree.staysInside hr.sound

theorem perform_sound (hr : s.Regular) (r : Request) :
    (s.perform r).2.Sound ∧ (s.perform r).2.root = s.root := by
  have hc := perform_confined hr.sound (hr.guards r)
  exact ⟨hc.sound, hc.root_eq⟩

/-- **A frame keeps a share regular.** -/
theorem respond (hr : s.Regular) : (s.respond frame).2.2.Regular := by
  obtain ⟨hconf, hsound⟩ : s.ConfinedFrame frame ∧ (s.respond frame).2.2.Sound :=
    frame_confined hr.sound fun m _ => hr.guards m.body
  have hfree := hconf.linkFree hr.linkFree
  rcases respond_cases s frame with ⟨e, -, hafter, -⟩ | ⟨m, -, hafter, -⟩
  · rw [hafter]
    exact hr
  · refine ⟨hsound, hfree, ?_, ?_⟩
    · rw [hafter]
      exact validPaths_congr (perform_validPaths hr.validPaths m.body) rfl
    · obtain ⟨hs, hroot⟩ := hr.perform_sound m.body
      rw [hafter]
      exact (flushRecords_effect hs).grounded rfl
        ((perform_effect hr.linkFree hr.sound hr.validPaths m.body).grounded hroot hr.grounded)

theorem masked_respond (hr : s.Regular) (hm : s.store.Masked) :
    (s.respond frame).2.2.store.Masked := by
  rcases respond_cases s frame with ⟨e, -, hafter, -⟩ | ⟨m, -, hafter, -⟩
  · rw [hafter]
    exact hm
  · obtain ⟨hs, -⟩ := hr.perform_sound m.body
    rw [hafter]
    exact (flushRecords_effect hs).masked
      ((perform_effect hr.linkFree hr.sound hr.validPaths m.body).masked hm)

theorem run (hr : s.Regular) : (s.run frames).Regular := by
  induction frames generalizing s with
  | nil => exact hr
  | cons frame frames ih => exact ih hr.respond

theorem masked_run (hr : s.Regular) (hm : s.store.Masked) : (s.run frames).store.Masked := by
  induction frames generalizing s with
  | nil => exact hm
  | cons frame frames ih => exact ih hr.respond (hr.masked_respond hm)

theorem coherent (hr : s.Regular) : s.Coherent :=
  (coherent_iff hr.linkFree hr.sound).mpr hr.grounded

end Regular

/-! ## Asking for links -/

theorem answer_look {r : Request} {a : Answer} (hr : s.perform r = s.settle a)
    (ha : ∀ reply s', a = .ok (reply, s') → s' = s) :
    (s.answer r).1 = .ok reply ↔ a = .ok (reply, s) ∧ s.flushRecords.1 = .ok () := by
  rw [answer_eq_ok_iff, hr]
  rcases a with e | ⟨reply', s'⟩
  · simp [settle]
  · obtain rfl : s' = s := ha reply' s' rfl
    simp [settle]

theorem Coherent.readsLink_iff_kind (hc : s.Coherent) (hl : s.LinkFree) (hs : s.Sound)
    (hid : s.fids[id]? = some fid) (hi : s.inspect fid.path = .ok (i, n)) :
    s.ReadsLink id ↔
      s.store.kind fid.path.key = some .symlink ∧ s.flushRecords.1 = .ok () := by
  have hlook : ∀ reply s', s.readlink id = .ok (reply, s') → s' = s := by
    intro reply s' ho
    obtain ⟨_, _, -, -, -, hs⟩ := readlink_eq_ok_iff.mp ho
    exact hs
  unfold ReadsLink
  simp only [answer_look (r := .readlink id) rfl hlook, exists_and_right,
    hc.readlink_iff hl hs hid hi]

theorem answer_getattr_iff {P : Attr → Prop} (hid : s.fids[id]? = some fid)
    (hi : s.inspect fid.path = .ok (i, n)) :
    (∃ a, (s.answer (.getattr id mask)).1 = .ok (.getattr a) ∧ P a) ↔
      P ((s.nodeOf fid.path i n).attr s.store s.host) ∧ s.flushRecords.1 = .ok () := by
  have hget := getattr_eq_ok hid hi
  have hlook : ∀ reply s', s.getattr id = .ok (reply, s') → s' = s := by
    intro reply s' ho
    rw [hget] at ho
    cases ho
    rfl
  simp only [answer_look (r := .getattr id mask) rfl hlook, hget, Except.ok.injEq, Prod.mk.injEq,
    Reply.getattr.injEq, and_true]
  constructor
  · rintro ⟨_, ⟨rfl, hf⟩, hP⟩
    exact ⟨hP, hf⟩
  · rintro ⟨hP, hf⟩
    exact ⟨_, ⟨rfl, hf⟩, hP⟩

theorem Coherent.readsLink_iff (hc : s.Coherent) (hl : s.LinkFree) (hs : s.Sound)
    (hid : s.fids[id]? = some fid) (hi : s.inspect fid.path = .ok (i, n)) :
    s.ReadsLink id ↔ s.ReportsLink id mask := by
  rw [hc.readsLink_iff_kind hl hs hid hi, ← kind_eq_symlink_iff hl hs hi, ← isSymlink_qid]
  exact (answer_getattr_iff (P := fun a => a.qid.isSymlink = true) hid hi).symm

theorem Coherent.readsLink_iff_mode (hc : s.Coherent) (hl : s.LinkFree) (hs : s.Sound)
    (hid : s.fids[id]? = some fid) (hi : s.inspect fid.path = .ok (i, n)) (hm : s.store.Masked) :
    s.ReadsLink id ↔ s.ReportsLinkMode id mask := by
  have hmode := mode_attr (m := s.nodeOf fid.path i n) (h := s.host) hm
  rw [hc.readsLink_iff_kind hl hs hid hi, ← kind_eq_symlink_iff hl hs hi,
    ← typeBits_inj, ← hmode]
  exact (answer_getattr_iff
    (P := fun a => a.mode &&& NodeKind.typeMask = NodeKind.symlink.typeBits) hid hi).symm

/-! ## Runs -/

theorem coherent_of_blank (hb : ∀ k, s.store.overlay k = .blank) : s.Coherent where
  records k := by
    rw [hb]
    exact Overlay.coherent_blank
  nodes k hk := absurd (hb k) hk
  directories p i n kind _ _ hkind := by
    have hnone : s.store.kind p.key = none := congrArg Overlay.kind (hb p.key)
    rw [hnone] at hkind
    cases hkind

/-- **Coherent records stay coherent** in an export without links, and whether a node is a link can
be asked in any way: by reading its target, by its qid and, if the records the server starts with
hold permission bits only, by its mode. -/
theorem run_coherent (hh : h.WellFormed) (hs : (start o h).1 = .ok s) (hl : s.LinkFree)
    (hc : s.Coherent) :
    (s.run frames).Coherent ∧
      ∀ id fid i n mask, (s.run frames).fids[id]? = some fid →
        (s.run frames).inspect fid.path = .ok (i, n) →
          ((s.run frames).ReadsLink id ↔ (s.run frames).ReportsLink id mask) ∧
            (s.store.Masked →
              ((s.run frames).ReadsLink id ↔ (s.run frames).ReportsLinkMode id mask)) := by
  have hsound := start_sound hh hs
  have hpaths : s.ValidPaths := by
    intro id fid hid
    rw [(start_eq_ok hs).2.2.2.2] at hid
    simp at hid
  have hreg : s.Regular := ⟨hsound, hl, hpaths, (coherent_iff hl hsound).mp hc⟩
  have hend : (s.run frames).Regular := hreg.run
  refine ⟨hend.coherent, fun id fid i n mask hid hi => ?_⟩
  refine ⟨hend.coherent.readsLink_iff hend.linkFree hend.sound hid hi, fun hm => ?_⟩
  exact hend.coherent.readsLink_iff_mode hend.linkFree hend.sound hid hi (hreg.masked_run hm)

/-- On a new host there are no records. -/
theorem run_coherent_empty :
    ∃ s, (start ⟨"/export", "/meta", defaultIounit⟩ (.empty ⟨0, 0⟩)).1 = .ok s ∧ s.LinkFree ∧
      s.Coherent ∧ s.store.Masked ∧ (s.run [attachFrame, chmodFrame]).Coherent := by
  obtain ⟨s, hs, hb⟩ : ∃ s, (start ⟨"/export", "/meta", defaultIounit⟩ (.empty ⟨0, 0⟩)).1 = .ok s ∧
      ∀ k, s.store.overlay k = .blank := ⟨_, rfl, fun k => rfl⟩
  have hl : s.LinkFree := start_linkFree hs fun i => by cases i <;> rfl
  have hc : s.Coherent := coherent_of_blank hb
  have hm : s.store.Masked := fun k r hr => by
    rw [hb] at hr
    cases hr
  exact ⟨s, hs, hl, hc, hm, (run_coherent (Host.wellFormed_empty _) hs hl hc).1⟩

end Share

end GuestShare
