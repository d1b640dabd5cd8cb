import GuestShare.Proofs.Share.Confinement

/-!
# Runs stay in the export

Between two requests only the records are written, to the directory of the metadata path. So
whatever a client sends, a share without links of the host never touches or tells of a node outside
of the export, and neither does any other share as long as no request follows a path that leads out.

* `Share.IsMetadata`: the directories on the way of the metadata path.
* `Share.WritesRecords`: what writing the records may do to the host.
* `Share.ConfinedRun`: a run of frames that keeps to the export.
* **`run_confined`**: shares without links, and guarded runs, keep to the export.
-/

namespace GuestShare

namespace Share

/-- A directory on the way of the metadata path, once its directories are made. -/
def IsMetadata (s : Share) : Ino → Prop :=
  (Host.makeDirs (Store.dirPath s.store.dir) s.host).2.OnWay (Store.dirPath s.store.dir)

/-- Writing the records changes directories of the metadata path only, and puts entries into them
only. -/
structure WritesRecords (s s' : Share) : Prop where
  sound : s'.Sound
  root_eq : s'.root = s.root
  fids_eq : s'.fids = s.fids
  size_le : s.host.nodes.size ≤ s'.host.nodes.size
  target?_eq : ∀ i, s'.host.target? i = s.host.target? i
  untouched : ∀ i, i < s.host.nodes.size → ¬ s.IsMetadata i → s'.host.node? i = s.host.node? i
  entries : ∀ d name i, s'.host.child? d name = some i →
    s.host.child? d name = some i ∨ s.IsMetadata d
  outside : ∀ i, i < s.host.nodes.size → s'.Inside i → s.Inside i

variable {s s' : Share} {frame : Bytes} {frames more : List Bytes} {h : Host} {o : ShareOptions}
  {r : Request} {i : Ino}

theorem flushRecords_writesRecords (hs : s.Sound) : s.WritesRecords s.flushRecords.2 where
  sound := (hs.puts (Store.flush_puts (s := s.store) (h := s.host))).congr rfl rfl
  root_eq := rfl
  fids_eq := rfl
  size_le := (Store.flush_puts (s := s.store) (h := s.host)).size_le
  target?_eq := Store.flush_puts.target?_eq
  untouched _ hi hm := Store.flush_puts.node?_eq hi hm
  entries _ _ _ he := Store.flush_puts.child?_or he
  outside i hi := by
    rintro ⟨ns, hns⟩
    exact ⟨ns, (Store.flush_puts (s := s.store) (h := s.host)).descend_old hi hns⟩

theorem LinkFree.writesRecords (hl : s.LinkFree) (hw : s.WritesRecords s') : s'.LinkFree := by
  intro i hi
  rw [hw.target?_eq]
  by_cases hlt : i < s.host.nodes.size
  · exact hl i (hw.outside i hlt hi)
  · unfold Host.target? Host.body?
    rw [show s.host.node? i = none by simpa [Host.node?] using hlt]
    rfl

theorem answer_snd (s : Share) (r : Request) :
    (s.answer r).2.2 = (s.perform r).2.flushRecords.2 := by
  unfold answer
  rcases s.perform r with ⟨result, s₁⟩
  simp only
  split
  next s₂ hf => rw [hf]
  next e s₂ hf => rw [hf]

theorem answer_eq_ok_iff {reply : Reply} :
    (s.answer r).1 = .ok reply ↔
      (s.perform r).1 = .ok reply ∧ (s.perform r).2.flushRecords.1 = .ok () := by
  unfold answer
  rcases s.perform r with ⟨result, s₁⟩
  rcases hf : s₁.flushRecords with ⟨e | ⟨⟩, s₂⟩
  · simp only [hf, reduceCtorEq, and_false, iff_false]
    intro ha
    obtain ⟨_, -, he⟩ := Outcome.bind_eq_ok_iff.mp ha
    cases he
  · simp only [hf, and_true]

theorem respond_cases (s : Share) (frame : Bytes) :
    (∃ e, Frame.toRequest frame = .error e ∧ (s.respond frame).2.2 = s ∧
      ∀ out, (s.respond frame).1 = some out →
        ∃ tag code, Frame.ofReply ⟨tag, .error code⟩ = .ok out) ∨
    ∃ m, Frame.toRequest frame = .ok m ∧
      (s.respond frame).2.2 = (s.perform m.body).2.flushRecords.2 ∧
      ∀ out, (s.respond frame).1 = some out →
        ∃ reply, Frame.ofReply ⟨m.tag, reply⟩ = .ok out ∧
          ((∃ code, reply = .error code) ∨ (s.answer m.body).1 = .ok reply) := by
  have encode_fst : ∀ {tag body out}, (encode tag body).1 = some out →
      Frame.ofReply ⟨tag, body⟩ = .ok out := by
    intro tag body out he
    unfold encode at he
    split at he
    next bs hbs =>
      cases he
      exact hbs
    next => cases he
  unfold respond
  cases hm : Frame.toRequest frame with
  | error e =>
    refine .inl ⟨e, rfl, ?_⟩
    simp only
    cases Frame.header frame with
    | error _ => exact ⟨rfl, fun _ he => by cases he⟩
    | ok header => exact ⟨rfl, fun out he => ⟨_, _, encode_fst he⟩⟩
  | ok m =>
    refine .inr ⟨m, rfl, ?_⟩
    rw [← answer_snd]
    simp only
    rcases ha : s.answer m.body with ⟨e | body, notices, s₁⟩
    · exact ⟨rfl, fun out he => ⟨_, encode_fst he, .inl ⟨_, rfl⟩⟩⟩
    · exact ⟨rfl, fun out he => ⟨body, encode_fst he, .inr rfl⟩⟩

/-! ## Runs -/

/-- The share after some frames. -/
def run (s : Share) : List Bytes → Share
  | [] => s
  | frame :: frames => (s.respond frame).2.2.run frames

/-- The states of a server once it has started. It answers frames, and lets go of all fids for a new
client. -/
inductive Reachable (s : Share) : Share → Prop
  | refl : Reachable s s
  | respond {t : Share} (frame : Bytes) : Reachable s t → Reachable s (t.respond frame).2.2
  | reset {t : Share} : Reachable s t → Reachable s t.reset

/-- What requests keep, with the records written after each of them, and what letting go of all fids
keeps, holds of every state if it holds at first. -/
theorem Reachable.invariant {P : Share → Prop} (hr : s.Reachable s') (h₀ : P s)
    (hrequest : ∀ t r, P t → P (t.perform r).2.flushRecords.2) (hreset : ∀ t, P t → P t.reset) :
    P s' := by
  induction hr with
  | refl => exact h₀
  | @respond t frame _ ih =>
    obtain ⟨-, -, hafter, -⟩ | ⟨m, -, hafter, -⟩ := t.respond_cases frame
    · rw [hafter]
      exact ih
    · rw [hafter]
      exact hrequest t m.body ih
  | reset _ ih => exact hreset _ ih

/-- A frame that keeps to the export: its request does, then the records are written, and the frame
sent back carries a reply that tells of the export only. -/
def ConfinedFrame (s : Share) (frame : Bytes) : Prop :=
  (∀ m, Frame.toRequest frame = .ok m →
      Confined s (s.perform m.body).1 (s.perform m.body).2 ∧
        (s.perform m.body).2.WritesRecords (s.respond frame).2.2) ∧
    (∀ e, Frame.toRequest frame = .error e → (s.respond frame).2.2 = s) ∧
    ∀ out, (s.respond frame).1 = some out →
      ∃ tag reply, Frame.ofReply ⟨tag, reply⟩ = .ok out ∧
        (s.Tells reply ∨ ∃ m, Frame.toRequest frame = .ok m ∧ (s.perform m.body).2.Tells reply)

/-- A run of frames that keeps to the export. -/
def ConfinedRun : Share → List Bytes → Prop
  | _, [] => True
  | s, frame :: frames => s.ConfinedFrame frame ∧ (s.respond frame).2.2.ConfinedRun frames

/-- A run in which no request follows a path that leads out of the export. -/
def GuardedRun : Share → List Bytes → Prop
  | _, [] => True
  | s, frame :: frames =>
    (∀ m, Frame.toRequest frame = .ok m → s.Guards m.body) ∧
      (s.respond frame).2.2.GuardedRun frames

/-- A run in which a node is never on the way of the metadata path. -/
def SparingRun (i : Ino) : Share → List Bytes → Prop
  | _, [] => True
  | s, frame :: frames =>
    (∀ m, Frame.toRequest frame = .ok m → ¬ (s.perform m.body).2.IsMetadata i) ∧
      (s.respond frame).2.2.SparingRun i frames

theorem frame_confined (hs : s.Sound)
    (hg : ∀ m, Frame.toRequest frame = .ok m → s.Guards m.body) :
    s.ConfinedFrame frame ∧ (s.respond frame).2.2.Sound := by
  rcases respond_cases s frame with ⟨e, hm, hafter, hout⟩ | ⟨m, hm, hafter, hout⟩
  · refine ⟨⟨fun m' hm' => ?_, fun _ _ => hafter, fun out ho => ?_⟩,
      hs.congr (by rw [hafter]) (by rw [hafter])⟩
    · rw [hm] at hm'
      cases hm'
    · obtain ⟨tag, code, hf⟩ := hout out ho
      exact ⟨tag, _, hf, .inl trivial⟩
  · have hc := perform_confined hs (hg m hm)
    have hw := flushRecords_writesRecords hc.sound
    rw [← hafter] at hw
    refine ⟨⟨fun m' hm' => ?_, fun e he => ?_, fun out ho => ?_⟩, hw.sound⟩
    · rw [hm] at hm'
      cases hm'
      exact ⟨hc, hw⟩
    · rw [hm] at he
      cases he
    · obtain ⟨reply, hf, ⟨code, rfl⟩ | ha⟩ := hout out ho
      · exact ⟨m.tag, _, hf, .inl trivial⟩
      · rcases hc.tells reply (answer_eq_ok_iff.mp ha).1 with ht | ht
        · exact ⟨m.tag, reply, hf, .inl ht⟩
        · exact ⟨m.tag, reply, hf, .inr ⟨m, hm, ht⟩⟩

theorem ConfinedFrame.sound (hs : s.Sound) (hc : s.ConfinedFrame frame) :
    (s.respond frame).2.2.Sound := by
  rcases respond_cases s frame with ⟨e, -, hafter, -⟩ | ⟨m, hm, -, -⟩
  · rw [hafter]
    exact hs
  · exact (hc.1 m hm).2.sound

theorem ConfinedRun.sound (hs : s.Sound) (hc : s.ConfinedRun frames) : (s.run frames).Sound := by
  induction frames generalizing s with
  | nil => exact hs
  | cons frame frames ih => exact ih (hc.1.sound hs) hc.2

theorem confinedRun_append_iff :
    s.ConfinedRun (frames ++ more) ↔ s.ConfinedRun frames ∧ (s.run frames).ConfinedRun more := by
  induction frames generalizing s with
  | nil => simp only [List.nil_append, ConfinedRun, run, true_and]
  | cons frame frames ih => exact (and_congr_right fun _ => ih).trans and_assoc.symm

theorem GuardedRun.confined (hs : s.Sound) (hg : s.GuardedRun frames) : s.ConfinedRun frames := by
  induction frames generalizing s with
  | nil => trivial
  | cons frame frames ih =>
    obtain ⟨hc, hs'⟩ := frame_confined hs hg.1
    exact ⟨hc, ih hs' hg.2⟩

theorem ConfinedFrame.linkFree (hl : s.LinkFree) (hc : s.ConfinedFrame frame) :
    (s.respond frame).2.2.LinkFree := by
  rcases respond_cases s frame with ⟨e, hm, hafter, -⟩ | ⟨m, hm, -, -⟩
  · rw [hafter]
    exact hl
  · obtain ⟨hconf, hw⟩ := hc.1 m hm
    have hl' : (s.perform m.body).2.LinkFree := by
      intro i hi
      exact hl.on hconf.changes i ((inside_on_iff hconf.root_eq).mpr hi)
    exact hl'.writesRecords hw

theorem LinkFree.guardedRun (hl : s.LinkFree) (hs : s.Sound) : s.GuardedRun frames := by
  induction frames generalizing s with
  | nil => trivial
  | cons frame frames ih =>
    have hg : ∀ m, Frame.toRequest frame = .ok m → s.Guards m.body :=
      fun m _ id _ fid _ => hl.staysInside hs
    obtain ⟨hc, hs'⟩ := frame_confined hs hg
    exact ⟨hg, ih (hc.linkFree hl) hs'⟩

/-- A node outside of the export that no fid holds stays as it is, unless it is on the way of the
metadata path. -/
theorem ConfinedRun.untouched (hc : s.ConfinedRun frames) (hi : i < s.host.nodes.size)
    (hout : ¬ s.Inside i) (hheld : ¬ s.Holds i) (hm : s.SparingRun i frames) :
    (s.run frames).host.node? i = s.host.node? i ∧ ¬ (s.run frames).Inside i := by
  induction frames generalizing s with
  | nil => exact ⟨rfl, hout⟩
  | cons frame frames ih =>
    obtain ⟨hframe, hrest⟩ := hc
    rcases respond_cases s frame with ⟨e, he, hafter, -⟩ | ⟨m, hreq, hafter, -⟩
    · obtain ⟨-, hspare⟩ := hm
      rw [run]
      rw [hafter] at hrest hspare ⊢
      exact ih hrest hi hout hheld hspare
    · obtain ⟨hconf, hw⟩ := hframe.1 m hreq
      have hnode := hconf.changes.untouched i hi hout hheld
      have hlt := Nat.lt_of_lt_of_le hi hconf.changes.size_le
      have hout₁ : ¬ (s.perform m.body).2.Inside i := fun hin =>
        hout (hconf.changes.outside i hi ((inside_on_iff hconf.root_eq).mpr hin))
      have hheld₁ : ¬ (s.perform m.body).2.Holds i := by
        intro hh
        rcases hconf.holds hh with hh | hin
        · exact hheld hh
        · exact hout₁ hin
      have hnode' := hw.untouched i hlt (hm.1 m hreq)
      have hheld' : ¬ (s.respond frame).2.2.Holds i := by
        rintro ⟨id, fid, d, hid, hd⟩
        rw [hw.fids_eq] at hid
        exact hheld₁ ⟨id, fid, d, hid, hd⟩
      obtain ⟨hend, hin⟩ := ih hrest (Nat.lt_of_lt_of_le hlt hw.size_le)
        (fun hin => hout₁ (hw.outside i hlt hin)) hheld' hm.2
      exact ⟨hend.trans (hnode'.trans hnode), hin⟩

theorem start_linkFree (hs : (start o h).1 = .ok s) (hl : ∀ i, h.target? i = none) :
    s.LinkFree := by
  obtain ⟨I, hp⟩ := start_puts hs
  intro i _
  rw [hp.target?_eq, hl]

/-- **Shares without links, and guarded runs, keep to the export**: every frame does, and at the end
each node that was outside at the start, and never on the way of the metadata path, is as it was. -/
theorem run_confined (hh : h.WellFormed) (hs : (start o h).1 = .ok s)
    (hg : s.LinkFree ∨ s.GuardedRun frames) :
    s.ConfinedRun frames ∧
      ∀ i, i < s.host.nodes.size → ¬ s.Inside i → s.SparingRun i frames →
        (s.run frames).host.node? i = s.host.node? i ∧ ¬ (s.run frames).Inside i := by
  have hsound := start_sound hh hs
  have hconf : s.ConfinedRun frames := by
    rcases hg with hl | hg
    · exact (hl.guardedRun hsound).confined hsound
    · exact hg.confined hsound
  refine ⟨hconf, fun i hi hout hm => hconf.untouched hi hout ?_ hm⟩
  rintro ⟨id, fid, d, hid, -⟩
  rw [(start_eq_ok hs).2.2.2.2] at hid
  simp at hid

/-- The frame of a request to attach fid 0. -/
def attachFrame : Bytes :=
  [23, 0, 0, 0, 104, 1, 0, 0, 0, 0, 0, 255, 255, 255, 255, 0, 0, 0, 0, 0, 0, 0, 0]

/-- The frame of a request that sets the permission bits of the node of fid 0. -/
def chmodFrame : Bytes :=
  [67, 0, 0, 0, 26, 1, 0, 0, 0, 0, 0, 1, 0, 0, 0, 192, 1, 0, 0] ++ List.replicate 48 0

/-- A new host has no links. -/
theorem run_confined_empty :
    ∃ s, (start ⟨"/export", "/meta", defaultIounit⟩ (.empty ⟨0, 0⟩)).1 = .ok s ∧ s.LinkFree ∧
      s.ConfinedRun [attachFrame, chmodFrame] := by
  obtain ⟨s, hs⟩ : ∃ s, (start ⟨"/export", "/meta", defaultIounit⟩ (.empty ⟨0, 0⟩)).1 = .ok s :=
    ⟨_, rfl⟩
  have hl : s.LinkFree := start_linkFree hs fun i => by cases i <;> rfl
  exact ⟨s, hs, hl, (run_confined (Host.wellFormed_empty _) hs (.inl hl)).1⟩

end Share

end GuestShare
