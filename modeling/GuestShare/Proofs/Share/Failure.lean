import GuestShare.Proofs.Host.Missing
import GuestShare.Proofs.Share.Answer

/-!
# Requests that fail

A request that fails leaves host, records and fids as they were. Writing and setting attributes may
have been done in part, and removing lets go of the fid all the same. As nothing is written either
while no record is pending, a client that gets an error, or no answer at all, still has the share
that it had.

* `Share.attach_traceless`: whatever attaching makes of the root, it then finds it.
* **`perform_eq_error`**: what a request leaves that fails.
* `Share.Fails`: a frame that comes to nothing.
* `fails_of_respond`: such is a frame that is answered by an error.
* **`respond_of_fails`**: such a frame leaves no trace.
-/

namespace GuestShare

/-- Requests that may have been carried out in part when they fail. -/
def Request.Compound : Request → Prop
  | .write .. | .setattr .. => True
  | _ => False

namespace Share

variable {s s₀ : Share} {o : ShareOptions} {h : Host} {id : FidId} {uid : UInt32} {r : Request}
  {frame out : Bytes}

/-! ## What a request leaves -/

/-- **Attaching leaves no trace if it fails.** If the root has been made, it is found. -/
theorem attach_traceless (hfits : ∀ n ∈ s.root, Host.Fits n) : s.Traceless (s.attach id uid) := by
  obtain ⟨e, h, hm, he⟩ | ⟨h, hm, he⟩ := s.attach_cases id uid
  · rw [he, Host.makeDirs_ofNames_eq_error hfits hm]
    exact fun _ _ => rfl
  · rw [he]
    rcases List.eq_nil_or_concat' s.root with hroot | ⟨ns, name, hroot⟩
    · rw [hroot] at hm
      cases hm
      exact settle_traceless
    · rw [hroot] at hm
      obtain ⟨i, n, hi⟩ := Host.exists_inspect_of_leadsToDirectory
        (Host.leadsToDirectory_makeDirs (by simp [Host.moves_ofNames]) hm)
      have hnode : (s.on h).node [] = .ok ((s.on h).nodeOf [] i n) := by
        refine node_of_inspect ?_
        rw [inspect, hostPath, hostNames_nil]
        change (h.inspect (Path.ofNames s.root)).mapError _ = _
        rw [hroot, hi]
        rfl
      intro e hfail
      rw [bindRoot, hnode] at hfail
      cases hfail

/-- The share after a request that has failed. -/
def afterError (s : Share) : Request → Share
  | .remove id => s.dropFid id
  | _ => s

/-- **A request that fails leaves the share as it was**, but for the fid of what is to go. -/
theorem perform_eq_error {e : ShareError} (hfits : ∀ n ∈ s.root, Host.Fits n)
    (hr : ¬ r.Compound) (he : (s.perform r).1 = .error e) :
    (s.perform r).2 = s.afterError r := by
  obtain ⟨s', ho⟩ : ∃ s', s.perform r = (.error e, s') := ⟨_, Prod.ext he rfl⟩
  rw [ho]
  cases perform_act ho with
  | fail keeps =>
    cases r with
    | remove id => exact absurd trivial keeps
    | _ => rfl
  | makeRoot =>
    have hsame := attach_traceless hfits e (congrArg Prod.fst ho)
    exact (congrArg Prod.snd ho).symm.trans hsame
  | set | write => exact absurd trivial hr
  | drop drops =>
    obtain ⟨-, hx⟩ | ⟨rfl, -⟩ := drops
    · cases hx
    · rfl

/-! ## The exported directory -/

theorem Reachable.root_eq (hr : s₀.Reachable s) : s.root = s₀.root :=
  hr.invariant (P := fun s => s.root = s₀.root) rfl
    (fun t r ht => (perform_evolves t r).root_eq.trans ht) fun _ ht => ht

theorem start_root_fits (hh : h.WellFormed) (hs : (start o h).1 = .ok s) :
    ∀ n ∈ s.root, Host.Fits n := by
  have hsound := start_sound hh hs
  obtain ⟨i, hi, -⟩ := hsound.root
  exact hsound.isTree.descend_fits hi

/-! ## Frames that fail -/

theorem flushRecords_of_not_pending (hp : s.store.hasPending = false) :
    s.flushRecords = (.ok (), s) := by
  rw [flushRecords, Store.flush_of_not_pending hp]

/-- Nothing is sent back for a frame, or it cannot be read, or its request fails. -/
def Fails (s : Share) (frame : Bytes) : Prop :=
  (s.respond frame).1 = none ∨
    ∀ m, Frame.toRequest frame = .ok m → ∃ e, (s.perform m.body).1 = .error e

theorem perform_ne_error {code : UInt32} (hr : r.FieldsFit) :
    (s.perform r).1 ≠ .ok (.error code) := by
  intro ho
  have hperform : s.perform r = (.ok (.error code), (s.perform r).2) := Prod.ext ho rfl
  obtain ⟨hcode, -⟩ := perform_replies hr hperform
  rcases hs : r.split with c | ⟨op, a⟩
  · obtain rfl := Request.eq_unknown_of_split hs
    cases ho
  · obtain rfl := Request.eq_join_of_split hs
    rw [Request.code_join] at hcode
    exact MessageType.replyCode_ne_errorCode op hcode.symm

/-- A frame that is answered by an error fails, unless the records could not be written. -/
theorem fails_of_respond {tag : UInt16} {code : UInt32} (hout : (s.respond frame).1 = some out)
    (herr : Frame.toReply out = .ok ⟨tag, .error code⟩)
    (hflush : ∀ m, Frame.toRequest frame = .ok m →
      (s.perform m.body).2.flushRecords.1 = .ok ()) : s.Fails frame := by
  refine .inr fun m hm => ?_
  cases ho : (s.perform m.body).1 with
  | error e => exact ⟨e, rfl⟩
  | ok reply =>
    have ha : (s.answer m.body).1 = .ok reply := answer_eq_ok_iff.mpr ⟨ho, hflush m hm⟩
    have hreply : s.replyTo frame = reply := by simp only [replyTo, hm, ha]
    obtain ⟨header, hh, -⟩ := Frame.toRequest_header hm
    rw [respond_fst hh, hreply, encode_eq_some_iff] at hout
    rw [Reply.toReply_of_ofReply hout] at herr
    cases herr
    exact absurd ho (perform_ne_error (Frame.fieldsFit_of_toRequest hm))

theorem perform_of_respond_eq_none {m : Tagged Request} (hm : Frame.toRequest frame = .ok m)
    (hnone : (s.respond frame).1 = none) : (s.perform m.body).2 = s.afterError m.body := by
  obtain ⟨header, hh, -⟩ := Frame.toRequest_header hm
  obtain ⟨tag, fid, target, hlink, hreply, -⟩ := (respond_eq_none_iff hh).mp hnone
  rw [hm] at hlink
  cases hlink
  obtain ⟨f, t, -, -, -, hs⟩ := readlink_eq_ok_iff.mp
    (settle_eq_ok_iff.mp (Prod.ext (answer_eq_ok_iff.mp hreply).1 rfl))
  exact hs

theorem respond_snd_of_fails {m : Tagged Request} (hfits : ∀ n ∈ s.root, Host.Fits n)
    (hp : s.store.hasPending = false) (hf : s.Fails frame) (hm : Frame.toRequest frame = .ok m)
    (hc : ¬ m.body.Compound) : (s.respond frame).2.2 = s.afterError m.body := by
  have hperform : (s.perform m.body).2 = s.afterError m.body := by
    rcases hf with hnone | herr
    · exact perform_of_respond_eq_none hm hnone
    · obtain ⟨e, he⟩ := herr m hm
      exact perform_eq_error hfits hc he
  have hstore : (s.afterError m.body).store = s.store := by
    unfold afterError
    split <;> rfl
  obtain ⟨e, he, -⟩ | ⟨m', hm', hafter, -⟩ := respond_cases s frame
  · cases hm.symm.trans he
  · cases hm.symm.trans hm'
    rw [hafter, hperform, flushRecords_of_not_pending (by rw [hstore, hp])]

/-- **A frame that fails leaves no trace.** While nothing is pending, the share stays as it was: the
host, the records, the fids. Only a fid whose node was to be removed is let go of, and nothing else
then. -/
theorem respond_of_fails (hh : h.WellFormed) (hs : (start o h).1 = .ok s₀)
    (hr : s₀.Reachable s) (hp : s.store.hasPending = false) (hf : s.Fails frame)
    (hc : ∀ m, Frame.toRequest frame = .ok m → ¬ m.body.Compound) :
    (∀ tag id fid, Frame.toRequest frame = .ok ⟨tag, .remove id⟩ → s.fids[id]? = some fid →
      (s.respond frame).2.2 = s.dropFid id) ∧
    ((∀ tag id, Frame.toRequest frame = .ok ⟨tag, .remove id⟩ → s.fids[id]? = none) →
      (s.respond frame).2.2 = s) := by
  have hfits : ∀ n ∈ s.root, Host.Fits n := hr.root_eq ▸ start_root_fits hh hs
  refine ⟨fun tag id fid hm _ => respond_snd_of_fails hfits hp hf hm (hc _ hm), fun hno => ?_⟩
  rcases hm : Frame.toRequest frame with e | ⟨tag, r⟩
  · obtain ⟨_, -, hafter, -⟩ | ⟨m, hm', -⟩ := respond_cases s frame
    · exact hafter
    · cases hm.symm.trans hm'
  · rw [respond_snd_of_fails hfits hp hf hm (hc _ hm)]
    cases r with
    | remove id => exact dropFid_eq_self (hno tag id hm)
    | _ => rfl

/-- The frame of a request to remove the node of fid 0. -/
def removeFrame : Bytes := [11, 0, 0, 0, 122, 1, 0, 0, 0, 0, 0]

theorem removeFrame_eq_ok : Frame.toRequest removeFrame = .ok ⟨1, .remove 0⟩ := rfl

/-- The root cannot be removed. Its fid is gone after that. -/
theorem respond_of_fails_empty :
    ∃ s₀ s fid, (start ⟨"/export", "/meta", defaultIounit⟩ (.empty ⟨0, 0⟩)).1 = .ok s₀ ∧
      s₀.Reachable s ∧ s.store.hasPending = false ∧ s.Fails removeFrame ∧
      s.fids[(0 : FidId)]? = some fid ∧ (s.respond removeFrame).2.2 = s.dropFid 0 := by
  obtain ⟨s₀, s, hs, hr, hp, fid, hid, hpath⟩ : ∃ s₀ s,
      (start ⟨"/export", "/meta", defaultIounit⟩ (.empty ⟨0, 0⟩)).1 = .ok s₀ ∧
        s₀.Reachable s ∧ s.store.hasPending = false ∧
          ∃ fid, s.fids[(0 : FidId)]? = some fid ∧ fid.path = [] :=
    ⟨_, _, rfl, .respond attachFrame .refl, rfl, _, rfl, rfl⟩
  have hf : s.Fails removeFrame := by
    refine .inr fun m hm => ⟨.refused .removeRoot, ?_⟩
    cases removeFrame_eq_ok.symm.trans hm
    change (s.remove 0).1 = _
    rw [remove, fids_find_eq_ok_iff.mpr hid]
    simp [hpath]
  refine ⟨s₀, s, fid, hs, hr, hp, hf, hid, ?_⟩
  refine (respond_of_fails (Host.wellFormed_empty _) hs hr hp hf fun m hm => ?_).1 1 0 fid
    removeFrame_eq_ok hid
  cases removeFrame_eq_ok.symm.trans hm
  exact id

end Share

end GuestShare
