import GuestShare.Host.Tree
import GuestShare.Proofs.Metadata.Change
import GuestShare.Proofs.Share.ConfinedRun
import GuestShare.Proofs.Share.Records

/-!
# Records outlive the server

The server writes its records after every request, and tells of failure if it cannot. Requests
change records only in ways that leave a ledger pending, so at any time a ledger that is not pending
is the one that a new server would load, and after a request that went well all of them are.

* **`perform_kept`**: every request keeps the records so.
* `Share.UndisturbedRun`: a run in which only the server writes to the metadata directory.
* `Share.DurableRun`: a run throughout which the records are on the disk.
* **`run_durable`**: undisturbed runs are durable.
-/

namespace GuestShare

namespace Store

variable {s s' : Store}

theorem Edits.kept {P : String → Prop} (he : s.Edits P s') : Kept s s' := by
  induction he with
  | refl => exact .refl s
  | setPermission _ _ ih => exact ih.trans kept_setPermission
  | setKind _ ih => exact ih.trans kept_setKind
  | setSymlink _ _ ih => exact ih.trans kept_setSymlink
  | setDevice _ ih => exact ih.trans kept_setDevice
  | delete _ ih => exact ih.trans kept_delete
  | rename _ ih => exact ih.trans kept_rename

end Store

namespace Share

variable {s : Share} {frame : Bytes} {frames : List Bytes} {h : Host} {o : ShareOptions}

/-- **Every request leaves each ledger pending or as it was.** -/
theorem perform_kept (s : Share) (r : Request) : s.store.Kept (s.perform r).2.store :=
  (perform_evolves s r).records.kept

/-! ## Runs -/

/-- A run in which no request changes the files in the metadata directory, or where it is. -/
def UndisturbedRun : Share → List Bytes → Prop
  | _, [] => True
  | s, frame :: frames =>
    (∀ m, Frame.toRequest frame = .ok m →
        Store.SameFiles (Store.dirPath s.store.dir) s.host (s.perform m.body).2.host) ∧
      (s.respond frame).2.2.UndisturbedRun frames

/-- A run throughout which each ledger that is not pending is as its files have it; and after each
answer that is no error, a new server would load all the records. -/
def DurableRun : Share → List Bytes → Prop
  | s, [] => s.store.Settled s.host
  | s, frame :: frames =>
    s.store.Settled s.host ∧
      (∀ out, (s.respond frame).1 = some out →
        (∃ tag code, Frame.ofReply ⟨tag, .error code⟩ = .ok out) ∨
          ((s.respond frame).2.2.store.hasPending = false ∧
            Store.load (s.respond frame).2.2.store.dir (s.respond frame).2.2.host =
              (s.respond frame).2.2.store)) ∧
      (s.respond frame).2.2.DurableRun frames

theorem respond_onDisk (ho : s.store.OnDisk s.host)
    (hu : ∀ m, Frame.toRequest frame = .ok m →
      Store.SameFiles (Store.dirPath s.store.dir) s.host (s.perform m.body).2.host) :
    (s.respond frame).2.2.store.OnDisk (s.respond frame).2.2.host := by
  rcases respond_cases s frame with ⟨e, -, hafter, -⟩ | ⟨m, hm, hafter, -⟩
  · rw [hafter]
    exact ho
  · rw [hafter]
    exact ((ho.sameFiles (hu m hm)).kept (perform_kept s m.body)).flush

theorem hasPending_respond {out : Bytes} (hout : (s.respond frame).1 = some out)
    (herr : ¬ ∃ tag code, Frame.ofReply ⟨tag, .error code⟩ = .ok out) :
    (s.respond frame).2.2.store.hasPending = false := by
  rcases respond_cases s frame with ⟨e, -, -, hans⟩ | ⟨m, -, hafter, hans⟩
  · exact absurd (hans out hout) herr
  · obtain ⟨reply, hf, ⟨code, rfl⟩ | ha⟩ := hans out hout
    · exact absurd ⟨m.tag, code, hf⟩ herr
    · rw [hafter]
      exact Store.hasPending_flush (answer_eq_ok_iff.mp ha).2

theorem durableRun_of_onDisk (ho : s.store.OnDisk s.host) (hu : s.UndisturbedRun frames) :
    s.DurableRun frames := by
  induction frames generalizing s with
  | nil => exact ho.settled
  | cons frame frames ih =>
    obtain ⟨hframe, hrest⟩ := hu
    have hafter := respond_onDisk ho hframe
    refine ⟨ho.settled, fun out hout => ?_, ih hafter hrest⟩
    by_cases herr : ∃ tag code, Frame.ofReply ⟨tag, .error code⟩ = .ok out
    · exact .inl herr
    · have hnone := hasPending_respond hout herr
      exact .inr ⟨hnone, hafter.settled.eq_load hnone⟩

/-- **Undisturbed runs are durable**, if the files of the records are files of their own, and their
directory is there at the start or its path does not go up. -/
theorem run_durable (hs : (start o h).1 = .ok s)
    (hr : Store.Reached (Store.dirPath o.metadataDir) s.host)
    (hp : Store.PlainFiles (Store.dirPath o.metadataDir) s.host)
    (hu : s.UndisturbedRun frames) : s.DurableRun frames := by
  have hstore := (start_eq_ok hs).2.2.2.1
  refine durableRun_of_onDisk ?_ hu
  rw [hstore]
  exact ⟨Store.load_settled _ _, hp, hr⟩

theorem frames_eq_ok :
    Frame.toRequest attachFrame = .ok ⟨1, .attach 0 noId "" "" 0⟩ ∧
      Frame.toRequest chmodFrame =
        .ok ⟨1, .setattr 0 { (default : SetAttr) with valid := 1, mode := 0o700 }⟩ :=
  ⟨rfl, rfl⟩

/-- A new metadata directory is made when the first record is written. -/
theorem run_durable_empty :
    ∃ s, (start ⟨"/export", "/meta", defaultIounit⟩ (.empty ⟨0, 0⟩)).1 = .ok s ∧
      s.DurableRun [attachFrame, chmodFrame] := by
  refine ⟨_, rfl, run_durable (o := ⟨"/export", "/meta", defaultIounit⟩) (h := .empty ⟨0, 0⟩) rfl
    (.inr (by decide)) (Store.plainFiles_of_not_leads rfl)
    ⟨fun m hm => ?_, fun m hm => ?_, trivial⟩⟩
  · rw [frames_eq_ok.1] at hm
    cases hm
    exact .refl _ _
  · rw [frames_eq_ok.2] at hm
    cases hm
    exact .refl _ _

/-- A host on which the file of the device records is a link to that of the permissions. -/
def linkedHost : Host :=
  ((Chore.link (Bytes.ofText "permissions.bin")).perform (Path.ofText "/meta/devices.bin")
    (.empty ⟨0, 0⟩)).2

/-- A host with a file of links, of `x` to `t`. -/
def recordedHost : Host :=
  ((Chore.file (Bytes.ofText "V87M" ++ [1, 0, 1, 0, 1, 0] ++ Bytes.ofText "x" ++ [1, 0] ++
    Bytes.ofText "t") Host.fileMode).perform (Path.ofText "/meta/symlinks.bin")
    (.empty ⟨0, 0⟩)).2

/-- Undisturbed runs need not be durable if a category file is a link to another one, or if the
metadata path passes a missing directory and goes up again. -/
theorem exists_not_durableRun :
    (∃ s, (start ⟨"/export", "/meta", defaultIounit⟩ linkedHost).1 = .ok s ∧
      s.UndisturbedRun [attachFrame, chmodFrame] ∧ ¬ s.DurableRun [attachFrame, chmodFrame]) ∧
    ∃ s, (start ⟨"/export", "/a/../meta", defaultIounit⟩ recordedHost).1 = .ok s ∧
      s.UndisturbedRun [attachFrame, chmodFrame] ∧ ¬ s.DurableRun [attachFrame, chmodFrame] := by
  refine ⟨⟨_, rfl, ⟨fun m hm => ?_, fun m hm => ?_, trivial⟩, fun hd => ?_⟩,
    ⟨_, rfl, ⟨fun m hm => ?_, fun m hm => ?_, trivial⟩, fun hd => ?_⟩⟩
  · rw [frames_eq_ok.1] at hm
    cases hm
    exact .refl _ _
  · rw [frames_eq_ok.2] at hm
    cases hm
    exact .refl _ _
  · have hsettled := hd.2.2.2.2 .devices rfl
    have : none = some _ := congrArg (fun l => l.records["."]?) hsettled
    cases this
  · rw [frames_eq_ok.1] at hm
    cases hm
    exact .refl _ _
  · rw [frames_eq_ok.2] at hm
    cases hm
    exact .refl _ _
  · have hsettled := hd.2.2.2.2 .symlinks rfl
    have : none = some _ := congrArg (fun l => l.records["x"]?) hsettled
    cases this

end Share

end GuestShare
