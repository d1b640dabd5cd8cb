import Mathlib
import GuestShare.Proofs.Share.ConfinedRun

/-!
# Paths that lead out of the export

The check of a walk looks at the host as it is then. A link that is moved later may lead the path of
a fid out of the export, and who asks for the attributes of the fid is told of a node outside.

* **`getattr_confined_iff`**: attributes are told of a node of the export just if it is one.
* **`exists_not_confinedRun`**: runs that are not guarded need not keep to the export.
-/

namespace GuestShare

namespace Share

variable {s : Share} {i : Ino} {n : Inode} {id : FidId} {fid : Fid} {mask : UInt64}
  {frame : Bytes} {frames : List Bytes}

theorem Knows.ino_lt {m : Node} (hm : s.Knows m) : m.ino < s.host.nodes.size := by
  rw [← Host.node?_isSome_iff, hm.2]
  rfl

/-- **The check is needed**: to ask for the attributes of a fid is confined only if its path leads
to a node of the export. -/
theorem getattr_confined_iff (hs : s.Sound) (hsize : s.host.nodes.size ≤ UInt64.size)
    (hid : s.fids[id]? = some fid) (hi : s.inspect fid.path = .ok (i, n)) :
    Confined s (s.perform (.getattr id mask)).1 (s.perform (.getattr id mask)).2 ↔ s.Inside i := by
  obtain ⟨_, -, -, hnode⟩ := inspect_eq_ok_iff.mp hi
  have hperf : s.perform (.getattr id mask) =
      (.ok (.getattr ((s.nodeOf fid.path i n).attr s.store s.host)), s) := by
    change s.settle (s.getattr id) = _
    rw [getattr_eq_ok hid hi]
    rfl
  rw [hperf]
  constructor
  · intro hc
    obtain ⟨m, hm, ha⟩ : s.Tells (.getattr ((s.nodeOf fid.path i n).attr s.store s.host)) :=
      (hc.tells _ rfl).elim (fun ht => ht) fun ht => ht
    have hq : UInt64.ofNat i = UInt64.ofNat m.ino := congrArg (fun a => a.qid.number) ha
    -- a qid holds the whole number of its node as long as there are not too many nodes
    have hlt : i < s.host.nodes.size := Host.lt_size_of_node? hnode
    have hino : i = m.ino := by
      have := congrArg UInt64.toNat hq
      rwa [UInt64.toNat_ofNat_of_lt' (Nat.lt_of_lt_of_le hlt hsize),
        UInt64.toNat_ofNat_of_lt' (Nat.lt_of_lt_of_le hm.ino_lt hsize)] at this
    rw [hino]
    exact hm.1
  · intro hin
    exact confined_same hs fun _ he => by
      cases he
      exact ⟨_, ⟨hin, hnode⟩, rfl⟩

/-- A run that goes on to ask for the attributes of a fid keeps to the export only if the fid's path
leads to a node of it. -/
theorem ConfinedRun.inside_of_getattr {tag : UInt16} (hs : s.Sound)
    (hc : s.ConfinedRun (frames ++ [frame]))
    (hm : Frame.toRequest frame = .ok ⟨tag, .getattr id mask⟩)
    (hsize : (s.run frames).host.nodes.size ≤ UInt64.size)
    (hid : (s.run frames).fids[id]? = some fid)
    (hi : (s.run frames).inspect fid.path = .ok (i, n)) : (s.run frames).Inside i := by
  obtain ⟨hfront, hlast, -⟩ := confinedRun_append_iff.mp hc
  exact (getattr_confined_iff (hfront.sound hs) hsize hid hi).mp (hlast.1 _ hm).1

/-- The frame of a request that can be written. -/
def requestFrame (r : Request) : Bytes :=
  match Frame.ofRequest ⟨1, r⟩ with
  | .ok bs => bs
  | .error _ => []

/-- A host with a directory `dir/x` in the export and another one outside, and with a link in the
export that leads to the first `dir` from where it is, but to the other one from further up. -/
def strayHost : Host :=
  let add (c : Chore) (path : String) (h : Host) : Host := (c.perform (Path.ofText path) h).2
  add (.link (Bytes.ofText "../dir")) "/export/a/l" <|
    add (.dir 0o755) "/export/dir/x" <| add (.dir 0o755) "/dir/x" <| .empty ⟨0, 0⟩

/-- A walk through the link, which is then moved up. -/
def strayFrames : List Bytes :=
  [requestFrame (.attach 0 noId "" "" 0), requestFrame (.walk 0 1 ["a", "l", "x"]),
    requestFrame (.walk 0 2 ["a"]), requestFrame (.renameat 2 "l" 0 "l")]

theorem run_strayFrames :
    ((start ⟨"/export", "/meta", defaultIounit⟩ strayHost).1.map fun s =>
      let s' := s.run strayFrames
      (s'.root, s'.host.nodes.size, s'.host.isDirectory 2,
        s'.host.descend 0 [Name.ofText "dir", Name.ofText "x"],
        s'.fids[(1 : FidId)]?.map Fid.path, Prod.fst <$> s'.inspect ["l", "x"])) =
      .ok ([Name.ofText "export"], 8, true, some 2, some ["l", "x"], .ok 2) := by
  cbv

/-- A run that is not guarded need not keep to the export. -/
theorem exists_not_confinedRun :
    strayHost.WellFormed ∧
      ∃ s, (start ⟨"/export", "/meta", defaultIounit⟩ strayHost).1 = .ok s ∧
        ¬ s.ConfinedRun (strayFrames ++ [requestFrame (.getattr 1 0)]) := by
  have hh : strayHost.WellFormed := ⟨by decide, Host.hasPlace_root⟩
  obtain ⟨s, hs⟩ : ∃ s, (start ⟨"/export", "/meta", defaultIounit⟩ strayHost).1 = .ok s := ⟨_, rfl⟩
  refine ⟨hh, s, hs, fun hc => ?_⟩
  have hrun := run_strayFrames
  rw [hs] at hrun
  simp only [Except.map, Except.ok.injEq, Prod.mk.injEq, Option.map_eq_some_iff,
    Outcome.map_eq_ok_iff] at hrun
  obtain ⟨hroot, hsize, hdir, hdown, ⟨fid, hid, hpath⟩, ⟨⟨i, n⟩, hi, rfl⟩⟩ := hrun
  rw [← hpath] at hi
  have hsound := start_sound hh hs
  have htree := ((confinedRun_append_iff.mp hc).1.sound hsound).isTree
  -- only one list of names leads to the directory, and it does not begin with the exported one
  obtain ⟨ns, hns⟩ := hc.inside_of_getattr hsound rfl (by rw [hsize]; decide) hid hi
  rw [hroot] at hns
  have hnames : Name.ofText "dir" = Name.ofText "export" :=
    (List.cons.inj (htree.descend_unique hdir hdown hns)).1
  exact absurd hnames (by decide)

end Share

end GuestShare
