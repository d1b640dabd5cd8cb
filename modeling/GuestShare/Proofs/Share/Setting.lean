import GuestShare.Proofs.Share.CoherentRun
import GuestShare.Proofs.Share.Failure
import GuestShare.Proofs.Share.Stray
import GuestShare.Proofs.Share.Whereabouts

/-!
# Setting attributes that are refused

Attributes are set in an order: the size first, which the host does at once, and then the times and
the records, which all wait until nothing can go wrong anymore. So a request that is refused leaves
no trace, unless it sets a size and gives a time that the host cannot hold. Then the file has its
new size, and nothing else is set.

* `SetAttr.Untimely`: attributes with a time that the host cannot hold.
* `SetAttr.chosen`: the time that attributes choose.
* `setSize_eq_ok_body`, `setTimes_eq_ok_modify`: what becomes of the host.
* `setRest_isOk`: the times are the only thing that can go wrong after the size.
* `Share.SizesOnly`: a size is set, and then a time turns out to be refused.
* **`setattr_refused`**: what is left of a request that is refused.
* **`exists_refused_and_cut`**: a file may lose its contents to such a request.
-/

namespace GuestShare

/-! ## Times -/

namespace SetAttr

/-- No time of the host is as late as this. -/
def TooLate (secs nanos : UInt64) : Prop :=
  Host.limit ≤ secs.toNat + nanos.toNat / Instant.nanosPerSecond

/-- A time is given that the host cannot hold. -/
def Untimely (a : SetAttr) : Prop :=
  (a.has atimeBit = true ∧ a.has atimeSetBit = true ∧ TooLate a.atimeSec a.atimeNsec) ∨
    (a.has mtimeBit = true ∧ a.has mtimeSetBit = true ∧ TooLate a.mtimeSec a.mtimeNsec)

/-- The time that is chosen by a bit: the one given, its nanoseconds carried into its seconds, or
the present. -/
def chosen (a : SetAttr) (bit given : UInt32) (secs nanos : UInt64) (now : Instant) :
    Option Instant :=
  if a.has bit then
    some (if a.has given then
        ⟨secs.toNat + nanos.toNat / Instant.nanosPerSecond, nanos.toNat % Instant.nanosPerSecond⟩
      else now)
  else none

/-- The access time that is chosen. -/
def chosenAccess (a : SetAttr) (now : Instant) : Option Instant :=
  a.chosen atimeBit atimeSetBit a.atimeSec a.atimeNsec now

/-- The modification time that is chosen. -/
def chosenModification (a : SetAttr) (now : Instant) : Option Instant :=
  a.chosen mtimeBit mtimeSetBit a.mtimeSec a.mtimeNsec now

end SetAttr

theorem instantOf_eq_ok {secs nanos : UInt64} (ht : ¬ SetAttr.TooLate secs nanos) :
    instantOf secs nanos =
      .ok ⟨secs.toNat + nanos.toNat / Instant.nanosPerSecond,
        nanos.toNat % Instant.nanosPerSecond⟩ :=
  if_pos (Nat.not_le.mp ht)

theorem instantOf_eq_error {secs nanos : UInt64} (ht : SetAttr.TooLate secs nanos) :
    instantOf secs nanos = .error (.refused .timeRange) :=
  if_neg (Nat.not_lt.mpr ht)

namespace Share

variable {s s' : Share} {id : FidId} {fid : Fid} {a : SetAttr} {n : Node}
  {h h' : Host} {path : Path} {reply : Reply} {e : ShareError} {bit given : UInt32}
  {secs nanos : UInt64} {now : Instant} {accessed modified : Option Instant} {size : UInt64}

theorem newTime_eq_ok
    (ht : ¬ (a.has bit = true ∧ a.has given = true ∧ SetAttr.TooLate secs nanos)) :
    newTime a bit given secs nanos now = .ok (a.chosen bit given secs nanos now) := by
  unfold newTime SetAttr.chosen
  by_cases hbit : a.has bit = true
  · by_cases hgiven : a.has given = true
    · have hlate : ¬ SetAttr.TooLate secs nanos := fun hl => ht ⟨hbit, hgiven, hl⟩
      simp only [hbit, hgiven, Bool.not_true, Bool.false_eq_true, if_false, if_true,
        instantOf_eq_ok hlate]
      rfl
    · simp [hbit, hgiven]
  · simp [hbit]

theorem newTime_eq_error (hbit : a.has bit = true) (hgiven : a.has given = true)
    (ht : SetAttr.TooLate secs nanos) :
    newTime a bit given secs nanos now = .error (.refused .timeRange) := by
  simp only [newTime, hbit, hgiven, instantOf_eq_error ht, Bool.not_true, Bool.false_eq_true,
    if_false, if_true]
  rfl

theorem newTime_of_not_untimely (ht : ¬ a.Untimely) (now : Instant) :
    newTime a SetAttr.atimeBit SetAttr.atimeSetBit a.atimeSec a.atimeNsec now =
        .ok (a.chosenAccess now) ∧
      newTime a SetAttr.mtimeBit SetAttr.mtimeSetBit a.mtimeSec a.mtimeNsec now =
        .ok (a.chosenModification now) :=
  ⟨newTime_eq_ok fun h => ht (.inl h), newTime_eq_ok fun h => ht (.inr h)⟩

/-! ## The host -/

theorem openAt_reading_or_writing {how : OpenHow} {d : Descriptor}
    (hhow : how = .reading ∨ how = .writing) (ho : h.openAt path how = .ok (d, h')) :
    ∃ place, h.find .follow path = .ok place ∧ d = how.descriptor place.ino ∧ h' = h := by
  rcases Host.openAt_eq_ok ho with ⟨place, hf, -, hnode⟩ | ⟨_, _, -, hnever, -⟩
  · obtain ⟨rfl, -, -, -⟩ := Host.openNode_eq_ok hnode
    rcases hhow with rfl | rfl
    · exact ⟨place, hf, rfl, Host.openNode_eq_self hnode rfl⟩
    · exact ⟨place, hf, rfl, Host.openNode_eq_self hnode rfl⟩
  · rcases hhow with rfl | rfl
    · exact absurd rfl hnever
    · exact absurd rfl hnever

/-- **Setting a size** cuts or extends the file that the path leads to. -/
theorem setSize_eq_ok_body (ho : s.setSize n size = .ok h) :
    n.isDirectory = false ∧ ∃ place c, s.host.find .follow (s.hostPath n.path) = .ok place ∧
      s.host.body? place.ino = some (.file c) ∧
      h = s.host.setBody place.ino (.file (c.resize size.toNat)) := by
  refine ⟨(setSize_eq_ok ho).1, ?_⟩
  unfold setSize at ho
  rw [if_neg (by rw [(setSize_eq_ok ho).1]; exact Bool.false_ne_true)] at ho
  obtain ⟨⟨d, h₁⟩, hopen, hlen⟩ := Outcome.bind_eq_ok_iff.mp ho
  obtain ⟨place, hf, rfl, rfl⟩ :=
    openAt_reading_or_writing (.inr rfl) (Outcome.mapError_eq_ok_iff.mp hopen)
  have hlen := Outcome.mapError_eq_ok_iff.mp hlen
  unfold Descriptor.setLength at hlen
  split_ifs at hlen
  split at hlen
  next c hc =>
    cases hlen
    exact ⟨place, c, hf, hc, rfl⟩
  next => cases hlen

/-- **Setting times** changes those of the node that the path leads to. -/
theorem setTimes_eq_ok_modify (ho : setTimes h path accessed modified = .ok h') :
    ∃ place, h.find .follow path = .ok place ∧
      h' = h.modify place.ino fun n =>
        { n with accessed := accessed.getD n.accessed, modified := modified.getD n.modified } := by
  obtain ⟨⟨d, h₁⟩, hopen, ho⟩ := Outcome.bind_eq_ok_iff.mp ho
  cases ho
  obtain ⟨place, hf, rfl, rfl⟩ :=
    openAt_reading_or_writing (.inl rfl) (Outcome.mapError_eq_ok_iff.mp hopen)
  exact ⟨place, hf, rfl⟩

/-- The path leads to a node that can be opened for reading. -/
def Opens (h : Host) (path : Path) : Prop := ∃ d h', h.openAt path .reading = .ok (d, h')

theorem setTimes_isOk_iff (accessed modified : Option Instant) :
    (∃ h', setTimes h path accessed modified = .ok h') ↔ Opens h path := by
  constructor
  · rintro ⟨h', ho⟩
    obtain ⟨⟨d, h₁⟩, hopen, -⟩ := Outcome.bind_eq_ok_iff.mp ho
    exact ⟨d, h₁, Outcome.mapError_eq_ok_iff.mp hopen⟩
  · rintro ⟨d, h₁, hopen⟩
    exact ⟨_, Outcome.bind_eq_ok_iff.mpr ⟨(d, h₁), Outcome.mapError_eq_ok_iff.mpr hopen, rfl⟩⟩

theorem opens_of_setSize (ho : s.setSize n size = .ok h) : Opens h (s.hostPath n.path) := by
  obtain ⟨-, place, c, hf, hc, rfl⟩ := setSize_eq_ok_body ho
  have hedit : Host.EditsIn (· = place.ino) s.host
      (s.host.setBody place.ino (.file (c.resize size.toNat))) := .setFile hc
  have hlocate := Host.find_eq_ok_iff_locate.mp ((hedit.sameTree.find).trans hf)
  refine ⟨OpenHow.reading.descriptor place.ino,
    s.host.setBody place.ino (.file (c.resize size.toNat)), ?_⟩
  unfold Host.openAt
  simp only [OpenHow.reading, ne_eq, not_true_eq_false, decide_false, Bool.false_and,
    Bool.false_eq_true, if_false, reduceCtorEq]
  rw [hlocate]
  simp only [Outcome.ok_bind, Host.openNode, Host.body?_setBody (Host.lt_size_of_body? hc),
    if_true]
  rfl

/-! ## What can go wrong after the size -/

/-- **Once the size is set, the times are all that can go wrong.** A node that is not a link must
be one that can be opened. -/
theorem setRest_isOk (ht : ¬ a.Untimely) (hopen : Opens s.host (s.hostPath n.path)) :
    ∃ s', s.setRest n a = .ok (.setattr, s') := by
  obtain ⟨hacc, hmod⟩ := newTime_of_not_untimely ht s.host.clock
  obtain ⟨h', hh'⟩ :=
    (setTimes_isOk_iff (a.chosenAccess s.host.clock) (a.chosenModification s.host.clock)).mpr hopen
  unfold setRest
  simp only [hacc, hmod, Outcome.ok_bind]
  split
  next => exact ⟨_, by rw [hh']; rfl⟩
  next => exact ⟨_, rfl⟩

theorem setRest_of_untimely (ht : a.Untimely) :
    s.setRest n a = .error (.refused .timeRange) := by
  unfold setRest
  by_cases hacc : a.has SetAttr.atimeBit = true ∧ a.has SetAttr.atimeSetBit = true ∧
      SetAttr.TooLate a.atimeSec a.atimeNsec
  · simp only [newTime_eq_error hacc.1 hacc.2.1 hacc.2.2]
    rfl
  · obtain ⟨hbit, hgiven, hlate⟩ := ht.resolve_left hacc
    simp only [newTime_eq_ok hacc, newTime_eq_error hbit hgiven hlate]
    rfl

/-! ## The request -/

/-- The size can be set, which makes the host `h`, and a time is given that the host cannot hold. -/
def SizesOnly (s : Share) (id : FidId) (a : SetAttr) (h : Host) : Prop :=
  a.has SetAttr.sizeBit = true ∧ a.Untimely ∧
    ∃ fid n, s.fids[id]? = some fid ∧ s.node fid.path = .ok n ∧ s.setSize n a.size = .ok h

theorem SizesOnly.setSize (hh : s.SizesOnly id a h) (hid : s.fids[id]? = some fid)
    (hn : s.node fid.path = .ok n) : s.setSize n a.size = .ok h := by
  obtain ⟨-, -, fid', n', hid', hn', hset⟩ := hh
  cases hid.symm.trans hid'
  cases hn.symm.trans hn'
  exact hset

theorem SizesOnly.unique (hh : s.SizesOnly id a h) (hh' : s.SizesOnly id a h') : h = h' := by
  obtain ⟨-, -, fid, n, hid, hn, hset⟩ := hh
  cases hset.symm.trans (hh'.setSize hid hn)
  rfl

theorem setattr_of_node (hid : s.fids[id]? = some fid) (hn : s.node fid.path = .ok n) :
    s.setattr id a =
      match if a.has SetAttr.sizeBit then s.setSize n a.size else .ok s.host with
      | .error e => (.error e, s)
      | .ok h =>
        match (s.on h).setRest n a with
        | .error e => (.error e, s.on h)
        | .ok (reply, s) => (.ok reply, s) := by
  unfold setattr
  rw [fids_find_eq_ok_iff.mpr hid, Outcome.ok_bind, hn]
  rfl

/-- A request that is refused leaves the share as it was, but for a size that was set before a time
was refused. -/
theorem setattr_eq_error (he : (s.setattr id a).1 = .error e) :
    ((s.setattr id a).2 = s ∧ ∀ h, ¬ s.SizesOnly id a h) ∨
      ∃ h, s.SizesOnly id a h ∧ (s.setattr id a).2 = s.on h := by
  cases hnode : (do s.node (← s.fids.find id).path) with
  | error e =>
    refine .inl ⟨by rw [setattr, hnode], ?_⟩
    rintro h ⟨-, -, fid, n, hid, hn, -⟩
    rw [fids_find_eq_ok_iff.mpr hid, Outcome.ok_bind, hn] at hnode
    cases hnode
  | ok n =>
    obtain ⟨fid, hid, hn⟩ := Outcome.bind_eq_ok_iff.mp hnode
    have hid := fids_find_eq_ok_iff.mp hid
    rw [setattr_of_node hid hn] at he ⊢
    by_cases hsize : a.has SetAttr.sizeBit = true
    · simp only [hsize, if_true] at he ⊢
      cases hset : s.setSize n a.size with
      | error e' =>
        refine .inl ⟨rfl, fun h hh => ?_⟩
        cases hset.symm.trans (hh.setSize hid hn)
      | ok h =>
        rw [hset] at he
        by_cases ht : a.Untimely
        · refine .inr ⟨h, ⟨hsize, ht, fid, n, hid, hn, hset⟩, ?_⟩
          simp only [setRest_of_untimely ht]
        · have hopen : Opens h (s.hostPath n.path) := opens_of_setSize hset
          obtain ⟨s', hs'⟩ := setRest_isOk (s := s.on h) ht hopen
          simp only [hs'] at he
          cases he
    · refine .inl ⟨?_, fun h hh => hsize hh.1⟩
      simp only [hsize, Bool.false_eq_true, if_false] at he ⊢
      split at he
      next => rfl
      next => cases he

/-- **What is left of a request to set attributes that is refused.** No record changes. Host, fids
and records are as before, and what is written is what had been pending, unless a size was set
before a time was refused; then the file has that size. -/
theorem setattr_refused (he : (s.perform (.setattr id a)).1 = .error e) :
    (∃ e', (s.answer (.setattr id a)).1 = .error e') ∧
      (∀ k, (s.answer (.setattr id a)).2.2.store.overlay k = s.store.overlay k) ∧
      ((∀ h, ¬ s.SizesOnly id a h) →
        (s.perform (.setattr id a)).2 = s ∧
        (s.answer (.setattr id a)).2.2 = s.flushRecords.2 ∧
        (s.store.hasPending = false → (s.answer (.setattr id a)).2.2 = s)) ∧
      ∀ h, s.SizesOnly id a h → (s.perform (.setattr id a)).2 = s.on h := by
  have hcases : ((s.perform (.setattr id a)).2 = s ∧ ∀ h, ¬ s.SizesOnly id a h) ∨
      ∃ h, s.SizesOnly id a h ∧ (s.perform (.setattr id a)).2 = s.on h := setattr_eq_error he
  refine ⟨?_, fun k => ?_, fun hno => ?_, fun h hh => ?_⟩
  · cases ha : (s.answer (.setattr id a)).1 with
    | error e' => exact ⟨e', rfl⟩
    | ok reply => cases he.symm.trans (answer_eq_ok_iff.mp ha).1
  · rw [answer_snd, overlay_flushRecords]
    obtain ⟨hsame, -⟩ | ⟨h, -, hon⟩ := hcases
    · rw [hsame]
    · rw [hon]
      rfl
  · obtain ⟨hsame, -⟩ | ⟨h, hh, -⟩ := hcases
    · rw [answer_snd, hsame]
      refine ⟨rfl, rfl, fun hp => ?_⟩
      rw [flushRecords_of_not_pending hp]
    · exact absurd hh (hno h)
  · obtain ⟨-, hno⟩ | ⟨h', hh', hon⟩ := hcases
    · exact absurd hh (hno h)
    · rw [hh.unique hh']
      exact hon

/-! ## Two refusals -/

/-- A host with one file in the export. -/
def noteHost : Host :=
  ((Chore.file (Bytes.ofText "data") Host.fileMode).perform (Path.ofText "/export/x")
    (.empty ⟨0, 0⟩)).2

/-- Attributes that set the size to zero. -/
def noBytes : SetAttr := ⟨SetAttr.sizeBit, 0, 0, 0, 0, 0, 0, 0, 0⟩

/-- Attributes that set the size to zero, and a time that the host cannot hold. -/
def noBytesTooLate : SetAttr :=
  ⟨SetAttr.sizeBit ||| SetAttr.mtimeBit ||| SetAttr.mtimeSetBit, 0, 0, 0, 0, 0, 0,
    0x8000000000000000, 0⟩

theorem run_noteHost :
    ((start ⟨"/export", "/meta", defaultIounit⟩ noteHost).1.map fun s₀ =>
      let s := s₀.run [attachFrame, requestFrame (.walk 0 1 ["x"])]
      let path := Path.ofText "/export/x"
      ((s.perform (.setattr 0 noBytes)).1, (s.perform (.setattr 1 noBytesTooLate)).1,
        s.host.fileBytes path,
        (s.answer (.setattr 1 noBytesTooLate)).2.2.host.fileBytes path)) =
      .ok (.error .isDirectory, .error (.refused .timeRange), .ok (Bytes.ofText "data"),
        .ok []) := by
  cbv

/-- A directory has no size to set. -/
theorem setattr_refused_directory :
    ∃ s₀ s, (start ⟨"/export", "/meta", defaultIounit⟩ noteHost).1 = .ok s₀ ∧ s₀.Reachable s ∧
      (s.perform (.setattr 0 noBytes)).1 = .error .isDirectory ∧
      (s.perform (.setattr 0 noBytes)).2 = s := by
  obtain ⟨s₀, hs⟩ :
      ∃ s, (start ⟨"/export", "/meta", defaultIounit⟩ noteHost).1 = .ok s := ⟨_, rfl⟩
  have hrun := run_noteHost
  rw [hs] at hrun
  simp only [Except.map, Except.ok.injEq, Prod.mk.injEq] at hrun
  have htimely : ¬ noBytes.Untimely := by
    rintro (⟨hbit, -⟩ | ⟨hbit, -⟩)
    · exact absurd hbit (by decide)
    · exact absurd hbit (by decide)
  exact ⟨s₀, _, hs, .run .refl, hrun.1,
    ((setattr_refused hrun.1).2.2.1 fun h hh => htimely hh.2.1).1⟩

/-- **Not all or nothing.** A request may be refused for a time that is out of range and yet cut the
file. -/
theorem exists_refused_and_cut :
    ∃ s₀ s, (start ⟨"/export", "/meta", defaultIounit⟩ noteHost).1 = .ok s₀ ∧ s₀.Reachable s ∧
      (s.perform (.setattr 1 noBytesTooLate)).1 = .error (.refused .timeRange) ∧
      s.host.fileBytes (Path.ofText "/export/x") = .ok (Bytes.ofText "data") ∧
      (s.answer (.setattr 1 noBytesTooLate)).2.2.host.fileBytes (Path.ofText "/export/x") =
        .ok [] := by
  obtain ⟨s₀, hs⟩ :
      ∃ s, (start ⟨"/export", "/meta", defaultIounit⟩ noteHost).1 = .ok s := ⟨_, rfl⟩
  have hrun := run_noteHost
  rw [hs] at hrun
  simp only [Except.map, Except.ok.injEq, Prod.mk.injEq] at hrun
  exact ⟨s₀, _, hs, .run .refl, hrun.2⟩

end Share

end GuestShare
