import GuestShare.Proofs.Share.Targets

/-!
# Answers to frames

Every frame with a header is answered by one frame under its tag: by the reply of its operation if
the request goes well, and by an error if it does not. All replies but one fit into a frame, since a
walk has few names and what is read or listed keeps within the size that the client allows. The one
is the target of a link, and no client can make a link whose target does not fit.

* `Header.AnsweredBy`: frames that answer one with a header.
* `length_steps_le`, `totalSize_entriesFrom_le`, `length_read_le`: how much a reply may hold.
* **`perform_replies`**: the reply of a request that goes well.
* `Share.replyTo`: the reply to a frame.
* **`respond_answers`**: what is sent back for a frame.
-/

namespace GuestShare

namespace ShareError

/-- The numbers of all errors: ENOENT, EIO, ENOTDIR, EISDIR and EINVAL. -/
def errnos : List UInt32 := [2, 5, 20, 21, 22]

theorem errno_mem (e : ShareError) : e.errno ∈ errnos := by
  cases e <;> simp [errno, errnos, invalidArgument]

end ShareError

/-- A frame that answers one with this header. Its size is its own and it is read as a reply, which
has the tag of the header. Its code is the one after that of the header, or it is the code of an
error, and the reply tells the number. -/
structure Header.AnsweredBy (h : Header) (out : Bytes) : Prop where
  size : Frame.declaredSize out = out.length
  reply : ∃ reply, Frame.toReply out = .ok ⟨h.tag, reply⟩ ∧
    ∃ size code, Frame.header out = .ok ⟨size, code, h.tag⟩ ∧
      (code = h.code + 1 ∨
        code = MessageType.errorCode ∧ ∃ e ∈ ShareError.errnos, reply = .error e)

theorem Header.answeredBy_of_ofReply {h : Header} {reply : Reply} {out : Bytes}
    (ho : Frame.ofReply ⟨h.tag, reply⟩ = .ok out)
    (hr : reply.code = h.code + 1 ∨ ∃ e ∈ ShareError.errnos, reply = .error e) :
    h.AnsweredBy out := by
  obtain ⟨payload, hm, -, -⟩ := Reply.ofReply_eq_ok ho
  refine ⟨Frame.declaredSize_make hm, reply, Reply.toReply_of_ofReply ho, _, _,
    Frame.header_make hm, ?_⟩
  rcases hr with hcode | ⟨e, he, rfl⟩
  · exact .inl hcode
  · exact .inr ⟨rfl, e, he, rfl⟩

/-! ## How much a reply may hold -/

theorem length_read_le {d : Descriptor} {offset count : Nat} {h : Host} {data : Bytes}
    (ho : d.read offset count h = .ok data) : data.length ≤ count := by
  unfold Descriptor.read at ho
  split_ifs at ho
  · cases ho
    exact Nat.zero_le _
  · split at ho
    next c _ =>
      cases ho
      rw [Contents.slice_eq]
      exact List.length_take_le _ _
    next => cases ho
    next => cases ho

namespace Share

variable {s s' : Share} {p : GuestPath} {names : List String} {reply : Reply} {r : Request}
  {frame out : Bytes} {budget position : Nat} {count : UInt32}

theorem length_steps_le : (s.steps p names).length ≤ names.length := by
  induction names generalizing p with
  | nil => exact Nat.le_refl _
  | cons name names ih =>
    rw [steps]
    split
    next => exact Nat.zero_le _
    next n _ => exact Nat.succ_le_succ ih

theorem length_qids_le {n : Nat} (hn : names.length ≤ n) :
    ((s.steps p names).map Node.qid).length ≤ n := by
  rw [List.length_map]
  exact Nat.le_trans length_steps_le hn

theorem totalSize_entriesFrom_le :
    totalSize DirEntry.size (s.entriesFrom p budget position names) ≤ budget := by
  induction names generalizing budget position with
  | nil => exact Nat.zero_le _
  | cons name names ih =>
    rw [entriesFrom]
    split
    next => exact ih
    next n _ =>
      simp only
      split_ifs with hlt
      · exact Nat.zero_le _
      · exact Nat.add_le_of_le_sub' (Nat.not_lt.mp hlt) ih

theorem length_name_entriesFrom_le :
    ∀ e ∈ s.entriesFrom p budget position names,
      (Bytes.ofText e.name).length ≤ Name.maxLength := by
  induction names generalizing budget position with
  | nil => exact fun _ he => absurd he List.not_mem_nil
  | cons name names ih =>
    intro e he
    rw [entriesFrom] at he
    split at he
    next => exact ih e he
    next n hn =>
      simp only at he
      split_ifs at he
      · cases he
      · rcases List.mem_cons.mp he with rfl | he
        · obtain ⟨-, dir, -, hl, -⟩ := inspect_concat_eq_ok_iff.mp (node_eq_ok_iff.mp hn).1
          exact (Host.lookup_eq_ok_iff.mp hl).2.1
        · exact ih e he

theorem budget_lt : headerSize + (4 + s.budget count) < UInt32.size := by
  have hlt := s.msize.toNat_lt_size
  have hover : readOverhead.toNat = 11 := rfl
  unfold budget headerSize
  rw [hover]
  simp only [UInt32.size] at hlt ⊢
  omega

section Fits

open Reply

theorem fits_version {msize : UInt32} : (Reply.version msize protocolVersion).Fits where
  toFieldsFit := fieldsFit_iff.mpr (by
    simp only [texts, walkLength, data, entries, totalSize, List.forall_mem_singleton]
    exact ⟨Nat.le_trans (by decide : (Bytes.ofText protocolVersion).length ≤ 8) (by decide),
      by decide, by decide, by decide⟩)
  frame := by
    change 7 + (4 + (2 + 8)) < UInt32.size
    decide

theorem fits_walk {qids : List Qid} (hlen : qids.length ≤ 16) : (Reply.walk qids).Fits where
  toFieldsFit := fieldsFit_iff.mpr
    (by simp [texts, walkLength, data, entries, totalSize]; omega)
  frame := by
    change 7 + (2 + 13 * qids.length) < 4294967296
    omega

theorem fits_readlink {target : String} (hlen : (Bytes.ofText target).length ≤ 65535) :
    (Reply.readlink target).Fits where
  toFieldsFit := fieldsFit_iff.mpr (by simpa [texts, walkLength, data, entries, totalSize])
  frame := by
    change 7 + (2 + (Bytes.ofText target).length) < 4294967296
    omega

theorem fits_read {bs : Bytes} (hlen : bs.length ≤ s.budget count) : (Reply.read bs).Fits := by
  have hlt : 7 + (4 + s.budget count) < UInt32.size := budget_lt
  refine ⟨fieldsFit_iff.mpr ?_, ?_⟩
  · simp only [texts, walkLength, data, entries, totalSize]
    exact ⟨by simp, by decide, by omega, by decide⟩
  · change 7 + (4 + bs.length) < UInt32.size
    omega

theorem fits_readdir {es : List DirEntry}
    (hsize : totalSize DirEntry.size es ≤ s.budget count)
    (hnames : ∀ e ∈ es, (Bytes.ofText e.name).length ≤ Name.maxLength) :
    (Reply.readdir es).Fits := by
  have hlt : 7 + (4 + s.budget count) < UInt32.size := budget_lt
  refine ⟨fieldsFit_iff.mpr ?_, ?_⟩
  · simp only [texts, walkLength, data, entries, List.forall_mem_map]
    exact ⟨fun e he => Nat.le_trans (hnames e he) (by decide), by decide, by decide, by omega⟩
  · change 7 + (4 + totalSize DirEntry.size es) < UInt32.size
    omega

end Fits

/-- A reply is of the operation that the request asks for, and fits into a frame unless it is the
target of a link that does not. -/
def Gets (r : Request) (reply : Reply) : Prop :=
  reply.code = r.code + 1 ∧ (reply.Fits ∨ ∃ fid target, r = .readlink fid ∧
    reply = .readlink target ∧ 65535 < (Bytes.ofText target).length)

theorem gets_blank (hc : reply.code = r.code + 1) (hb : reply.Blank) : Gets r reply :=
  ⟨hc, .inl hb.fits⟩

theorem Sees.gets (hv : s.Sees r reply) (hr : r.FieldsFit) : Gets r reply := by
  cases hv with
  | flush | getattr | fsync => exact gets_blank rfl ⟨rfl, rfl, rfl, rfl⟩
  | walk source => exact ⟨rfl, .inl (fits_walk (length_qids_le hr.walk))⟩
  | @readlink id fid target source link =>
    refine ⟨rfl, ?_⟩
    by_cases hlen : (Bytes.ofText target).length ≤ 65535
    · exact .inl (fits_readlink hlen)
    · exact .inr ⟨id, target, rfl, rfl, Nat.not_le.mp hlen⟩
  | readdir =>
    exact ⟨rfl, .inl (fits_readdir totalSize_entriesFrom_le length_name_entriesFrom_le)⟩
  | read source held found => exact ⟨rfl, .inl (fits_read (length_read_le found))⟩
  | readTarget => exact ⟨rfl, .inl (fits_read (List.length_take_le _ _))⟩

theorem Act.gets (ha : Act s r (.ok reply) s') (hr : r.FieldsFit) : Gets r reply := by
  cases ha with
  | look sees => exact sees.gets hr
  | begin => exact ⟨rfl, .inl fits_version⟩
  | walk source => exact ⟨rfl, .inl (fits_walk (length_qids_le hr.walk))⟩
  | «open» opening => cases opening <;> exact gets_blank rfl ⟨rfl, rfl, rfl, rfl⟩
  | make source entry makes records => cases records <;> exact gets_blank rfl ⟨rfl, rfl, rfl, rfl⟩
  | set source node edits records answers =>
    obtain rfl := answers reply rfl
    exact gets_blank rfl ⟨rfl, rfl, rfl, rfl⟩
  | write source held edits answers =>
    obtain ⟨count, rfl⟩ := answers reply rfl
    exact gets_blank rfl ⟨rfl, rfl, rfl, rfl⟩
  | drop drops =>
    obtain ⟨rfl, he⟩ | ⟨-, e, he⟩ := drops
    · cases he
      exact gets_blank rfl ⟨rfl, rfl, rfl, rfl⟩
    · cases he
  | attach | create | move | unlink | remove => exact gets_blank rfl ⟨rfl, rfl, rfl, rfl⟩

/-- **A request that goes well gets a reply of its operation** that fits into a frame, but for the
targets of links. -/
theorem perform_replies (hr : r.FieldsFit) (ho : s.perform r = (.ok reply, s')) :
    Gets r reply := (perform_act ho).gets hr

/-! ## What is sent back -/

/-- The reply to a frame with a header. -/
def replyTo (s : Share) (frame : Bytes) : Reply :=
  match Frame.toRequest frame with
  | .error _ => .error ShareError.invalidArgument
  | .ok m =>
    match (s.answer m.body).1 with
    | .ok reply => reply
    | .error e => .error e.errno

theorem encode_eq_some_iff {tag : UInt16} :
    (encode tag reply).1 = some out ↔ Frame.ofReply ⟨tag, reply⟩ = .ok out := by
  unfold encode
  cases Frame.ofReply ⟨tag, reply⟩ <;> simp

theorem encode_eq_none_iff {tag : UInt16} : (encode tag reply).1 = none ↔ ¬ reply.Fits := by
  have hfits := Reply.ofReply_isOk_iff (r := ⟨tag, reply⟩)
  rw [← hfits]
  unfold encode
  cases Frame.ofReply ⟨tag, reply⟩ <;> simp

theorem respond_eq_none_of_header {e : WireError} (he : Frame.header frame = .error e) :
    (s.respond frame).1 = none := by
  unfold respond
  cases hr : Frame.toRequest frame with
  | error e' => simp only [he]
  | ok m =>
    obtain ⟨h, hh, -⟩ := Frame.toRequest_header hr
    rw [he] at hh
    cases hh

theorem respond_fst {h : Header} (hh : Frame.header frame = .ok h) :
    (s.respond frame).1 = (encode h.tag (s.replyTo frame)).1 := by
  unfold respond replyTo
  cases hr : Frame.toRequest frame with
  | error e => simp only [hh]
  | ok m =>
    obtain ⟨h', hh', htag, -⟩ := Frame.toRequest_header hr
    rw [hh] at hh'
    cases hh'
    simp only
    rw [← htag]
    rcases s.answer m.body with ⟨e | reply, notices, s'⟩ <;> rfl

theorem replyTo_cases {h : Header} (hh : Frame.header frame = .ok h) :
    (∃ e ∈ ShareError.errnos, s.replyTo frame = .error e) ∨
      ∃ m, Frame.toRequest frame = .ok m ∧ m.tag = h.tag ∧ m.body.code = h.code ∧
        (s.answer m.body).1 = .ok (s.replyTo frame) ∧ Gets m.body (s.replyTo frame) := by
  unfold replyTo
  cases hr : Frame.toRequest frame with
  | error e => exact .inl ⟨_, by decide, rfl⟩
  | ok m =>
    obtain ⟨h', hh', htag, hcode⟩ := Frame.toRequest_header hr
    rw [hh] at hh'
    cases hh'
    simp only
    cases ha : (s.answer m.body).1 with
    | error e => exact .inl ⟨_, e.errno_mem, rfl⟩
    | ok reply =>
      refine .inr ⟨m, rfl, htag, hcode, ha, ?_⟩
      have hperform : s.perform m.body = (.ok reply, (s.perform m.body).2) :=
        Prod.ext (answer_eq_ok_iff.mp ha).1 rfl
      exact perform_replies (Frame.fieldsFit_of_toRequest hr) hperform

theorem not_fits_replyTo_iff {h : Header} (hh : Frame.header frame = .ok h) :
    ¬ (s.replyTo frame).Fits ↔
      ∃ tag fid target, Frame.toRequest frame = .ok ⟨tag, .readlink fid⟩ ∧
        (s.answer (.readlink fid)).1 = .ok (.readlink target) ∧
        65535 < (Bytes.ofText target).length := by
  constructor
  · intro hnot
    rcases replyTo_cases hh with ⟨e, -, he⟩ | ⟨⟨tag, body⟩, hm, -, -, ha, -, hfits | hlink⟩
    · rw [he] at hnot
      exact absurd (Reply.fits_error e) hnot
    · exact absurd hfits hnot
    · obtain ⟨fid, target, rfl, hreply, hlen⟩ := hlink
      rw [hreply] at ha
      exact ⟨tag, fid, target, hm, ha, hlen⟩
  · rintro ⟨tag, fid, target, hm, ha, hlen⟩ hfits
    have hreply : s.replyTo frame = .readlink target := by
      simp only [replyTo, hm, ha]
    rw [hreply] at hfits
    exact absurd (hfits.texts target List.mem_cons_self) (Nat.not_le.mpr hlen)

/-- With a header, nothing is sent back only for the target of a link that is too long. -/
theorem respond_eq_none_iff {h : Header} (hh : Frame.header frame = .ok h) :
    (s.respond frame).1 = none ↔
      ∃ tag fid target, Frame.toRequest frame = .ok ⟨tag, .readlink fid⟩ ∧
        (s.answer (.readlink fid)).1 = .ok (.readlink target) ∧
        65535 < (Bytes.ofText target).length := by
  rw [respond_fst hh, encode_eq_none_iff, not_fits_replyTo_iff hh]

theorem respond_answeredBy (hout : (s.respond frame).1 = some out) :
    ∃ h, Frame.header frame = .ok h ∧ h.AnsweredBy out := by
  cases hh : Frame.header frame with
  | error e =>
    rw [respond_eq_none_of_header hh] at hout
    cases hout
  | ok h =>
    rw [respond_fst hh, encode_eq_some_iff] at hout
    refine ⟨h, rfl, Header.answeredBy_of_ofReply hout ?_⟩
    rcases replyTo_cases (s := s) hh with herr | ⟨m, -, -, hcode, -, hreply, -⟩
    · exact .inr herr
    · exact .inl (hcode ▸ hreply)

theorem replyTo_eq_invalid {h : Header} (hh : Frame.header frame = .ok h)
    (hbad : (∃ e, Frame.toRequest frame = .error e) ∨ Operation.ofCode? h.code = none) :
    s.replyTo frame = .error ShareError.invalidArgument := by
  unfold replyTo
  rcases hbad with ⟨e, he⟩ | hcode
  · rw [he]
  · have ha : ∃ e, (s.answer (.unknown h.code)).1 = .error e ∧
        e.errno = ShareError.invalidArgument := by
      refine ⟨.refused (.unsupported h.code), ?_, rfl⟩
      unfold answer perform
      simp only
      split <;> rfl
    obtain ⟨e, ha, he⟩ := ha
    rw [Frame.toRequest_unknown hh hcode]
    simp only [ha, he]

theorem respond_of_replyTo_eq_error {h : Header} {code : UInt32}
    (hh : Frame.header frame = .ok h) (hr : s.replyTo frame = .error code) :
    ∃ out, (s.respond frame).1 = some out ∧ Frame.toReply out = .ok ⟨h.tag, .error code⟩ := by
  obtain ⟨out, hout⟩ :=
    (Reply.ofReply_isOk_iff (r := ⟨h.tag, .error code⟩)).mpr (Reply.fits_error code)
  refine ⟨out, ?_, Reply.toReply_of_ofReply hout⟩
  rw [respond_fst hh, hr]
  exact encode_eq_some_iff.mpr hout

/-- **What is sent back for a frame.** Nothing is if there is no header, or if the frame asks for
the target of a link and that is too long; a share that has started without older records of links
never has records of such targets. All else is answered by one frame, and by EINVAL if the payload
cannot be read or the code is no request's. -/
theorem respond_answers (s : Share) (frame : Bytes) :
    ((s.respond frame).1 = none ↔
      (frame.length < 7 ∨ Frame.declaredSize frame < 7 ∨
          frame.length < Frame.declaredSize frame) ∨
        ∃ tag fid target, Frame.toRequest frame = .ok ⟨tag, .readlink fid⟩ ∧
          (s.answer (.readlink fid)).1 = .ok (.readlink target) ∧
          65535 < (Bytes.ofText target).length) ∧
    (∀ out, (s.respond frame).1 = some out →
      ∃ h, Frame.header frame = .ok h ∧ h.AnsweredBy out) ∧
    (∀ h, Frame.header frame = .ok h →
      (∃ e, Frame.toRequest frame = .error e) ∨ Operation.ofCode? h.code = none →
        ∃ out, (s.respond frame).1 = some out ∧
          Frame.toReply out = .ok ⟨h.tag, .error ShareError.invalidArgument⟩) ∧
    ∀ o h s₀, (start o h).1 = .ok s₀ →
      Store.LinksCurrent (Store.dirPath o.metadataDir) s₀.host → s₀.Reachable s →
        s.store.LinksFit := by
  refine ⟨?_, fun out hout => respond_answeredBy hout, fun h hh hbad => ?_,
    fun o h s₀ hs hc hr => ?_⟩
  · have hheader := Frame.header_isOk_iff (b := frame)
    unfold headerSize at hheader
    cases hh : Frame.header frame with
    | error e =>
      have hnot : ¬ ∃ h, Frame.header frame = .ok h := by
        rintro ⟨h, hh'⟩
        rw [hh] at hh'
        cases hh'
      rw [hheader] at hnot
      simp only [respond_eq_none_of_header hh, true_iff]
      left
      omega
    | ok h =>
      have hyes := hheader.mp ⟨h, hh⟩
      rw [respond_eq_none_iff hh]
      refine ⟨.inr, ?_⟩
      rintro (hno | hlink)
      · omega
      · exact hlink
  · exact respond_of_replyTo_eq_error hh (replyTo_eq_invalid hh hbad)
  · refine hr.linksFit ?_
    rw [(start_eq_ok hs).2.2.2.1]
    exact Store.load_linksFit hc

end Share

end GuestShare
