import GuestShare.Proofs.Share.History

/-!
# How long replies are

A client says at the beginning of a session how long messages may be, and what is read or listed
keeps within that. No other reply is longer than one with the longest text that there is.

* `Moment.msize`, `messageSize`: the size that holds after a moment, and after all that happened.
* `Reply.CarriesData`, `Reply.Within`: replies with what was read or listed, and how long replies
  may be.
* **`perform_msize`**: only a new session has another size.
* **`perform_within`**: how long the frame of a reply is.
* **`run_replySize`**: how long the frames are that a server sends.
-/

namespace GuestShare

namespace Reply

/-- The reply has what was read or listed, as much as there is room for. -/
def CarriesData : Reply → Prop
  | .read _ | .readdir _ => True
  | _ => False

/-- The length of a frame with the longest text. -/
def maxPlainSize : Nat := 65544

/-- A frame with data keeps within the size of the session, and any other is no longer than one with
the longest text. -/
structure Within (reply : Reply) (msize length : Nat) : Prop where
  data : reply.CarriesData → length ≤ msize
  plain : ¬ reply.CarriesData → length ≤ maxPlainSize

variable {reply : Reply} {msize length : Nat}

theorem within_of_plain (hc : ¬ reply.CarriesData) (hs : length ≤ maxPlainSize) :
    reply.Within msize length := ⟨fun h => absurd h hc, fun _ => hs⟩

theorem within_of_data (hc : reply.CarriesData) (hs : length ≤ msize) :
    reply.Within msize length := ⟨fun _ => hs, fun h => absurd hc h⟩

theorem Blank.within (hb : reply.Blank) (hc : ¬ reply.CarriesData) :
    reply.Within msize reply.frameSize :=
  within_of_plain hc
    (Nat.le_trans (Nat.add_le_add_left hb.payloadSize_le headerSize) (by decide))

theorem within_walk {qids : List Qid} (hq : qids.length ≤ 16) :
    (Reply.walk qids).Within msize (Reply.walk qids).frameSize := by
  refine within_of_plain not_false ?_
  change 7 + (2 + 13 * qids.length) ≤ 65544
  omega

end Reply

/-- The size of messages after a moment. A new client has the greatest one, and one that begins a
session says which, of at least twelve bytes. -/
def Moment.msize (x : Moment) (before : UInt32) : UInt32 :=
  match x.happening, x.request? with
  | .client, _ => Share.defaultMsize
  | _, some ⟨_, .version n _⟩ => max n 12
  | _, _ => before

/-- The size of messages after all that happened since a server started. -/
def messageSize (log : List Moment) : UInt32 := log.foldl (fun n x => x.msize n) Share.defaultMsize

namespace Share

open Reply

variable {s s' s₀ t : Share} {reply : Reply} {r : Request} {x : Except ShareError Reply}
  {log : List Moment} {o : ShareOptions} {h : Host} {frame out : Bytes} {count : UInt32}

/-! ## The size of a session -/

theorem Act.msize (ha : Act s r x s') (hr : ¬ r.BeginsSession) : s'.msize = s.msize := by
  cases ha with
  | begin => exact absurd trivial hr
  | create source entry there after => rw [after]
  | make source entry makes records after => rw [after]
  | _ => rfl

/-- **Only a request to begin a session sets the size of messages.** -/
theorem perform_msize (hr : ¬ r.BeginsSession) : (s.perform r).2.msize = s.msize :=
  (perform_act rfl).msize hr

theorem after_msize (x : Moment) : x.after.msize = x.msize x.share.msize := by
  obtain ⟨m, hm, ha⟩ | ⟨hm, bs, hx, ha⟩ | ⟨hm, hx, ha⟩ | ⟨hm, h, hx, ha⟩ := x.after_cases
  · obtain ⟨bs, hx, -⟩ := Moment.request?_eq_some_iff.mp hm
    obtain ⟨tag, r⟩ := m
    rw [ha, flushRecords_msize, Moment.msize, hx, hm]
    by_cases hr : r.BeginsSession
    · cases r with
      | version n v => rfl
      | _ => exact absurd hr not_false
    · rw [perform_msize hr]
      cases r with
      | version n v => exact absurd trivial hr
      | _ => rfl
  · rw [ha, Moment.msize, hx, hm]
  · rw [ha, Moment.msize, hx]
    rfl
  · rw [ha, Moment.msize, hx, hm]
    rfl

/-! ## The length of a reply -/

theorem within_budget {n : Nat} (hm : readOverhead < s.msize) (hn : n ≤ s.budget count) :
    headerSize + (4 + n) ≤ s.msize.toNat := by
  have hlt : readOverhead.toNat < s.msize.toNat := UInt32.lt_iff_toNat_lt.mp hm
  have hover : readOverhead.toNat = 11 := rfl
  unfold budget at hn
  unfold headerSize
  omega

theorem Sees.within (hv : s.Sees r reply) (hr : r.FieldsFit) (hm : readOverhead < s.msize)
    (hf : reply.FieldsFit) : reply.Within s.msize.toNat reply.frameSize := by
  cases hv with
  | flush | getattr | fsync => exact Blank.within ⟨rfl, rfl, rfl, rfl⟩ not_false
  | walk source => exact within_walk (length_qids_le hr.walk)
  | @readlink id fid target source link =>
    have hlen := hf.texts target List.mem_cons_self
    refine within_of_plain not_false ?_
    change 7 + (2 + (Bytes.ofText target).length) ≤ 65544
    omega
  | readdir => exact within_of_data trivial (within_budget hm totalSize_entriesFrom_le)
  | read source held found => exact within_of_data trivial (within_budget hm (length_read_le found))
  | readTarget => exact within_of_data trivial (within_budget hm (List.length_take_le _ _))

theorem Act.within (ha : Act s r (.ok reply) s') (hr : r.FieldsFit) (hm : readOverhead < s.msize)
    (hf : reply.FieldsFit) : reply.Within s.msize.toNat reply.frameSize := by
  cases ha with
  | look sees => exact sees.within hr hm hf
  | begin =>
    refine within_of_plain not_false ?_
    change 7 + (4 + (2 + 8)) ≤ 65544
    decide
  | walk source => exact within_walk (length_qids_le hr.walk)
  | «open» opening => cases opening <;> exact Blank.within ⟨rfl, rfl, rfl, rfl⟩ not_false
  | make source entry makes records =>
    cases records <;> exact Blank.within ⟨rfl, rfl, rfl, rfl⟩ not_false
  | set source node edits records answers =>
    obtain rfl := answers reply rfl
    exact Blank.within ⟨rfl, rfl, rfl, rfl⟩ not_false
  | write source held edits answers =>
    obtain ⟨count, rfl⟩ := answers reply rfl
    exact Blank.within ⟨rfl, rfl, rfl, rfl⟩ not_false
  | drop drops =>
    obtain ⟨-, he⟩ | ⟨-, e, he⟩ := drops <;> cases he
    exact Blank.within ⟨rfl, rfl, rfl, rfl⟩ not_false
  | attach | create | move | unlink | remove =>
    exact Blank.within ⟨rfl, rfl, rfl, rfl⟩ not_false

/-- **The frame of a reply keeps within the size of the session**, or is one of those without
data. -/
theorem perform_within (hr : r.FieldsFit) (hm : readOverhead < s.msize)
    (ho : s.perform r = (.ok reply, s')) (hf : reply.FieldsFit) :
    reply.Within s.msize.toNat reply.frameSize := (perform_act ho).within hr hm hf

/-- **The frame that is sent back keeps within the size of the session**, or is one of those without
data. -/
theorem respond_within (hm : readOverhead < s.msize) (hout : (s.respond frame).1 = some out) :
    ∃ reply, Frame.toReply out = .ok reply ∧ reply.body.Within s.msize.toNat out.length := by
  cases hh : Frame.header frame with
  | error e =>
    rw [respond_eq_none_of_header hh] at hout
    cases hout
  | ok header =>
    rw [respond_fst hh, encode_eq_some_iff] at hout
    obtain ⟨hlen, -, hread, -⟩ := (reply_roundTrip ⟨header.tag, s.replyTo frame⟩).2 out hout
    have hself := hread []
    rw [List.append_nil] at hself
    refine ⟨_, hself, ?_⟩
    rw [hlen]
    rcases replyTo_cases (s := s) hh with ⟨e, -, he⟩ | ⟨m, hreq, -, -, ha, -⟩
    · rw [he]
      exact (blank_error e).within not_false
    · have hfits := (ofReply_isOk_iff (r := ⟨header.tag, s.replyTo frame⟩)).mp ⟨out, hout⟩
      exact perform_within (Frame.fieldsFit_of_toRequest hreq) hm
        (Prod.ext (answer_eq_ok_iff.mp ha).1 rfl) hfits.toFieldsFit

/-! ## Runs -/

theorem start_msize (hs : (start o h).1 = .ok s) : s.msize = defaultMsize := by
  unfold start at hs
  split at hs
  next => cases hs
  next =>
    split at hs
    next => cases hs
    next =>
      cases hs
      rfl

theorem History.msize_eq (hr : s₀.History log t) (h₀ : s₀.msize = defaultMsize) :
    t.msize = messageSize log := by
  induction hr with
  | start => exact h₀
  | @next log s e _ ih =>
    rw [messageSize, List.foldl_append]
    exact (after_msize ⟨s, e⟩).trans (congrArg (Moment.msize ⟨s, e⟩) ih)

theorem readOverhead_lt_max (n : UInt32) : readOverhead < max n 12 := by
  have hmax : max n 12 = if n ≤ 12 then 12 else n := rfl
  rw [hmax]
  split_ifs with hn
  · decide
  · exact UInt32.lt_of_lt_of_le (by decide) (UInt32.le_of_lt (UInt32.not_le.mp hn))

theorem readOverhead_lt_messageSize (log : List Moment) : readOverhead < messageSize log := by
  induction log using List.reverseRecOn with
  | nil => decide
  | append_singleton log x ih =>
    rw [messageSize, List.foldl_append]
    change readOverhead < x.msize (messageSize log)
    unfold Moment.msize
    split
    next => decide
    next => exact readOverhead_lt_max _
    next => exact ih

/-- **A server sends no frame that is too long.** Every frame with what was read or listed keeps
within the size of the session, which never is too small for the rest of such a frame. Every other
frame has at most 65544 bytes, so that none is too long for a client that asked for as many. -/
theorem run_replySize (hs : (start o h).1 = .ok s₀) (hr : s₀.History log t) :
    t.msize = messageSize log ∧ readOverhead < t.msize ∧
      ∀ frame out, (t.respond frame).1 = some out →
        (∃ reply, Frame.toReply out = .ok reply ∧ reply.body.Within t.msize.toNat out.length) ∧
          (maxPlainSize ≤ t.msize.toNat → out.length ≤ t.msize.toNat) := by
  have hm : t.msize = messageSize log := hr.msize_eq (start_msize hs)
  have hroom : readOverhead < t.msize := hm ▸ readOverhead_lt_messageSize log
  refine ⟨hm, hroom, fun frame out hout => ?_⟩
  obtain ⟨reply, hreply, hw⟩ := respond_within hroom hout
  refine ⟨⟨reply, hreply, hw⟩, fun hlarge => ?_⟩
  by_cases hc : reply.body.CarriesData
  · exact hw.data hc
  · exact Nat.le_trans (hw.plain hc) hlarge

/-- The frame of a request to begin a session with messages of no size. -/
def versionFrame : Bytes :=
  [21, 0, 0, 0, 100, 255, 255, 0, 0, 0, 0, 8, 0] ++ Bytes.ofText protocolVersion

/-- A client that asks for no room is given twelve bytes. -/
theorem run_replySize_least :
    ∃ s₀ log t, (start ⟨"/export", "/meta", defaultIounit⟩ (.empty ⟨0, 0⟩)).1 = .ok s₀ ∧
      s₀.History log t ∧ messageSize log = 12 ∧ t.msize = 12 := by
  obtain ⟨s₀, hs⟩ : ∃ s, (start ⟨"/export", "/meta", defaultIounit⟩ (.empty ⟨0, 0⟩)).1 = .ok s :=
    ⟨_, rfl⟩
  have hr := (.start : s₀.History [] s₀).next (.frame versionFrame)
  have hsize : messageSize ([] ++ [⟨s₀, .frame versionFrame⟩]) = 12 := rfl
  exact ⟨s₀, _, _, hs, hr, hsize, (run_replySize hs hr).1.trans hsize⟩

end Share

end GuestShare
