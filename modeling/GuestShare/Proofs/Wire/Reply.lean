import GuestShare.Proofs.Wire.Frame
import Mathlib.Tactic.Common

/-!
# Replies on the wire

* `Reply.Fits`, `Reply.frameSize`: which replies can be written, and how long their frames are.
* `lawful_layout`: every operation's layout is lawful.
* `readdir_counts`: the count of a listing is the number of the bytes behind it.
* **`reply_roundTrip`**: a reply can be written just if it fits, its frame begins with its own size,
  and the frame is read as the reply, whatever follows it.
-/

namespace GuestShare

namespace Reply

/-! ## Which replies fit, and how long they are -/

/-- The texts of a reply that have a length of their own. -/
def texts : Reply → List String
  | .version _ v => [v]
  | .readlink target => [target]
  | .readdir entries => entries.map DirEntry.name
  | _ => []

/-- The number of nodes that a walk went through. -/
def walkLength : Reply → Nat
  | .walk qids => qids.length
  | _ => 0

/-- The bytes that were read. -/
def data : Reply → Bytes
  | .read bs => bs
  | _ => []

/-- The entries of a listing. -/
def entries : Reply → List DirEntry
  | .readdir es => es
  | _ => []

/-- The bytes of a payload. -/
def payloadSize : Reply → Nat
  | .version _ v => 4 + Layout.textSize v
  | .attach _ | .symlink _ | .mknod _ | .mkdir _ => Qid.size
  | .walk qids => 2 + Qid.size * qids.length
  | .lopen .. | .open .. | .lcreate .. => Qid.size + 4
  | .readlink target => Layout.textSize target
  | .getattr _ => Layout.attrSize
  | .readdir es => 4 + totalSize DirEntry.size es
  | .read bs => 4 + bs.length
  | .write _ | .error _ => 4
  | .flush | .setattr | .fsync | .renameat | .unlinkat | .clunk | .remove => 0

/-- The bytes of a frame. -/
def frameSize (r : Reply) : Nat := headerSize + r.payloadSize

/-- The code of a reply. -/
def code (r : Reply) : UInt8 :=
  match r.split with
  | .inl _ => MessageType.errorCode
  | .inr ⟨op, _⟩ => op.replyCode

/-- Every field fits its length: texts have at most 65535 bytes, a walk at most 65535 qids, and the
bytes that were read, or the bytes of all entries together, are counted by 32 bits. -/
structure FieldsFit (r : Reply) : Prop where
  texts : ∀ s ∈ r.texts, (Bytes.ofText s).length ≤ 65535
  walk : r.walkLength ≤ 65535
  data : r.data.length < UInt32.size
  entries : totalSize DirEntry.size r.entries < UInt32.size

/-- Every field fits, and 32 bits count the whole frame. -/
structure Fits (r : Reply) : Prop extends FieldsFit r where
  frame : r.frameSize < UInt32.size

theorem fieldsFit_iff {r : Reply} : r.FieldsFit ↔
    (∀ s ∈ r.texts, Layout.TextFits s) ∧ r.walkLength ≤ 65535 ∧ r.data.length < UInt32.size ∧
      totalSize DirEntry.size r.entries < UInt32.size :=
  ⟨fun h => ⟨h.texts, h.walk, h.data, h.entries⟩, fun h => ⟨h.1, h.2.1, h.2.2.1, h.2.2.2⟩⟩

/-- No field has a length that could be too large. -/
structure Blank (r : Reply) : Prop where
  texts : r.texts = []
  walk : r.walkLength = 0
  data : r.data = []
  entries : r.entries = []

theorem Blank.fieldsFit {r : Reply} (h : r.Blank) : r.FieldsFit where
  texts s hs := by
    rw [h.texts] at hs
    cases hs
  walk := by
    rw [h.walk]
    exact Nat.zero_le _
  data := by
    rw [h.data]
    decide
  entries := by
    rw [h.entries]
    decide

theorem Blank.payloadSize_le {r : Reply} (h : r.Blank) : r.payloadSize ≤ Layout.attrSize := by
  cases r with
  | version _ _ => cases h.texts
  | readlink _ => cases h.texts
  | walk qids =>
    obtain rfl : qids = [] := List.length_eq_zero_iff.mp h.walk
    decide
  | readdir es =>
    obtain rfl : es = [] := h.entries
    decide
  | read bs =>
    obtain rfl : bs = [] := h.data
    decide
  | _ =>
    simp only [payloadSize]
    decide

theorem Blank.frameSize_lt {r : Reply} (h : r.Blank) : r.frameSize < UInt32.size :=
  Nat.lt_of_le_of_lt (Nat.add_le_add_left h.payloadSize_le headerSize) (by decide)

theorem Blank.fits {r : Reply} (h : r.Blank) : r.Fits := ⟨h.fieldsFit, h.frameSize_lt⟩

theorem totalSize_const {α : Type} (n : Nat) (as : List α) :
    totalSize (fun _ => n) as = n * as.length := by
  induction as with
  | nil => rfl
  | cons a as ih => rw [totalSize, ih, List.length_cons, Nat.mul_succ, Nat.add_comm]

section

open Layout

theorem lawful_blank {op : Operation} {n : Nat}
    (hl : (layout op).Lawful (fun _ => True) (fun _ => n)) (hb : ∀ a, (join op a).Blank)
    (hn : ∀ a, n = (join op a).payloadSize) :
    (layout op).Lawful (fun a => (join op a).FieldsFit) (fun a => (join op a).payloadSize) :=
  hl.congr (fun a => ⟨fun _ => (hb a).fieldsFit, fun _ => trivial⟩) hn

theorem lawful_opened : (Qid.layout.pair u32).Lawful (fun _ => True) (fun _ => Qid.size + 4) :=
  (lawful_qid.pair lawful_u32).congr (fun _ => by simp only [and_self]) fun _ => rfl

/-- **Every operation's layout is lawful.** -/
theorem lawful_layout : ∀ op, (layout op).Lawful
    (fun a => (join op a).FieldsFit) (fun a => (join op a).payloadSize)
  | .version => (lawful_u32.pair lawful_text).congr
      (fun (_, _) => by simp [fieldsFit_iff, join, texts, walkLength, data, entries, totalSize])
      (fun _ => rfl)
  | .walk => (lawful_qid.counted (by decide)).congr
      (fun _ => by simp [fieldsFit_iff, join, texts, walkLength, data, entries, totalSize])
      (fun qids => by simp only [totalSize_const, join, payloadSize])
  | .readlink => lawful_text.congr
      (fun _ => by simp [fieldsFit_iff, join, texts, walkLength, data, entries, totalSize])
      (fun _ => rfl)
  | .readdir => (lawful_dirEntry.packed DirEntry.size_pos).congr
      (fun es => by
        simp only [fieldsFit_iff, join, texts, walkLength, data, entries, List.forall_mem_map]
        simp [and_comm])
      (fun _ => rfl)
  | .read => lawful_blob.congr
      (fun _ => by simp [fieldsFit_iff, join, texts, walkLength, data, entries, totalSize])
      (fun _ => rfl)
  | .attach => lawful_blank lawful_qid (fun _ => ⟨rfl, rfl, rfl, rfl⟩) fun _ => rfl
  | .flush => lawful_blank lawful_unit (fun _ => ⟨rfl, rfl, rfl, rfl⟩) fun _ => rfl
  | .lopen => lawful_blank lawful_opened (fun _ => ⟨rfl, rfl, rfl, rfl⟩) fun _ => rfl
  | .open => lawful_blank lawful_opened (fun _ => ⟨rfl, rfl, rfl, rfl⟩) fun _ => rfl
  | .lcreate => lawful_blank lawful_opened (fun _ => ⟨rfl, rfl, rfl, rfl⟩) fun _ => rfl
  | .symlink => lawful_blank lawful_qid (fun _ => ⟨rfl, rfl, rfl, rfl⟩) fun _ => rfl
  | .mknod => lawful_blank lawful_qid (fun _ => ⟨rfl, rfl, rfl, rfl⟩) fun _ => rfl
  | .getattr => lawful_blank lawful_attr (fun _ => ⟨rfl, rfl, rfl, rfl⟩) fun _ => rfl
  | .setattr => lawful_blank lawful_unit (fun _ => ⟨rfl, rfl, rfl, rfl⟩) fun _ => rfl
  | .fsync => lawful_blank lawful_unit (fun _ => ⟨rfl, rfl, rfl, rfl⟩) fun _ => rfl
  | .mkdir => lawful_blank lawful_qid (fun _ => ⟨rfl, rfl, rfl, rfl⟩) fun _ => rfl
  | .renameat => lawful_blank lawful_unit (fun _ => ⟨rfl, rfl, rfl, rfl⟩) fun _ => rfl
  | .unlinkat => lawful_blank lawful_unit (fun _ => ⟨rfl, rfl, rfl, rfl⟩) fun _ => rfl
  | .write => lawful_blank lawful_u32 (fun _ => ⟨rfl, rfl, rfl, rfl⟩) fun _ => rfl
  | .clunk => lawful_blank lawful_unit (fun _ => ⟨rfl, rfl, rfl, rfl⟩) fun _ => rfl
  | .remove => lawful_blank lawful_unit (fun _ => ⟨rfl, rfl, rfl, rfl⟩) fun _ => rfl

end

/-! ## Frames of replies -/

theorem ofReply_error_eq (tag : UInt16) (code : UInt32) :
    Frame.ofReply ⟨tag, .error code⟩ =
      Frame.make MessageType.errorCode tag (Bytes.ofU32 code) := rfl

theorem ofReply_join_eq_ok_iff {tag : UInt16} {op : Operation} {a : Args op} {out : Bytes} :
    Frame.ofReply ⟨tag, join op a⟩ = .ok out ↔
      ∃ payload, (layout op).write a = .ok payload ∧
        Frame.make op.replyCode tag payload = .ok out := by
  simp only [Frame.ofReply, split_join]
  rcases (layout op).write a with e | payload
  · simp [bind, Except.bind]
  · simp [bind, Except.bind]

theorem blank_error (code : UInt32) : (error code).Blank := ⟨rfl, rfl, rfl, rfl⟩

theorem fits_error (code : UInt32) : (error code).Fits := (blank_error code).fits

theorem ofReply_join_isOk_iff (tag : UInt16) (op : Operation) (a : Args op) :
    (∃ out, Frame.ofReply ⟨tag, join op a⟩ = .ok out) ↔ (join op a).Fits := by
  simp only [ofReply_join_eq_ok_iff, (lawful_layout op).make_isOk_iff]
  exact ⟨fun h => ⟨h.1, h.2⟩, fun h => ⟨h.toFieldsFit, h.frame⟩⟩

theorem toReply_make {tag : UInt16} {op : Operation} {a : Args op} {payload out : Bytes}
    (hw : (layout op).write a = .ok payload) (hm : Frame.make op.replyCode tag payload = .ok out)
    (t : Bytes) : Frame.toReply (out ++ t) = .ok ⟨tag, join op a⟩ := by
  have hread := (lawful_layout op).read_write hw []
  rw [List.append_nil] at hread
  rw [Frame.toReply, Frame.split_make hm t]
  simp only [bind, Except.bind, if_neg (MessageType.replyCode_ne_errorCode op),
    Operation.ofReplyCode?_replyCode, hread, pure, Except.pure]

theorem toReply_make_error {tag : UInt16} {code : UInt32} {out : Bytes}
    (hm : Frame.make MessageType.errorCode tag (Bytes.ofU32 code) = .ok out) (t : Bytes) :
    Frame.toReply (out ++ t) = .ok ⟨tag, .error code⟩ := by
  have hread := Layout.run_u32 code []
  rw [List.append_nil] at hread
  rw [Frame.toReply, Frame.split_make hm t]
  simp only [bind, Except.bind, if_true, Layout.u32, hread, pure, Except.pure]

theorem readdir_counts {tag : UInt16} {es : List DirEntry} {frame : Bytes}
    (h : Frame.ofReply ⟨tag, .readdir es⟩ = .ok frame) :
    (frame.drop headerSize).take 4 = Bytes.ofNat 4 (totalSize DirEntry.size es) ∧
      (frame.drop (headerSize + 4)).length = totalSize DirEntry.size es := by
  have hjoin : Frame.ofReply ⟨tag, join .readdir es⟩ = .ok frame := h
  obtain ⟨payload, hw, hm⟩ := ofReply_join_eq_ok_iff.mp hjoin
  obtain ⟨hsize, items, hi, rfl⟩ := Layout.write_packed_eq_ok_iff.mp hw
  obtain ⟨-, rfl⟩ := Frame.make_eq_ok_iff.mp hm
  have hn : (UInt32.ofNat (totalSize DirEntry.size es)).toNat = totalSize DirEntry.size es :=
    UInt32.toNat_ofNat_of_lt' hsize
  rw [← List.drop_drop, List.drop_left' (Frame.length_headerBytes ..),
    List.take_left' (Bytes.length_ofU32 _), List.drop_left' (Bytes.length_ofU32 _),
    Layout.lawful_dirEntry.length_writeAll hi, Bytes.ofU32, hn]
  exact ⟨rfl, rfl⟩

theorem code_join (op : Operation) (a : Args op) : (join op a).code = op.replyCode := by
  rw [code, split_join]

theorem ofReply_isOk_iff {r : Tagged Reply} :
    (∃ frame, Frame.ofReply r = .ok frame) ↔ r.body.Fits := by
  obtain ⟨tag, body⟩ := r
  rcases hs : body.split with code | ⟨op, a⟩
  · obtain rfl := eq_error_of_split hs
    rw [ofReply_error_eq]
    exact ⟨fun _ => fits_error code,
      fun _ => ⟨_, Frame.make_eq_ok_iff.mpr ⟨(fits_error code).frame, rfl⟩⟩⟩
  · obtain rfl := eq_join_of_split hs
    exact ofReply_join_isOk_iff tag op a

theorem ofReply_eq_ok {r : Tagged Reply} {frame : Bytes} (h : Frame.ofReply r = .ok frame) :
    ∃ payload, Frame.make r.body.code r.tag payload = .ok frame ∧
      payload.length = r.body.payloadSize ∧ ∀ t, Frame.toReply (frame ++ t) = .ok r := by
  obtain ⟨tag, body⟩ := r
  rcases hs : body.split with code | ⟨op, a⟩
  · obtain rfl := eq_error_of_split hs
    rw [ofReply_error_eq] at h
    exact ⟨_, h, Bytes.length_ofU32 _, toReply_make_error h⟩
  · obtain rfl := eq_join_of_split hs
    obtain ⟨payload, hw, hm⟩ := ofReply_join_eq_ok_iff.mp h
    refine ⟨payload, ?_, (lawful_layout op).length_eq hw, toReply_make hw hm⟩
    rw [code_join]
    exact hm

theorem toReply_of_ofReply {r : Tagged Reply} {frame : Bytes} (h : Frame.ofReply r = .ok frame) :
    Frame.toReply frame = .ok r := by
  obtain ⟨-, -, -, hread⟩ := ofReply_eq_ok h
  have ht := hread []
  rwa [List.append_nil] at ht

theorem exists_eq_join {op : Operation} {reply : Reply} (h : reply.code = op.replyCode) :
    ∃ a, reply = join op a := by
  rcases hs : reply.split with code | ⟨op', a⟩
  · obtain rfl := eq_error_of_split hs
    exact absurd h.symm (MessageType.replyCode_ne_errorCode op)
  · obtain rfl := eq_join_of_split hs
    rw [code_join] at h
    have hop := Operation.ofReplyCode?_replyCode op'
    rw [h, Operation.ofReplyCode?_replyCode] at hop
    cases hop
    exact ⟨a, rfl⟩

/-- **A reply can be written just if it fits. Its frame begins with its own size, and whatever
follows it, the frame is read as the reply again.** A listing counts the bytes of its entries. -/
theorem reply_roundTrip (r : Tagged Reply) :
    ((∃ frame, Frame.ofReply r = .ok frame) ↔ r.body.Fits) ∧
      ∀ frame, Frame.ofReply r = .ok frame →
        frame.length = r.body.frameSize ∧ frame.take 4 = Bytes.ofNat 4 frame.length ∧
          (∀ t, Frame.toReply (frame ++ t) = .ok r) ∧
          ∀ es, r.body = .readdir es →
            (frame.drop headerSize).take 4 = Bytes.ofNat 4 (totalSize DirEntry.size es) ∧
              (frame.drop (headerSize + 4)).length = totalSize DirEntry.size es := by
  refine ⟨ofReply_isOk_iff, fun frame h => ?_⟩
  obtain ⟨payload, hm, hlen, hread⟩ := ofReply_eq_ok h
  refine ⟨?_, Frame.take_make hm, hread, fun es he => ?_⟩
  · rw [Frame.length_make hm, hlen, frameSize]
  · obtain ⟨tag, body⟩ := r
    obtain rfl : body = .readdir es := he
    exact readdir_counts h

end Reply

end GuestShare
