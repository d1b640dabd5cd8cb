import GuestShare.Proofs.Wire.Frame
import Mathlib.Tactic.Common

/-!
# Requests on the wire

* `Request.Fits`, `Request.frameSize`: which requests can be written, and how long their frames are.
* `lawful_layout`: every operation's layout is lawful.
* **`request_roundTrip`**: a request can be written just if it fits, its frame begins with its own
  size, and the frame is read as the request, whatever follows it.
-/

set_option linter.unusedSimpArgs false

namespace GuestShare

namespace Request

/-! ## Which requests fit, and how long they are -/

/-- The text fields of a request. -/
def texts : Request → List String
  | .version _ v => [v]
  | .attach _ _ uname aname _ => [uname, aname]
  | .walk _ _ names => names
  | .lcreate _ name _ _ _ => [name]
  | .symlink _ name target _ => [name, target]
  | .mknod _ name _ _ _ _ => [name]
  | .mkdir _ name _ _ => [name]
  | .renameat _ oldName _ newName => [oldName, newName]
  | .unlinkat _ name _ => [name]
  | _ => []

/-- The number of names to walk. -/
def walkLength : Request → Nat
  | .walk _ _ names => names.length
  | _ => 0

/-- The bytes to write. -/
def data : Request → Bytes
  | .write _ _ bs => bs
  | _ => []

/-- The bytes of a payload beside its texts and the bytes to write. -/
def fixedSize : Request → Nat
  | .version .. => 4
  | .attach .. => 12
  | .flush _ => 2
  | .walk .. => 10
  | .lopen .. => 8
  | .open .. => 5
  | .lcreate .. => 16
  | .symlink .. => 8
  | .mknod .. => 20
  | .readlink _ => 4
  | .getattr .. => 12
  | .setattr .. => 60
  | .readdir .. => 16
  | .fsync .. => 8
  | .mkdir .. => 12
  | .renameat .. => 8
  | .unlinkat .. => 8
  | .read .. => 16
  | .write .. => 16
  | .clunk _ => 4
  | .remove _ => 4
  | .unknown _ => 0

/-- The bytes of a payload. -/
def payloadSize (r : Request) : Nat :=
  r.fixedSize + totalSize Layout.textSize r.texts + r.data.length

/-- The bytes of a frame: header, fixed fields, every text behind its length, the bytes to write. -/
def frameSize (r : Request) : Nat := headerSize + r.payloadSize

/-- The code of a request. -/
def code (r : Request) : UInt8 :=
  match r.split with
  | .inl c => c
  | .inr ⟨op, _⟩ => op.code

theorem code_join (op : Operation) (a : Args op) : (join op a).code = op.code := by
  rw [code, split_join]

/-- Every field fits its length: texts have at most 65535 bytes, a walk at most 16 names, and the
bytes to write are counted by 32 bits. -/
structure FieldsFit (r : Request) : Prop where
  texts : ∀ s ∈ r.texts, (Bytes.ofText s).length ≤ 65535
  walk : r.walkLength ≤ 16
  data : r.data.length < UInt32.size

/-- Every field fits, and 32 bits count the whole frame. -/
structure Fits (r : Request) : Prop extends FieldsFit r where
  frame : r.frameSize < UInt32.size

theorem fieldsFit_iff {r : Request} : r.FieldsFit ↔
    (∀ s ∈ r.texts, Layout.TextFits s) ∧ r.walkLength ≤ 16 ∧ r.data.length < UInt32.size :=
  ⟨fun h => ⟨h.texts, h.walk, h.data⟩, fun h => ⟨h.1, h.2.1, h.2.2⟩⟩

section

open Layout

/-- **Every operation's layout is lawful.** -/
theorem lawful_layout : ∀ op, (layout op).Lawful
    (fun a => (join op a).FieldsFit) (fun a => (join op a).payloadSize)
  | .version => (lawful_u32.pair lawful_text).congr
      (fun (_, _) => by simp [fieldsFit_iff, join, texts, walkLength, data])
      (fun (_, _) => by
        simp only [payloadSize, join, fixedSize, texts, data, totalSize, List.length_nil]
        omega)
  | .attach => (lawful_u32.pair <| lawful_u32.pair <| lawful_text.pair <| lawful_text.pair <|
      lawful_u32.orElse fun _ => Nat.le_refl 4).congr
      (fun (_, _, _, _, _) => by simp [fieldsFit_iff, join, texts, walkLength, data])
      (fun (_, _, _, _, _) => by
        simp only [payloadSize, join, fixedSize, texts, data, totalSize, List.length_nil]
        omega)
  | .flush => lawful_u16.congr
      (fun _ => by simp [fieldsFit_iff, join, texts, walkLength, data])
      (fun _ => rfl)
  | .walk => (lawful_u32.pair <| lawful_u32.pair <| lawful_text.counted (by decide)).congr
      (fun (_, _, _) => by
        simp [fieldsFit_iff, join, texts, walkLength, data, maxWalkNames, and_comm])
      (fun (_, _, _) => by
        simp only [payloadSize, join, fixedSize, texts, data, totalSize, List.length_nil]
        omega)
  | .lopen => (lawful_u32.pair lawful_u32).congr
      (fun (_, _) => by simp [fieldsFit_iff, join, texts, walkLength, data])
      (fun _ => rfl)
  | .open => (lawful_u32.pair lawful_u8).congr
      (fun (_, _) => by simp [fieldsFit_iff, join, texts, walkLength, data])
      (fun _ => rfl)
  | .lcreate => (lawful_u32.pair <| lawful_text.pair <| lawful_u32.pair <|
      lawful_u32.pair lawful_u32).congr
      (fun (_, _, _, _, _) => by simp [fieldsFit_iff, join, texts, walkLength, data])
      (fun (_, _, _, _, _) => by
        simp only [payloadSize, join, fixedSize, texts, data, totalSize, List.length_nil]
        omega)
  | .symlink => (lawful_u32.pair <| lawful_text.pair <| lawful_text.pair lawful_u32).congr
      (fun (_, _, _, _) => by simp [fieldsFit_iff, join, texts, walkLength, data])
      (fun (_, _, _, _) => by
        simp only [payloadSize, join, fixedSize, texts, data, totalSize, List.length_nil]
        omega)
  | .mknod => (lawful_u32.pair <| lawful_text.pair <| lawful_u32.pair <| lawful_u32.pair <|
      lawful_u32.pair lawful_u32).congr
      (fun (_, _, _, _, _, _) => by simp [fieldsFit_iff, join, texts, walkLength, data])
      (fun (_, _, _, _, _, _) => by
        simp only [payloadSize, join, fixedSize, texts, data, totalSize, List.length_nil]
        omega)
  | .readlink => lawful_u32.congr
      (fun _ => by simp [fieldsFit_iff, join, texts, walkLength, data])
      (fun _ => rfl)
  | .getattr => (lawful_u32.pair lawful_u64).congr
      (fun (_, _) => by simp [fieldsFit_iff, join, texts, walkLength, data])
      (fun _ => rfl)
  | .setattr => (lawful_u32.pair lawful_setAttr).congr
      (fun (_, _) => by simp [fieldsFit_iff, join, texts, walkLength, data])
      (fun _ => rfl)
  | .readdir => (lawful_u32.pair <| lawful_u64.pair lawful_u32).congr
      (fun (_, _, _) => by simp [fieldsFit_iff, join, texts, walkLength, data])
      (fun _ => rfl)
  | .fsync => (lawful_u32.pair <| lawful_u32.orElse fun _ => Nat.le_refl 4).congr
      (fun (_, _) => by simp [fieldsFit_iff, join, texts, walkLength, data])
      (fun _ => rfl)
  | .mkdir => (lawful_u32.pair <| lawful_text.pair <| lawful_u32.pair lawful_u32).congr
      (fun (_, _, _, _) => by simp [fieldsFit_iff, join, texts, walkLength, data])
      (fun (_, _, _, _) => by
        simp only [payloadSize, join, fixedSize, texts, data, totalSize, List.length_nil]
        omega)
  | .renameat => (lawful_u32.pair <| lawful_text.pair <| lawful_u32.pair lawful_text).congr
      (fun (_, _, _, _) => by simp [fieldsFit_iff, join, texts, walkLength, data])
      (fun (_, _, _, _) => by
        simp only [payloadSize, join, fixedSize, texts, data, totalSize, List.length_nil]
        omega)
  | .unlinkat => (lawful_u32.pair <| lawful_text.pair lawful_u32).congr
      (fun (_, _, _) => by simp [fieldsFit_iff, join, texts, walkLength, data])
      (fun (_, _, _) => by
        simp only [payloadSize, join, fixedSize, texts, data, totalSize, List.length_nil]
        omega)
  | .read => (lawful_u32.pair <| lawful_u64.pair lawful_u32).congr
      (fun (_, _, _) => by simp [fieldsFit_iff, join, texts, walkLength, data])
      (fun _ => rfl)
  | .write => (lawful_u32.pair <| lawful_u64.pair lawful_blob).congr
      (fun (_, _, _) => by simp [fieldsFit_iff, join, texts, walkLength, data])
      (fun (_, _, _) => by
        simp only [payloadSize, join, fixedSize, texts, data, totalSize, List.length_nil]
        omega)
  | .clunk => lawful_u32.congr
      (fun _ => by simp [fieldsFit_iff, join, texts, walkLength, data])
      (fun _ => rfl)
  | .remove => lawful_u32.congr
      (fun _ => by simp [fieldsFit_iff, join, texts, walkLength, data])
      (fun _ => rfl)

end

/-! ## Frames of requests -/

theorem ofRequest_unknown (tag : UInt16) (code : UInt8) :
    Frame.ofRequest ⟨tag, unknown code⟩ = Frame.make code tag [] := rfl

theorem ofRequest_join_eq_ok_iff {tag : UInt16} {op : Operation} {a : Args op} {out : Bytes} :
    Frame.ofRequest ⟨tag, join op a⟩ = .ok out ↔
      ∃ payload, (layout op).write a = .ok payload ∧ Frame.make op.code tag payload = .ok out := by
  simp only [Frame.ofRequest, split_join]
  rcases (layout op).write a with e | payload
  · simp [bind, Except.bind]
  · simp [bind, Except.bind]

theorem fits_unknown (code : UInt8) : (unknown code).Fits where
  texts s hs := absurd hs List.not_mem_nil
  walk := Nat.zero_le 16
  data := by
    change 0 < UInt32.size
    decide
  frame := by
    change 7 < UInt32.size
    decide

theorem ofRequest_join_isOk_iff (tag : UInt16) (op : Operation) (a : Args op) :
    (∃ out, Frame.ofRequest ⟨tag, join op a⟩ = .ok out) ↔ (join op a).Fits := by
  simp only [ofRequest_join_eq_ok_iff, (lawful_layout op).make_isOk_iff]
  exact ⟨fun h => ⟨h.1, h.2⟩, fun h => ⟨h.toFieldsFit, h.frame⟩⟩

theorem toRequest_make {tag : UInt16} {op : Operation} {a : Args op} {payload out : Bytes}
    (hw : (layout op).write a = .ok payload) (hm : Frame.make op.code tag payload = .ok out)
    (t : Bytes) : Frame.toRequest (out ++ t) = .ok ⟨tag, join op a⟩ := by
  have hread := (lawful_layout op).read_write hw []
  rw [List.append_nil] at hread
  rw [Frame.toRequest, Frame.split_make hm t]
  simp only [bind, Except.bind, Operation.ofCode?_code, hread, pure, Except.pure]

theorem toRequest_of_ofRequest {tag : UInt16} (op : Operation) (a : Args op) {frame : Bytes}
    (hf : Frame.ofRequest ⟨tag, join op a⟩ = .ok frame) :
    Frame.toRequest frame = .ok ⟨tag, join op a⟩ := by
  obtain ⟨payload, hw, hm⟩ := ofRequest_join_eq_ok_iff.mp hf
  have ht := toRequest_make hw hm []
  rwa [List.append_nil] at ht

theorem make_of_ofRequest {tag : UInt16} {r : Request} {frame : Bytes}
    (hf : Frame.ofRequest ⟨tag, r⟩ = .ok frame) :
    ∃ payload, Frame.make r.code tag payload = .ok frame := by
  rcases hs : r.split with code | ⟨op, a⟩
  · obtain rfl := eq_unknown_of_split hs
    exact ⟨[], hf⟩
  · obtain rfl := eq_join_of_split hs
    obtain ⟨payload, -, hm⟩ := ofRequest_join_eq_ok_iff.mp hf
    rw [code_join]
    exact ⟨payload, hm⟩

theorem toRequest_make_unknown {tag : UInt16} {code : UInt8} {payload out : Bytes}
    (hc : Operation.ofCode? code = none) (hm : Frame.make code tag payload = .ok out) (t : Bytes) :
    Frame.toRequest (out ++ t) = .ok ⟨tag, unknown code⟩ := by
  rw [Frame.toRequest, Frame.split_make hm t]
  simp only [bind, Except.bind, hc, pure, Except.pure]

/-- **A request can be written just if it fits. Its frame begins with its own size, and whatever
follows it, the frame is read as the request again**, unless the request is an unknown one under
the code of an operation. -/
theorem request_roundTrip (r : Tagged Request) :
    ((∃ frame, Frame.ofRequest r = .ok frame) ↔ r.body.Fits) ∧
      ∀ frame, Frame.ofRequest r = .ok frame →
        frame.length = r.body.frameSize ∧ frame.take 4 = Bytes.ofNat 4 frame.length ∧
          ((∀ code, r.body = .unknown code → Operation.ofCode? code = none) →
            ∀ t, Frame.toRequest (frame ++ t) = .ok r) := by
  obtain ⟨tag, body⟩ := r
  rcases hs : body.split with code | ⟨op, a⟩
  · obtain rfl := eq_unknown_of_split hs
    refine ⟨⟨fun _ => fits_unknown code, fun _ => ?_⟩, fun frame h => ?_⟩
    · exact ⟨_, (ofRequest_unknown tag code).trans (Frame.make_eq_ok_iff.mpr ⟨by decide, rfl⟩)⟩
    · rw [ofRequest_unknown] at h
      exact ⟨Frame.length_make h, Frame.take_make h,
        fun hc => toRequest_make_unknown (hc code rfl) h⟩
  · obtain rfl := eq_join_of_split hs
    refine ⟨ofRequest_join_isOk_iff tag op a, fun frame h => ?_⟩
    obtain ⟨payload, hw, hm⟩ := ofRequest_join_eq_ok_iff.mp h
    refine ⟨?_, Frame.take_make hm, fun _ => toRequest_make hw hm⟩
    rw [Frame.length_make hm, (lawful_layout op).length_eq hw, frameSize]

end Request

end GuestShare
