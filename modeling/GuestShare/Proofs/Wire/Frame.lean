import GuestShare.Proofs.Wire.Layout
import GuestShare.Wire.Frame
import Mathlib.Tactic.Common

/-!
# Headers put on and taken off

* `make_eq_ok_iff`: a payload has a frame if 32 bits count the frame's bytes; the frame is the
  header, which begins with that count, and the payload.
* `Layout.Lawful.make_isOk_iff`: which values have a frame.
* **`split_frame`**: header and payload are found again, whatever follows the frame.
-/

namespace GuestShare

namespace Frame

open Layout

theorem lawful_header : Header.layout.Lawful (fun _ => True) (fun _ => 7) := by
  refine Lawful.congr (Lawful.map (lawful_u32.pair (lawful_u8.pair lawful_u16)) _ _ fun _ => rfl)
    (fun _ => ?_) fun _ => rfl
  simp only [and_self]

/-- The bytes of a header. -/
def headerBytes (size : Nat) (code : UInt8) (tag : UInt16) : Bytes :=
  Bytes.ofNat 4 size ++ code :: Bytes.ofU16 tag

theorem write_header {size : Nat} (h : size < UInt32.size) (code : UInt8) (tag : UInt16) :
    Header.layout.write ⟨UInt32.ofNat size, code, tag⟩ = .ok (headerBytes size code tag) := by
  have hn : (UInt32.ofNat size).toNat = size := UInt32.toNat_ofNat_of_lt' h
  change Except.ok (Bytes.ofNat 4 (UInt32.ofNat size).toNat ++ code :: Bytes.ofU16 tag) = _
  rw [hn, headerBytes]

theorem length_headerBytes (size : Nat) (code : UInt8) (tag : UInt16) :
    (headerBytes size code tag).length = headerSize := by
  simp [headerBytes, headerSize]

/-- **A payload has a frame just if 32 bits count the frame's bytes.** -/
theorem make_eq_ok_iff {code : UInt8} {tag : UInt16} {payload out : Bytes} :
    make code tag payload = .ok out ↔ headerSize + payload.length < UInt32.size ∧
      out = headerBytes (headerSize + payload.length) code tag ++ payload := by
  unfold make
  by_cases h : headerSize + payload.length < UInt32.size
  · have h' : ¬ UInt32.size ≤ headerSize + payload.length := Nat.not_le.mpr h
    simp only [if_neg h', write_header h, bind, Except.bind, pure, Except.pure, Except.ok.injEq, h,
      true_and, eq_comm]
  · have h' : UInt32.size ≤ headerSize + payload.length := Nat.not_lt.mp h
    simp only [if_pos h', h, false_and, iff_false]
    intro he
    cases he

/-- **Header and payload are found again, whatever follows the frame.** -/
theorem split_frame {payload : Bytes} (h : headerSize + payload.length < UInt32.size) (code : UInt8)
    (tag : UInt16) (t : Bytes) :
    split (headerBytes (headerSize + payload.length) code tag ++ payload ++ t) =
      .ok (⟨UInt32.ofNat (headerSize + payload.length), code, tag⟩, payload) := by
  set head := headerBytes (headerSize + payload.length) code tag with hhead
  have hn : (UInt32.ofNat (headerSize + payload.length)).toNat = headerSize + payload.length :=
    UInt32.toNat_ofNat_of_lt' h
  have hlen : (head ++ payload).length = headerSize + payload.length := by
    rw [List.length_append, length_headerBytes]
  have hread := lawful_header.read_write (write_header h code tag) (payload ++ t)
  rw [← hhead, ← List.append_assoc] at hread
  have hsmall : ¬ headerSize + payload.length < headerSize := by omega
  unfold split
  rw [hread]
  simp only [bind, Except.bind, hn, List.take_left' hlen, hlen, if_neg hsmall,
    if_neg (Nat.lt_irrefl _), List.drop_left' (length_headerBytes _ code tag), pure, Except.pure,
    head]

theorem length_make {code : UInt8} {tag : UInt16} {payload out : Bytes}
    (h : make code tag payload = .ok out) : out.length = headerSize + payload.length := by
  obtain ⟨-, rfl⟩ := make_eq_ok_iff.mp h
  rw [List.length_append, length_headerBytes]

/-- **A frame begins with its own size.** -/
theorem take_make {code : UInt8} {tag : UInt16} {payload out : Bytes}
    (h : make code tag payload = .ok out) : out.take 4 = Bytes.ofNat 4 out.length := by
  rw [length_make h]
  obtain ⟨-, rfl⟩ := make_eq_ok_iff.mp h
  rw [headerBytes, List.append_assoc, List.take_left' (Bytes.length_ofNat ..)]

theorem split_make {code : UInt8} {tag : UInt16} {payload out : Bytes}
    (h : make code tag payload = .ok out) (t : Bytes) :
    split (out ++ t) = .ok (⟨UInt32.ofNat out.length, code, tag⟩, payload) := by
  rw [length_make h]
  obtain ⟨hsize, rfl⟩ := make_eq_ok_iff.mp h
  exact split_frame hsize code tag t

end Frame

/-- A value has a frame just if its fields fit and 32 bits count the bytes of the frame. -/
theorem Layout.Lawful.make_isOk_iff {α : Type} {l : Layout α} {Fits : α → Prop} {size : α → Nat}
    (hl : l.Lawful Fits size) {a : α} {code : UInt8} {tag : UInt16} :
    (∃ out payload, l.write a = .ok payload ∧ Frame.make code tag payload = .ok out) ↔
      Fits a ∧ headerSize + size a < UInt32.size := by
  constructor
  · rintro ⟨out, payload, hw, hm⟩
    exact ⟨(hl.writable a).mp ⟨payload, hw⟩, hl.length_eq hw ▸ (Frame.make_eq_ok_iff.mp hm).1⟩
  · rintro ⟨hfields, hframe⟩
    obtain ⟨payload, hw⟩ := (hl.writable a).mpr hfields
    rw [← hl.length_eq hw] at hframe
    exact ⟨_, payload, hw, Frame.make_eq_ok_iff.mpr ⟨hframe, rfl⟩⟩

end GuestShare
