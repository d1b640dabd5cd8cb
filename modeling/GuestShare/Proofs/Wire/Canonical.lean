import GuestShare.Proofs.Outcome
import GuestShare.Proofs.Wire.Exact
import GuestShare.Proofs.Wire.Reply
import GuestShare.Proofs.Wire.Request
import Mathlib.Tactic.Common

/-!
# One form for each message

Frames that are read as the same message differ only in what is ignored, or in a field that older
peers leave out. The form with every field and nothing ignored is the one that is written.

* `split_eq_ok_iff`, `header_isOk_iff`: which bytes have a header, and what it counts.
* `Frame.Says`: the bytes of a frame that matter.
* `toRequest_says`, `toReply_says`: what is read is what the frame says.
* **`decoded_canonical`**: whatever is read can be written again, in one form.
-/

namespace GuestShare

namespace Frame

open Layout

variable {b t payload out : Bytes} {h : Header}

/-! ## Headers -/

/-- **A frame is a header, the payload that it counts, and anything else.** -/
theorem split_eq_ok_iff :
    split b = .ok (h, payload) ↔ h.size.toNat = headerSize + payload.length ∧
      ∃ t, b = headerBytes h.size.toNat h.code h.tag ++ payload ++ t := by
  constructor
  · intro hs
    unfold split at hs
    rcases hr : Header.layout.read.run b with ⟨e | h', rest⟩
    · rw [hr] at hs
      cases hs
    · obtain ⟨front, rfl, hfront⟩ := exact_header.front hr
      obtain rfl : headerBytes h'.size.toNat h'.code h'.tag = front := by
        cases hfront
        rfl
      have hlen := length_headerBytes h'.size.toNat h'.code h'.tag
      rw [hr] at hs
      simp only [bind, Except.bind, pure, Except.pure] at hs
      split_ifs at hs with hsmall hshort
      cases hs
      rw [List.length_take, List.length_append, hlen] at hshort
      rw [List.drop_take, List.drop_left' hlen]
      refine ⟨?_, rest.drop (h.size.toNat - headerSize), ?_⟩
      · rw [List.length_take]
        omega
      · rw [List.append_assoc, List.take_append_drop]
  · rintro ⟨hsize, t, rfl⟩
    have hlt : headerSize + payload.length < UInt32.size := hsize ▸ h.size.toNat_lt_size
    have hs := split_frame hlt h.code h.tag t
    rw [← hsize, UInt32.ofNat_toNat] at hs
    exact hs

theorem header_eq_ok_iff : header b = .ok h ↔ ∃ payload, split b = .ok (h, payload) := by
  unfold header
  rcases split b with e | ⟨h', payload⟩
  · simp [Functor.map, Except.map]
  · simp [Functor.map, Except.map]

/-- The size that a frame begins with. -/
def declaredSize (b : Bytes) : Nat := Bytes.toNat (b.take 4)

theorem declaredSize_eq (hs : split b = .ok (h, payload)) : declaredSize b = h.size.toNat := by
  obtain ⟨hsize, t, rfl⟩ := split_eq_ok_iff.mp hs
  unfold declaredSize headerBytes
  rw [List.append_assoc, List.append_assoc, List.take_left' (Bytes.length_ofNat ..),
    Bytes.toNat_ofNat]
  exact Nat.mod_eq_of_lt h.size.toNat_lt_size

theorem header_make {code : UInt8} {tag : UInt16} (hm : make code tag payload = .ok out) :
    header out = .ok ⟨UInt32.ofNat out.length, code, tag⟩ := by
  have hs := split_make hm []
  rw [List.append_nil] at hs
  exact header_eq_ok_iff.mpr ⟨payload, hs⟩

theorem declaredSize_make {code : UInt8} {tag : UInt16} (hm : make code tag payload = .ok out) :
    declaredSize out = out.length := by
  have hlt : out.length < UInt32.size := by
    rw [length_make hm]
    exact (make_eq_ok_iff.mp hm).1
  rw [declaredSize, take_make hm, Bytes.toNat_ofNat]
  exact Nat.mod_eq_of_lt hlt

theorem toNat_toU32_take (hb : 4 ≤ b.length) :
    (Bytes.toU32 (b.take 4)).toNat = declaredSize b := by
  have hlt := Bytes.toNat_lt (b.take 4)
  rw [List.length_take, Nat.min_eq_left hb] at hlt
  exact UInt32.toNat_ofNat_of_lt' hlt

theorem exists_headerBytes (hb : headerSize ≤ b.length) :
    ∃ (h : Header) (rest : Bytes), h.size.toNat = declaredSize b ∧
      b = headerBytes h.size.toNat h.code h.tag ++ rest := by
  unfold headerSize at hb
  have hsize : (b.take 4).length = 4 := by
    rw [List.length_take]
    omega
  obtain ⟨c, l, hcl⟩ : ∃ c l, b.drop 4 = c :: l :=
    List.exists_cons_of_length_pos (by rw [List.length_drop]; omega)
  have htag : (l.take 2).length = 2 := by
    have hlen := congrArg List.length hcl
    rw [List.length_drop, List.length_cons] at hlen
    rw [List.length_take]
    omega
  refine ⟨⟨Bytes.toU32 (b.take 4), c, Bytes.toU16 (l.take 2)⟩, l.drop 2,
    toNat_toU32_take (by omega), ?_⟩
  have h4 : Bytes.ofNat 4 (Bytes.toU32 (b.take 4)).toNat = b.take 4 := Bytes.ofU32_toU32 hsize
  rw [headerBytes, h4, Bytes.ofU16_toU16 htag, List.append_assoc, List.cons_append,
    List.take_append_drop, ← hcl, List.take_append_drop]

/-- **There is a header just if the declared size is that of a frame which is there.** -/
theorem header_isOk_iff :
    (∃ h, header b = .ok h) ↔
      headerSize ≤ b.length ∧ headerSize ≤ declaredSize b ∧ declaredSize b ≤ b.length := by
  constructor
  · rintro ⟨h, hh⟩
    obtain ⟨payload, hs⟩ := header_eq_ok_iff.mp hh
    rw [declaredSize_eq hs]
    obtain ⟨hsize, t, rfl⟩ := split_eq_ok_iff.mp hs
    rw [List.length_append, List.length_append, length_headerBytes]
    omega
  · rintro ⟨hb, hlow, hhigh⟩
    obtain ⟨h, rest, hn, rfl⟩ := exists_headerBytes hb
    rw [← hn] at hlow hhigh
    rw [List.length_append, length_headerBytes] at hhigh
    refine ⟨h, header_eq_ok_iff.mpr ⟨rest.take (h.size.toNat - headerSize), ?_⟩⟩
    refine split_eq_ok_iff.mpr ⟨?_, rest.drop (h.size.toNat - headerSize), ?_⟩
    · rw [List.length_take]
      omega
    · rw [List.append_assoc, List.take_append_drop]

theorem split_take (hs : split b = .ok (h, payload)) (t : Bytes) :
    split (b.take h.size.toNat ++ t) = .ok (h, payload) := by
  obtain ⟨hsize, t', rfl⟩ := split_eq_ok_iff.mp hs
  refine split_eq_ok_iff.mpr ⟨hsize, t, ?_⟩
  rw [List.take_left']
  rw [List.length_append, length_headerBytes, hsize]

/-! ## What a frame says -/

/-- Behind its size the frame `b` has the bytes `whole`, or all of them but for those of the field
`optional`. What follows is ignored, whether the size counts it or not. -/
def Says (optional b whole : Bytes) : Prop :=
  ∃ said counted more, b = Bytes.ofNat 4 (4 + said.length + counted.length) ++ said ++ counted ++
    more ∧ (said = whole ∨ counted.length < optional.length ∧ whole = said ++ optional)

theorem drop_make {code : UInt8} {tag : UInt16} (hm : make code tag payload = .ok out) :
    out.drop 4 = code :: Bytes.ofU16 tag ++ payload := by
  obtain ⟨-, rfl⟩ := make_eq_ok_iff.mp hm
  rw [headerBytes, List.append_assoc, List.drop_left' (Bytes.length_ofNat ..)]

theorem says_of_split {front rest optional : Bytes} (hs : split b = .ok (h, front ++ rest))
    (hm : make h.code h.tag payload = .ok out)
    (hp : payload = front ∨ rest.length < optional.length ∧ payload = front ++ optional) :
    Says optional b (out.drop 4) := by
  obtain ⟨hsize, t, rfl⟩ := split_eq_ok_iff.mp hs
  refine ⟨h.code :: Bytes.ofU16 h.tag ++ front, rest, t, ?_, ?_⟩
  · have hn : 4 + (h.code :: Bytes.ofU16 h.tag ++ front).length + rest.length = h.size.toNat := by
      rw [hsize]
      simp only [List.length_append, List.length_cons, Bytes.length_ofU16, headerSize]
      omega
    rw [hn, headerBytes]
    simp only [List.append_assoc]
  · rw [drop_make hm]
    rcases hp with rfl | ⟨hlt, rfl⟩
    · exact .inl rfl
    · exact .inr ⟨hlt, by rw [List.append_assoc]⟩

theorem split_eq_error {e : WireError} (hs : split b = .error e) :
    e.OfField ∨ ∃ declared actual, e = .lengthMismatch declared actual := by
  unfold split at hs
  rcases hr : Header.layout.read.run b with ⟨e' | h', rest⟩
  · rw [hr] at hs
    cases hs
    exact .inl (exact_header.read_eq_error hr)
  · rw [hr] at hs
    simp only [bind, Except.bind, pure, Except.pure] at hs
    split_ifs at hs <;> cases hs <;> exact .inr ⟨_, _, rfl⟩

/-! ## Requests -/

/-- The last field of a request, as it stands in a frame, if older peers leave it out. -/
def optionalPart (r : Request) : Bytes :=
  match r.split with
  | .inl _ => []
  | .inr ⟨op, _⟩ => Request.optionalField op

theorem optionalPart_join (op : Operation) (a : Request.Args op) :
    optionalPart (Request.join op a) = Request.optionalField op := by
  rw [optionalPart, Request.split_join]

theorem frameSize_lt_of_optional {op : Operation} {a : Request.Args op}
    (ho : Request.optionalField op ≠ []) (hf : (Request.join op a).FieldsFit) :
    (Request.join op a).frameSize < UInt32.size := by
  cases op with
  | attach =>
    obtain ⟨fid, afid, uname, aname, uid⟩ := a
    have hu := hf.texts uname List.mem_cons_self
    have ha := hf.texts aname (List.mem_cons_of_mem _ List.mem_cons_self)
    simp only [Request.frameSize, Request.payloadSize, Request.join, Request.fixedSize,
      Request.texts, Request.data, totalSize, Layout.textSize, List.length_nil, headerSize,
      UInt32.size]
    omega
  | fsync =>
    change 15 < UInt32.size
    decide
  | _ => exact absurd rfl ho

theorem toRequest_says {r : Tagged Request} (hr : toRequest b = .ok r) :
    ∃ out, ofRequest r = .ok out ∧ toRequest out = .ok r ∧
      Says (optionalPart r.body) b (out.drop 4) := by
  obtain ⟨⟨h, payload⟩, hs, hr⟩ := Outcome.bind_eq_ok_iff.mp hr
  simp only at hr
  split at hr
  next hcode =>
    cases hr
    obtain ⟨out, hm⟩ : ∃ out, make h.code h.tag [] = .ok out :=
      ⟨_, make_eq_ok_iff.mpr ⟨by decide, rfl⟩⟩
    have hnone : split b = .ok (h, [] ++ payload) := hs
    refine ⟨out, hm, ?_, says_of_split hnone hm (.inl rfl)⟩
    have ht := Request.toRequest_make_unknown hcode hm []
    rwa [List.append_nil] at ht
  next op hcode =>
    obtain ⟨a, ha, hr⟩ := Outcome.bind_eq_ok_iff.mp hr
    cases hr
    rcases hrun : (Request.layout op).read.run payload with ⟨r, rest⟩
    rw [hrun] at ha
    obtain rfl : r = .ok a := ha
    obtain ⟨front, rfl, hw⟩ := (Request.exact_layout op).read_eq_ok hrun
    have hl := Request.lawful_layout op
    obtain ⟨whole, hwhole, hp⟩ : ∃ whole, (Request.layout op).write a = .ok whole ∧
        (whole = front ∨ rest.length < (Request.optionalField op).length ∧
          whole = front ++ Request.optionalField op) := by
      rcases hw with hw | ⟨hlt, hw⟩
      · exact ⟨_, hw, .inl rfl⟩
      · exact ⟨_, hw, .inr ⟨hlt, rfl⟩⟩
    have hfields : (Request.join op a).FieldsFit := (hl.writable a).mp ⟨whole, hwhole⟩
    have hframe : (Request.join op a).frameSize < UInt32.size := by
      rcases hp with rfl | ⟨hlt, -⟩
      · obtain ⟨hsize, -⟩ := split_eq_ok_iff.mp hs
        have hlt := h.size.toNat_lt_size
        rw [Request.frameSize, ← hl.length_eq hwhole]
        rw [hsize, List.length_append] at hlt
        omega
      · exact frameSize_lt_of_optional (List.ne_nil_of_length_pos (Nat.zero_lt_of_lt hlt)) hfields
    obtain ⟨out, hout⟩ := (Request.ofRequest_join_isOk_iff h.tag op a).mpr ⟨hfields, hframe⟩
    obtain ⟨whole', hwhole', hm⟩ := Request.ofRequest_join_eq_ok_iff.mp hout
    obtain rfl : whole = whole' := by
      rw [hwhole] at hwhole'
      exact Except.ok.inj hwhole'
    refine ⟨out, hout, Request.toRequest_of_ofRequest op a hout, ?_⟩
    rw [Operation.code_of_ofCode? hcode] at hm
    rw [optionalPart_join]
    exact says_of_split hs hm hp

theorem toRequest_header {r : Tagged Request} (hr : toRequest b = .ok r) :
    ∃ h, header b = .ok h ∧ r.tag = h.tag ∧ r.body.code = h.code := by
  obtain ⟨⟨h, payload⟩, hs, hr⟩ := Outcome.bind_eq_ok_iff.mp hr
  refine ⟨h, header_eq_ok_iff.mpr ⟨payload, hs⟩, ?_⟩
  simp only at hr
  split at hr
  next =>
    cases hr
    exact ⟨rfl, rfl⟩
  next op hop =>
    obtain ⟨a, -, hr⟩ := Outcome.bind_eq_ok_iff.mp hr
    cases hr
    exact ⟨rfl, by rw [Request.code_join, Operation.code_of_ofCode? hop]⟩

theorem fieldsFit_of_toRequest {r : Tagged Request} (hr : toRequest b = .ok r) :
    r.body.FieldsFit := by
  obtain ⟨out, hout, -⟩ := toRequest_says hr
  obtain ⟨tag, body⟩ := r
  rcases hs : body.split with code | ⟨op, a⟩
  · obtain rfl := Request.eq_unknown_of_split hs
    exact (Request.fits_unknown code).toFieldsFit
  · obtain rfl := Request.eq_join_of_split hs
    exact ((Request.ofRequest_join_isOk_iff tag op a).mp ⟨out, hout⟩).toFieldsFit

theorem toRequest_eq_error {e : WireError} (he : toRequest b = .error e) :
    e.OfField ∨ ∃ declared actual, e = .lengthMismatch declared actual := by
  unfold toRequest at he
  rcases hs : split b with e' | ⟨h, payload⟩
  · rw [hs] at he
    cases he
    exact split_eq_error hs
  · rw [hs] at he
    simp only [bind, Except.bind] at he
    split at he
    next => cases he
    next op _ =>
      rcases hrun : (Request.layout op).read.run payload with ⟨e' | a, rest⟩
      · rw [hrun] at he
        cases he
        exact .inl ((Request.exact_layout op).read_eq_error hrun)
      · rw [hrun] at he
        cases he

theorem toRequest_unknown (hh : header b = .ok h) (hcode : Operation.ofCode? h.code = none) :
    toRequest b = .ok ⟨h.tag, .unknown h.code⟩ := by
  obtain ⟨payload, hs⟩ := header_eq_ok_iff.mp hh
  rw [toRequest, hs]
  simp only [bind, Except.bind, hcode, pure, Except.pure]

/-! ## Replies -/

theorem toReply_says {r : Tagged Reply} (hr : toReply b = .ok r) :
    ∃ out, ofReply r = .ok out ∧ toReply out = .ok r ∧ Says [] b (out.drop 4) := by
  obtain ⟨⟨h, payload⟩, hs, hr⟩ := Outcome.bind_eq_ok_iff.mp hr
  obtain ⟨hsize, -⟩ := split_eq_ok_iff.mp hs
  have hlt := h.size.toNat_lt_size
  simp only at hr
  split_ifs at hr with hcode
  · obtain ⟨code, hc, hr⟩ := Outcome.bind_eq_ok_iff.mp hr
    cases hr
    rcases hrun : u32.read.run payload with ⟨r, rest⟩
    rw [hrun] at hc
    obtain rfl : r = .ok code := hc
    obtain ⟨front, rfl, hw⟩ := exact_u32.front hrun
    obtain rfl : Bytes.ofU32 code = front := Except.ok.inj hw
    obtain ⟨out, hm⟩ : ∃ out, make h.code h.tag (Bytes.ofU32 code) = .ok out :=
      ⟨_, make_eq_ok_iff.mpr ⟨by rw [Bytes.length_ofU32]; decide, rfl⟩⟩
    have hout := hm
    rw [hcode] at hout
    have ht := Reply.toReply_make_error hout []
    rw [List.append_nil] at ht
    exact ⟨out, hout, ht, says_of_split hs hm (.inl rfl)⟩
  · split at hr
    next => cases hr
    next op hop =>
      obtain ⟨a, ha, hr⟩ := Outcome.bind_eq_ok_iff.mp hr
      cases hr
      rcases hrun : (Reply.layout op).read.run payload with ⟨r, rest⟩
      rw [hrun] at ha
      obtain rfl : r = .ok a := ha
      obtain ⟨front, rfl, hw⟩ := (Reply.exact_layout op).front hrun
      rw [List.length_append] at hsize
      have hm : ∃ out, make op.replyCode h.tag front = .ok out :=
        ⟨_, make_eq_ok_iff.mpr ⟨by omega, rfl⟩⟩
      obtain ⟨out, hm⟩ := hm
      have ht := Reply.toReply_make hw hm []
      rw [List.append_nil] at ht
      refine ⟨out, Reply.ofReply_join_eq_ok_iff.mpr ⟨front, hw, hm⟩, ht, ?_⟩
      rw [Operation.replyCode_of_ofReplyCode? hop] at hm
      exact says_of_split hs hm (.inl rfl)

/-! ## All frames -/

/-- **Whatever is read can be written again, and is written in one form.** All frames of a message
say what that form says, or leave out the optional field at its end. No more of a frame is looked at
than its size counts. A frame with a header always is a request if its code is that of none. -/
theorem decoded_canonical :
    (∀ r, (∃ b, toRequest b = .ok r) → ∃ out, ofRequest r = .ok out ∧ toRequest out = .ok r ∧
      ∀ b, toRequest b = .ok r → Says (optionalPart r.body) b (out.drop 4)) ∧
    (∀ r, (∃ b, toReply b = .ok r) → ∃ out, ofReply r = .ok out ∧ toReply out = .ok r ∧
      ∀ b, toReply b = .ok r → Says [] b (out.drop 4)) ∧
    (∀ b h t, header b = .ok h → toRequest (b.take h.size.toNat ++ t) = toRequest b ∧
      toReply (b.take h.size.toNat ++ t) = toReply b) ∧
    (∀ b, (∀ code, toRequest b ≠ .error (.unsupported code)) ∧
      ∀ n, toRequest b ≠ .error (.tooLong n)) ∧
    ∀ b h, header b = .ok h → Operation.ofCode? h.code = none →
      toRequest b = .ok ⟨h.tag, .unknown h.code⟩ := by
  refine ⟨fun r hr => ?_, fun r hr => ?_, fun b h t hh => ?_, fun b => ?_, fun b h => ?_⟩
  · obtain ⟨b, hb⟩ := hr
    obtain ⟨out, hout, ht, -⟩ := toRequest_says hb
    refine ⟨out, hout, ht, fun b' hb' => ?_⟩
    obtain ⟨out', hout', -, hsays⟩ := toRequest_says hb'
    rw [hout] at hout'
    cases hout'
    exact hsays
  · obtain ⟨b, hb⟩ := hr
    obtain ⟨out, hout, ht, -⟩ := toReply_says hb
    refine ⟨out, hout, ht, fun b' hb' => ?_⟩
    obtain ⟨out', hout', -, hsays⟩ := toReply_says hb'
    rw [hout] at hout'
    cases hout'
    exact hsays
  · obtain ⟨payload, hs⟩ := header_eq_ok_iff.mp hh
    rw [toRequest, toRequest, toReply, toReply, split_take hs, hs]
    exact ⟨rfl, rfl⟩
  · have hcause : ∀ e, toRequest b = .error e →
        (∀ code, e ≠ .unsupported code) ∧ ∀ n, e ≠ .tooLong n := by
      intro e he
      rcases toRequest_eq_error he with (rfl | rfl | rfl) | ⟨_, _, rfl⟩ <;> simp
    exact ⟨fun code he => (hcause _ he).1 code rfl, fun n he => (hcause _ he).2 n rfl⟩
  · exact toRequest_unknown

end Frame

end GuestShare
