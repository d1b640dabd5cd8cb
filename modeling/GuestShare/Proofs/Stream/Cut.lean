import GuestShare.Proofs.Wire.Canonical
import GuestShare.Stream.Source

/-!
# Where a stream is cut

What a stream hands out does not depend on how long its chunks are or how often it has to be asked
again. Its frames are the longest run of whole frames that its bytes begin with, and what is behind
them tells how it ends.

* `Source.bytes`, `Source.failure?`: what a stream hands out until it fails, and the failure.
* `Frame.Whole`: frames of a size that a stream may have.
* `Cut`: bytes cut into whole frames, as many as there are, and a rest.
* `ending`: what it means that a stream ends with some bytes that are no frame.
* **`Source.fill_cases`**, **`Source.next_cases`**: what comes of asking for bytes, or for a frame.
* **`Source.cut_frames`**: the frames of a stream.
-/

namespace GuestShare

/-! ## Whole frames -/

namespace Frame

/-- The size that these bytes begin with is one that no frame from a stream may have. -/
def OutOfRange (b : Bytes) : Prop :=
  declaredSize b < headerSize ∨ maxFrameSize.toNat < declaredSize b

instance (b : Bytes) : Decidable (OutOfRange b) := inferInstanceAs (Decidable (_ ∨ _))

/-- A frame of its own size, as a stream may have it. -/
structure Whole (b : Bytes) : Prop where
  size : b.length = declaredSize b
  inRange : ¬ OutOfRange b

variable {b c x y : Bytes}

theorem declaredSize_append (hb : sizeWidth ≤ b.length) :
    declaredSize (b ++ x) = declaredSize b := by
  unfold declaredSize
  rw [List.take_append_of_le_length (show 4 ≤ b.length from hb)]

theorem Whole.width_le (hb : Whole b) : sizeWidth ≤ b.length := by
  have hs := hb.size
  have hr := hb.inRange
  unfold OutOfRange headerSize at hr
  unfold sizeWidth
  omega

theorem Whole.front (hb : Whole b) :
    sizeWidth ≤ (b ++ x).length ∧ ¬ OutOfRange (b ++ x) ∧
      declaredSize (b ++ x) ≤ (b ++ x).length := by
  have hsize := declaredSize_append (x := x) hb.width_le
  have hwidth := hb.width_le
  have hlen := hb.size
  refine ⟨by rw [List.length_append]; omega, ?_, by rw [hsize, List.length_append]; omega⟩
  unfold OutOfRange
  rw [hsize]
  exact hb.inRange

theorem whole_take (hr : ¬ OutOfRange b) (hb : declaredSize b ≤ b.length) :
    Whole (b.take (declaredSize b)) := by
  have hsize : declaredSize (b.take (declaredSize b)) = declaredSize b := by
    have hle : 4 ≤ declaredSize b := by
      unfold OutOfRange headerSize at hr
      omega
    unfold declaredSize at hle ⊢
    rw [List.take_take, Nat.min_eq_left hle]
  refine ⟨by rw [hsize, List.length_take, Nat.min_eq_left hb], ?_⟩
  unfold OutOfRange
  rw [hsize]
  exact hr

theorem Whole.eq_of_append (hb : Whole b) (hc : Whole c) (he : b ++ x = c ++ y) :
    b = c ∧ x = y := by
  refine List.append_inj he ?_
  rw [hb.size, hc.size, ← declaredSize_append (x := x) hb.width_le, he,
    declaredSize_append hc.width_le]

end Frame

/-- Bytes begin with these whole frames, and with no others unless there are fewer of them. -/
structure Cut (bytes : Bytes) (frames : List Bytes) (rest : Bytes) : Prop where
  whole : ∀ frame ∈ frames, Frame.Whole frame
  eq_append : bytes = frames.flatten ++ rest
  longest : ∀ frames' rest', (∀ frame ∈ frames', Frame.Whole frame) →
    bytes = frames'.flatten ++ rest' → frames' <+: frames

section Cut

variable {bytes rest frame : Bytes} {frames : List Bytes}

theorem Cut.nil (hno : ∀ frame rest, Frame.Whole frame → bytes ≠ frame ++ rest) :
    Cut bytes [] bytes := by
  refine ⟨fun _ hf => absurd hf List.not_mem_nil, rfl, fun frames' rest' hwhole he => ?_⟩
  cases frames' with
  | nil => exact List.prefix_rfl
  | cons frame frames' =>
    rw [List.flatten_cons, List.append_assoc] at he
    exact absurd he (hno frame _ (hwhole frame List.mem_cons_self))

theorem Cut.cons (hf : Frame.Whole frame) (hc : Cut bytes frames rest) :
    Cut (frame ++ bytes) (frame :: frames) rest := by
  refine ⟨List.forall_mem_cons.mpr ⟨hf, hc.whole⟩, ?_, fun frames' rest' hwhole he => ?_⟩
  · rw [List.flatten_cons, List.append_assoc, ← hc.eq_append]
  · cases frames' with
    | nil => exact List.nil_prefix
    | cons frame' frames' =>
      obtain ⟨hframe', hwhole'⟩ := List.forall_mem_cons.mp hwhole
      rw [List.flatten_cons, List.append_assoc] at he
      obtain ⟨rfl, hbytes⟩ := hf.eq_of_append hframe' he
      exact (List.prefix_cons_inj frame).mpr (hc.longest frames' rest' hwhole' hbytes)

theorem Cut.unique {frames' : List Bytes} {rest' : Bytes} (hc : Cut bytes frames rest)
    (hc' : Cut bytes frames' rest') : frames = frames' ∧ rest = rest' := by
  have hframes : frames = frames' :=
    List.IsPrefix.eq_of_length_le (hc'.longest _ _ hc.whole hc.eq_append)
      (hc.longest _ _ hc'.whole hc'.eq_append).length_le
  subst hframes
  exact ⟨rfl, List.append_cancel_left (hc.eq_append.symm.trans hc'.eq_append)⟩

end Cut

/-- What it means that a stream ends with these bytes, which are no whole frame, or fails behind
them. -/
def ending (rest : Bytes) (failure : Option StreamFailure) : Option StreamError :=
  if sizeWidth ≤ rest.length ∧ Frame.OutOfRange rest then
    some (.sizeOutOfRange (Bytes.toU32 (rest.take sizeWidth)))
  else
    match failure with
    | some f => some (.failed f)
    | none => if rest = [] then none else some .unexpectedEnd

theorem ending_of_outOfRange {rest : Bytes} {failure : Option StreamFailure}
    (hw : sizeWidth ≤ rest.length) (hr : Frame.OutOfRange rest) :
    ending rest failure = some (.sizeOutOfRange (Bytes.toU32 (rest.take sizeWidth))) :=
  if_pos ⟨hw, hr⟩

theorem ending_of_short {rest : Bytes} {failure : Option StreamFailure}
    (hr : ¬ (sizeWidth ≤ rest.length ∧ Frame.OutOfRange rest)) :
    ending rest failure = match failure with
      | some f => some (.failed f)
      | none => if rest = [] then none else some .unexpectedEnd := if_neg hr

namespace Source

/-- What a stream hands out until it fails. -/
def bytes : Source → Bytes
  | [] => []
  | .data bs :: rest => bs ++ bytes rest
  | .fail .interrupted :: rest => bytes rest
  | .fail _ :: _ => []

/-- How a stream fails, if it does. -/
def failure? : Source → Option StreamFailure
  | [] => none
  | .data _ :: rest => failure? rest
  | .fail .interrupted :: rest => failure? rest
  | .fail f :: _ => some f

variable {source : Source} {n : Nat} {got : Bytes}

/-- **What comes of asking for bytes** depends on how many there are, and else on how the stream
ends. -/
theorem fill_cases (source : Source) (n : Nat) (got : Bytes) :
    (n ≤ source.bytes.length ∧ ∃ rest, fill n got source =
        .complete (got ++ source.bytes.take n) rest ∧ rest.bytes = source.bytes.drop n ∧
          rest.failure? = source.failure?) ∨
      (source.bytes.length < n ∧ fill n got source =
        match source.failure? with
        | some f => .failed f
        | none => .ended !(got ++ source.bytes).isEmpty) := by
  induction source generalizing n got with
  | nil =>
    rw [fill]
    by_cases hn : n = 0
    · refine .inl ⟨by omega, [], ?_, by simp [bytes], rfl⟩
      rw [if_pos hn, bytes, List.take_nil, List.append_nil]
    · refine .inr ⟨by rw [bytes, List.length_nil]; omega, ?_⟩
      rw [if_neg hn, failure?, bytes, List.append_nil]
  | cons chunk source ih =>
    cases chunk with
    | data bs =>
      rw [fill, List.splitAt_eq, bytes, failure?, List.length_append]
      simp only [List.length_take]
      by_cases hn : n ≤ bs.length
      · refine .inl ⟨by omega, .data (bs.drop n) :: source, ?_, ?_, rfl⟩
        · rw [if_pos (by omega), List.take_append_of_le_length hn]
        · rw [bytes, List.drop_append_of_le_length hn]
      · have htake : bs.take n = bs := List.take_of_length_le (by omega)
        have hdrop : bs.drop n = [] := List.drop_of_length_le (by omega)
        have hmin : n - min n bs.length = n - bs.length := by omega
        rw [if_neg (by omega), htake, hmin]
        obtain ⟨hle, rest, hfill, hbytes, hfail⟩ | ⟨hlt, hfill⟩ := ih (n - bs.length) (got ++ bs)
        · refine .inl ⟨by omega, rest, ?_, ?_, hfail⟩
          · rw [hfill, List.append_assoc, List.take_append, htake]
          · rw [hbytes, List.drop_append, hdrop, List.nil_append]
        · refine .inr ⟨by omega, ?_⟩
          rw [hfill, List.append_assoc]
    | fail f =>
      rw [fill]
      by_cases hn : n = 0
      · refine .inl ⟨by omega, .fail f :: source, ?_, ?_, rfl⟩
        · rw [if_pos hn, hn, List.take_zero, List.append_nil]
        · rw [hn, List.drop_zero]
      · rw [if_neg hn]
        by_cases hf : f = .interrupted
        · rw [if_pos hf, hf, bytes, failure?]
          exact ih n got
        · rw [if_neg hf]
          refine .inr ?_
          cases f with
          | interrupted => exact absurd rfl hf
          | _ =>
            rw [bytes, failure?]
            · exact ⟨by rw [List.length_nil]; omega, rfl⟩
            all_goals simp

/-- **What comes of asking for a frame**: the whole frame that the bytes begin with, or the end. -/
theorem next_cases (source : Source) :
    (∃ frame rest, Frame.Whole frame ∧ source.next = .frame frame rest ∧
        source.bytes = frame ++ rest.bytes ∧ rest.failure? = source.failure?) ∨
      ((∀ frame rest, Frame.Whole frame → source.bytes ≠ frame ++ rest) ∧
        source.next = match ending source.bytes source.failure? with
          | some e => .failed e
          | none => .closed) := by
  unfold next
  obtain ⟨hle, rest, hhead, hrest, hfail⟩ | ⟨hlt, hhead⟩ := source.fill_cases sizeWidth []
  · rw [List.nil_append] at hhead
    have hsize : (Bytes.toU32 (source.bytes.take sizeWidth)).toNat =
        Frame.declaredSize source.bytes := Frame.toNat_toU32_take hle
    have hcond : ((Bytes.toU32 (source.bytes.take sizeWidth)).toNat < headerSize ||
        maxFrameSize < Bytes.toU32 (source.bytes.take sizeWidth)) = true ↔
          Frame.OutOfRange source.bytes := by
      rw [Bool.or_eq_true, decide_eq_true_eq, decide_eq_true_eq, UInt32.lt_iff_toNat_lt, hsize]
      rfl
    simp only [hhead, hcond]
    by_cases hr : Frame.OutOfRange source.bytes
    · refine .inr ⟨fun frame tail hw he => ?_, ?_⟩
      · exact (he ▸ hw.front (x := tail)).2.1 hr
      · rw [if_pos hr, ending_of_outOfRange hle hr]
    · have hlow : sizeWidth ≤ Frame.declaredSize source.bytes := by
        unfold Frame.OutOfRange headerSize at hr
        unfold sizeWidth
        omega
      have hlen : rest.bytes.length = source.bytes.length - sizeWidth := by
        rw [hrest, List.length_drop]
      rw [if_neg hr, hsize]
      obtain ⟨hmore, rest', hbody, hrest', hfail'⟩ | ⟨hless, hbody⟩ :=
        rest.fill_cases (Frame.declaredSize source.bytes - sizeWidth)
          (source.bytes.take sizeWidth)
      · have hframe : source.bytes.take sizeWidth ++
            rest.bytes.take (Frame.declaredSize source.bytes - sizeWidth) =
              source.bytes.take (Frame.declaredSize source.bytes) := by
          rw [hrest, ← List.take_add, Nat.add_sub_cancel' hlow]
        rw [hframe] at hbody
        refine .inl ⟨_, rest', Frame.whole_take hr (by omega), by rw [hbody], ?_,
          hfail'.trans hfail⟩
        rw [hrest', hrest, List.drop_drop, Nat.add_sub_cancel' hlow, List.take_append_drop]
      · refine .inr ⟨fun frame tail hw he => ?_, ?_⟩
        · have := (he ▸ hw.front (x := tail)).2.2
          omega
        · rw [ending_of_short fun h => hr h.2, hbody, hfail]
          cases source.failure? with
          | some f => rfl
          | none =>
            have hne : source.bytes ≠ [] := by
              intro hnil
              rw [hnil] at hle
              exact absurd hle (by decide)
            rw [if_neg hne]
  · rw [List.nil_append] at hhead
    refine .inr ⟨fun frame tail hw he => ?_, ?_⟩
    · have := (hw.front (x := tail)).1
      rw [← he] at this
      omega
    · rw [ending_of_short fun h => absurd h.1 (by omega), hhead]
      cases source.failure? with
      | some f => rfl
      | none => cases source.bytes <;> rfl

/-- **The frames of a stream** are the longest run of whole frames that it begins with. -/
theorem cut_frames (source : Source) :
    ∃ rest, Cut source.bytes source.frames.1 rest ∧
      source.frames.2 = ending rest source.failure? := by
  fun_induction frames source with
  | case1 source hn =>
    obtain ⟨frame, rest, -, hnext, -⟩ | ⟨hno, hnext⟩ := source.next_cases
    · cases hn.symm.trans hnext
    · refine ⟨_, .nil hno, ?_⟩
      cases he : ending source.bytes source.failure? with
      | none => rfl
      | some e =>
        rw [he, hn] at hnext
        cases hnext
  | case2 source e hn =>
    obtain ⟨frame, rest, -, hnext, -⟩ | ⟨hno, hnext⟩ := source.next_cases
    · cases hn.symm.trans hnext
    · refine ⟨_, .nil hno, ?_⟩
      cases he : ending source.bytes source.failure? with
      | none =>
        rw [he, hn] at hnext
        cases hnext
      | some e' =>
        rw [he, hn] at hnext
        cases hnext
        rfl
  | case3 source frame rest hn more ending hmore ih =>
    obtain ⟨frame', rest', hwhole, hnext, hbytes, hfail⟩ | ⟨-, hnext⟩ := source.next_cases
    · cases hn.symm.trans hnext
      obtain ⟨tail, hcut, hend⟩ := ih
      rw [hmore] at hcut hend
      refine ⟨tail, ?_, hfail ▸ hend⟩
      rw [hbytes]
      exact hcut.cons hwhole
    · rw [hn] at hnext
      split at hnext <;> cases hnext

end Source

end GuestShare
