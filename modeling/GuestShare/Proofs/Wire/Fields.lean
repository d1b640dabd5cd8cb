import GuestShare.Proofs.Wire.Exact
import GuestShare.Wire.Field

/-!
# Fields one after another

Fields are written behind one another and read again by their kinds. The reads of one buffer need
not fit what was written: each begins where the one before has left off, and one that fails leaves
off behind those parts of its field that it has read in full.

* `Field.Fits`, `Field.Writes`: which fields can be written, and what a sequence of writes does.
* `Kind.FailsBehind`: what a failed read has read in full, and why it went no further.
* `Kind.Moves`, `Kind.Reads`: what a read does with the cursor in a buffer, and what a sequence of
  reads does.
* `Reader.takeBehind`: bytes taken behind a cursor of 64 bits.
* **`read_write`**, **`read_eq_ok`**, **`read_eq_error`**: one field.
* **`fields_roundTrip`**: sequences of fields.
-/

namespace GuestShare

namespace Reader

/-- Where `n` bytes behind `p` end, if 64 bits count it. -/
def stop? (p n : UInt64) : Option UInt64 :=
  if p.toNat + n.toNat < UInt64.size then some (p + n) else none

/-- What taking `n` bytes behind `p` gives if the cursor has 64 bits. -/
def takeBehind (data : Bytes) (p n : UInt64) : Except WireError Bytes × Bytes :=
  match stop? p n with
  | none => (.error .truncated, data.drop p.toNat)
  | some q =>
    if data.length < q.toNat then (.error .truncated, data.drop p.toNat)
    else (.ok (data.extract p.toNat q.toNat), data.drop q.toNat)

end Reader

namespace Field

open Layout

/-- A text has at most 65535 bytes and a blob at most 4294967295. Other fields can always be
written. -/
def Fits : Field → Prop
  | .text s => (Bytes.ofText s).length ≤ 65535
  | .blob bs => bs.length ≤ 4294967295
  | _ => True

instance : DecidablePred Fits
  | .text s => inferInstanceAs (Decidable ((Bytes.ofText s).length ≤ 65535))
  | .blob bs => inferInstanceAs (Decidable (bs.length ≤ 4294967295))
  | .u8 _ | .u16 _ | .u32 _ | .u64 _ | .qid _ | .bytes _ => inferInstanceAs (Decidable True)

/-- The bytes after the last of some steps that began with `bs`. -/
def bytesAfter {α : Type} (bs : Bytes) : List (α × Bytes) → Bytes
  | [] => bs
  | (_, rest) :: steps => bytesAfter rest steps

/-- The fields of a sequence that can be written. -/
def fitting (fs : List Field) : List Field := fs.filter (Fits ·)

/-- What is written of a sequence of fields. -/
def written (fs : List Field) : Bytes := bytesAfter [] (appendAll [] fs)

/-- What becomes of `out` when fields are written behind it one after another. A field that fits is
added, and one that does not leaves the bytes as they are. -/
inductive Writes : Bytes → List Field → List (Except WireError Unit × Bytes) → Prop
  | nil (out : Bytes) : Writes out [] []
  | field {out bs : Bytes} {f : Field} {fs : List Field} {steps} (hf : f.Fits)
      (hw : f.write = .ok bs) (h : Writes (out ++ bs) fs steps) :
      Writes out (f :: fs) ((.ok (), out ++ bs) :: steps)
  | longText {out : Bytes} {s : String} {fs : List Field} {steps}
      (hs : 65535 < (Bytes.ofText s).length) (h : Writes out fs steps) :
      Writes out (.text s :: fs) ((.error (.tooLong (Bytes.ofText s).length), out) :: steps)
  | longBlob {out bs : Bytes} {fs : List Field} {steps} (hb : 4294967295 < bs.length)
      (h : Writes out fs steps) :
      Writes out (.blob bs :: fs) ((.error (.tooLong bs.length), out) :: steps)

namespace Kind

/-- The bytes of the first part of a field. -/
def firstSize : Kind → Nat
  | .u8 | .qid => 1
  | .u16 | .text => 2
  | .u32 | .blob => 4
  | .u64 => 8
  | .bytes n => n

/-- A read of this kind has read the parts in full and fails with `rest` before it: the next part
has more bytes than that, or the bytes of a text are there and are none of a text. -/
inductive FailsBehind : (k : Kind) → (parts : List Field) → WireError → (rest : Bytes) → Prop
  | first {k : Kind} {rest : Bytes} (h : rest.length < k.firstSize) :
      FailsBehind k [] .truncated rest
  | textLength {n : UInt16} {rest : Bytes} (h : rest.length < n.toNat) :
      FailsBehind .text [.u16 n] .truncated rest
  | textBytes {n : UInt16} {bs rest : Bytes} (hn : bs.length = n.toNat)
      (hbs : Bytes.toText? bs = none) : FailsBehind .text [.u16 n, .bytes bs] .invalidText rest
  | qidKind {kind : UInt8} {rest : Bytes} (h : rest.length < 4) :
      FailsBehind .qid [.u8 kind] .truncated rest
  | qidVersion {kind : UInt8} {version : UInt32} {rest : Bytes} (h : rest.length < 8) :
      FailsBehind .qid [.u8 kind, .u32 version] .truncated rest
  | blobLength {n : UInt32} {rest : Bytes} (h : rest.length < n.toNat) :
      FailsBehind .blob [.u32 n] .truncated rest

/-- A read of this kind moves the cursor in `data` from `p` to `q`. It gives the field that the
bytes between them are, or it fails and they are the parts that it has read in full. -/
structure Moves (data : Bytes) (k : Kind) (p q : Nat) (result : Except WireError Field) : Prop where
  forward : p ≤ q
  inside : q ≤ data.length
  value : ∀ f, result = .ok f → f.kind = k ∧ f.write = .ok (data.extract p q) ∧
    k.read.run (data.extract p q) = (.ok f, [])
  parts : ∀ e, result = .error e →
    ∃ parts, k.FailsBehind parts e (data.drop q) ∧ data.extract p q = written parts

/-- What reads of `data` do one after another, the first one from `p` on. -/
inductive Reads (data : Bytes) :
    Nat → List Kind → List (Except WireError Field × Bytes) → Prop
  | nil (p : Nat) : Reads data p [] []
  | cons {p q : Nat} {k : Kind} {ks : List Kind} {result : Except WireError Field} {steps}
      (hm : k.Moves data p q result) (h : Reads data q ks steps) :
      Reads data p (k :: ks) ((result, data.drop q) :: steps)

end Kind

variable {f : Field} {fs : List Field} {k : Kind} {ks : List Kind} {e : WireError} {α : Type}
  {bs out rest data : Bytes}

/-! ## Writing -/

theorem write_isOk_iff : (∃ bs, f.write = .ok bs) ↔ f.Fits := by
  cases f with
  | u8 x => exact lawful_u8.writable x
  | u16 x => exact lawful_u16.writable x
  | u32 x => exact lawful_u32.writable x
  | u64 x => exact lawful_u64.writable x
  | text s => exact lawful_text.writable s
  | qid q => exact lawful_qid.writable q
  | blob bs => exact (lawful_blob.writable bs).trans Nat.lt_succ_iff
  | bytes bs => exact ⟨fun _ => trivial, fun _ => ⟨bs, rfl⟩⟩

theorem fitting_cons_of_fits (hf : f.Fits) : fitting (f :: fs) = f :: fitting fs := by
  simp [fitting, hf]

theorem fitting_cons_of_not_fits (hf : ¬ f.Fits) : fitting (f :: fs) = fitting fs := by
  simp [fitting, hf]

theorem append_of_write (hw : f.write = .ok bs) : append out f = (.ok (), out ++ bs) := by
  rw [append, hw]

theorem append_of_longText {s : String} (hs : 65535 < (Bytes.ofText s).length) :
    append out (.text s) = (.error (.tooLong (Bytes.ofText s).length), out) := by
  have hw : (Field.text s).write = .error (.tooLong (Bytes.ofText s).length) :=
    if_neg (Nat.not_lt.mpr hs)
  rw [append, hw]

theorem append_of_longBlob (hb : 4294967295 < bs.length) :
    append out (.blob bs) = (.error (.tooLong bs.length), out) := by
  have hw : (Field.blob bs).write = .error (.tooLong bs.length) := if_neg (Nat.not_lt.mpr hb)
  rw [append, hw]

/-- **What a sequence of writes does.** -/
theorem writes_appendAll : Writes out fs (appendAll out fs) := by
  induction fs generalizing out with
  | nil => exact .nil out
  | cons f fs ih =>
    rw [appendAll]
    by_cases hf : f.Fits
    · obtain ⟨bs, hw⟩ := write_isOk_iff.mpr hf
      rw [append_of_write hw]
      exact .field hf hw ih
    · cases f with
      | text s =>
        have hs := Nat.not_le.mp hf
        rw [append_of_longText hs]
        exact .longText hs ih
      | blob bs =>
        have hb := Nat.not_le.mp hf
        rw [append_of_longBlob hb]
        exact .longBlob hb ih
      | _ => exact absurd trivial hf

theorem bytesAfter_appendAll : bytesAfter out (appendAll out fs) = out ++ written fs := by
  unfold written
  induction fs generalizing out with
  | nil => simp [appendAll, bytesAfter]
  | cons f fs ih =>
    have hstep : (append out f).2 = out ++ (append [] f).2 := by
      unfold append
      cases f.write <;> simp
    simp only [appendAll, bytesAfter]
    rw [ih, @ih (append [] f).2, hstep, List.append_assoc]

theorem written_cons : written (f :: fs) = (append [] f).2 ++ written fs := by
  rw [written, appendAll, bytesAfter, bytesAfter_appendAll]

theorem written_cons_of_write (hw : f.write = .ok bs) : written (f :: fs) = bs ++ written fs := by
  rw [written_cons, append_of_write hw, List.nil_append]

theorem written_cons_of_not_fits (hf : ¬ f.Fits) : written (f :: fs) = written fs := by
  have hw : ∀ bs, f.write ≠ .ok bs := fun bs h => hf (write_isOk_iff.mp ⟨bs, h⟩)
  rw [written_cons, append]
  cases h : f.write with
  | error e => rfl
  | ok bs => exact absurd h (hw bs)

theorem written_singleton (hw : f.write = .ok bs) : written [f] = bs := by
  rw [written_cons_of_write hw]
  exact List.append_nil bs

theorem written_pair {g : Field} {cs : Bytes} (hf : f.write = .ok bs) (hg : g.write = .ok cs) :
    written [f, g] = bs ++ cs := by
  rw [written_cons_of_write hf, written_singleton hg]

/-! ## Reading one field -/

theorem run_map_write {l : Layout α} {F : α → Prop} {size : α → Nat} (hl : l.Lawful F size)
    {make : α → Field} {a : α} (hw : l.write a = .ok bs) (t : Bytes) :
    (make <$> l.read).run (bs ++ t) = (.ok (make a), t) := by
  rw [Reader.run_map, hl.read_write hw t]

/-- **A field that was written is read by its kind, whatever follows it.** -/
theorem read_write (hw : f.write = .ok bs) (t : Bytes) :
    f.kind.read.run (bs ++ t) = (.ok f, t) := by
  cases f with
  | u8 x => exact run_map_write lawful_u8 hw t
  | u16 x => exact run_map_write lawful_u16 hw t
  | u32 x => exact run_map_write lawful_u32 hw t
  | u64 x => exact run_map_write lawful_u64 hw t
  | text s => exact run_map_write lawful_text hw t
  | qid q => exact run_map_write lawful_qid hw t
  | blob data => exact run_map_write lawful_blob hw t
  | bytes data =>
    cases hw
    change (Field.bytes <$> Reader.take bs.length).run (bs ++ t) = _
    rw [Reader.run_map, run_take_append rfl t]

theorem of_run_map {l : Layout α} (hl : l.Exact []) {make : α → Field}
    (hk : ∀ a, (make a).kind = k) (hw : ∀ a, (make a).write = l.write a)
    (h : (make <$> l.read).run bs = (.ok f, rest)) :
    ∃ front, bs = front ++ rest ∧ f.kind = k ∧ f.write = .ok front := by
  obtain ⟨a, ha, rfl⟩ := Reader.run_map_eq_ok_iff.mp h
  obtain ⟨front, rfl, hfront⟩ := hl.front ha
  exact ⟨front, rfl, hk a, (hw a).trans hfront⟩

/-- **A field is read from its own writing only.** -/
theorem read_eq_ok (h : k.read.run bs = (.ok f, rest)) :
    ∃ front, bs = front ++ rest ∧ f.kind = k ∧ f.write = .ok front := by
  cases k with
  | u8 => exact of_run_map exact_u8 (fun _ => rfl) (fun _ => rfl) h
  | u16 => exact of_run_map exact_u16 (fun _ => rfl) (fun _ => rfl) h
  | u32 => exact of_run_map exact_u32 (fun _ => rfl) (fun _ => rfl) h
  | u64 => exact of_run_map exact_u64 (fun _ => rfl) (fun _ => rfl) h
  | text => exact of_run_map exact_text (fun _ => rfl) (fun _ => rfl) h
  | qid => exact of_run_map exact_qid (fun _ => rfl) (fun _ => rfl) h
  | blob => exact of_run_map exact_blob (fun _ => rfl) (fun _ => rfl) h
  | bytes n =>
    obtain ⟨front, hfront, rfl⟩ := Reader.run_map_eq_ok_iff.mp h
    obtain ⟨rfl, rfl⟩ := Reader.run_take_eq_ok_iff.mp hfront
    exact ⟨front, rfl, rfl, rfl⟩

/-- A word is there in full, or nothing of it is read. -/
theorem word_eq_error {n : Nat} {make : Bytes → α}
    (h : (do return make (← Reader.take n) : Reader α).run bs = (.error e, rest)) :
    e = .truncated ∧ rest = bs ∧ bs.length < n := by
  rcases Reader.run_bind_eq_error h with he | ⟨front, mid, -, he⟩
  · exact Reader.run_take_eq_error_iff.mp he
  · cases he

theorem u8_eq_error (h : Reader.u8.run bs = (.error e, rest)) :
    e = .truncated ∧ rest = bs ∧ bs.length < 1 := by
  cases bs with
  | nil =>
    cases h
    exact ⟨rfl, rfl, Nat.zero_lt_one⟩
  | cons b bs => cases h

theorem text_eq_error (h : Reader.text.run bs = (.error e, rest)) :
    ∃ parts, bs = written parts ++ rest ∧ Kind.text.FailsBehind parts e rest := by
  rcases Reader.run_bind_eq_error h with he | ⟨n, mid, hn, hbytes⟩
  · obtain ⟨rfl, rfl, hlt⟩ := word_eq_error he
    exact ⟨[], rfl, .first hlt⟩
  · obtain ⟨front, rfl, hfront⟩ := exact_u16.front hn
    rcases Reader.run_bind_eq_error hbytes with he | ⟨field, mid', hfield, hs⟩
    · obtain ⟨rfl, rfl, hlt⟩ := Reader.run_take_eq_error_iff.mp he
      exact ⟨[.u16 n], by rw [written_singleton (f := .u16 n) hfront], .textLength hlt⟩
    · obtain ⟨rfl, hlen⟩ := Reader.run_take_eq_ok_iff.mp hfield
      split at hs
      next => cases hs
      next hnone =>
        cases hs
        refine ⟨[.u16 n, .bytes field], ?_, .textBytes hlen hnone⟩
        rw [written_pair (f := .u16 n) hfront rfl, List.append_assoc]

theorem qid_eq_error (h : Qid.layout.read.run bs = (.error e, rest)) :
    ∃ parts, bs = written parts ++ rest ∧ Kind.qid.FailsBehind parts e rest := by
  rcases Reader.run_bind_eq_error (Reader.run_map_eq_error_iff.mp h) with
    he | ⟨kind, mid, hkind, hpair⟩
  · obtain ⟨rfl, rfl, hlt⟩ := u8_eq_error he
    exact ⟨[], rfl, .first hlt⟩
  · obtain ⟨front, rfl, hfront⟩ := exact_u8.front hkind
    rcases Reader.run_bind_eq_error hpair with hlast | ⟨_, _, -, hdone⟩
    · rcases Reader.run_bind_eq_error hlast with he | ⟨version, mid', hversion, hnumber⟩
      · obtain ⟨rfl, rfl, hlt⟩ := word_eq_error he
        exact ⟨[.u8 kind], by rw [written_singleton (f := .u8 kind) hfront], .qidKind hlt⟩
      · obtain ⟨front', rfl, hfront'⟩ := exact_u32.front hversion
        rcases Reader.run_bind_eq_error hnumber with he | ⟨_, _, -, hdone⟩
        · obtain ⟨rfl, rfl, hlt⟩ := word_eq_error he
          refine ⟨[.u8 kind, .u32 version], ?_, .qidVersion hlt⟩
          rw [written_pair (f := .u8 kind) (g := .u32 version) hfront hfront', List.append_assoc]
        · cases hdone
    · cases hdone

theorem blob_eq_error (h : Reader.blob.run bs = (.error e, rest)) :
    ∃ parts, bs = written parts ++ rest ∧ Kind.blob.FailsBehind parts e rest := by
  rcases Reader.run_bind_eq_error h with he | ⟨n, mid, hn, hdata⟩
  · obtain ⟨rfl, rfl, hlt⟩ := word_eq_error he
    exact ⟨[], rfl, .first hlt⟩
  · obtain ⟨front, rfl, hfront⟩ := exact_u32.front hn
    obtain ⟨rfl, rfl, hlt⟩ := Reader.run_take_eq_error_iff.mp hdata
    exact ⟨[.u32 n], by rw [written_singleton (f := .u32 n) hfront], .blobLength hlt⟩

theorem failsBehind_first (h : e = .truncated ∧ rest = bs ∧ bs.length < k.firstSize) :
    ∃ parts, bs = written parts ++ rest ∧ k.FailsBehind parts e rest := by
  obtain ⟨rfl, rfl, hlt⟩ := h
  exact ⟨[], rfl, .first hlt⟩

/-- **A read that fails has read nothing but the parts before the one that is not there.** -/
theorem read_eq_error (h : k.read.run bs = (.error e, rest)) :
    ∃ parts, bs = written parts ++ rest ∧ k.FailsBehind parts e rest := by
  cases k with
  | u8 => exact failsBehind_first (u8_eq_error (Reader.run_map_eq_error_iff.mp h))
  | u16 => exact failsBehind_first (word_eq_error (Reader.run_map_eq_error_iff.mp h))
  | u32 => exact failsBehind_first (word_eq_error (Reader.run_map_eq_error_iff.mp h))
  | u64 => exact failsBehind_first (word_eq_error (Reader.run_map_eq_error_iff.mp h))
  | text => exact text_eq_error (Reader.run_map_eq_error_iff.mp h)
  | qid => exact qid_eq_error (Reader.run_map_eq_error_iff.mp h)
  | blob => exact blob_eq_error (Reader.run_map_eq_error_iff.mp h)
  | bytes n =>
    exact failsBehind_first
      (Reader.run_take_eq_error_iff.mp (Reader.run_map_eq_error_iff.mp h))

/-! ## Sequences of reads -/

/-- **Fields are read again one after another, whatever follows them.** -/
theorem readAll_written (fs : List Field) (t : Bytes) :
    (Kind.readAll (written fs ++ t) ((fitting fs).map kind)).map Prod.fst =
        (fitting fs).map .ok ∧
      bytesAfter (written fs ++ t)
        (Kind.readAll (written fs ++ t) ((fitting fs).map kind)) = t := by
  induction fs with
  | nil => exact ⟨rfl, rfl⟩
  | cons f fs ih =>
    by_cases hf : f.Fits
    · obtain ⟨bs, hw⟩ := write_isOk_iff.mpr hf
      rw [fitting_cons_of_fits hf, written_cons_of_write hw, List.append_assoc]
      simp only [List.map_cons, Kind.readAll, read_write hw, bytesAfter]
      exact ⟨congrArg _ ih.1, ih.2⟩
    · rw [fitting_cons_of_not_fits hf, written_cons_of_not_fits hf]
      exact ih

theorem extract_of_drop_eq {p : Nat} {front : Bytes} (hp : p ≤ data.length)
    (h : data.drop p = front ++ rest) :
    p + front.length ≤ data.length ∧ rest = data.drop (p + front.length) ∧
      data.extract p (p + front.length) = front := by
  have hlen := congrArg List.length h
  rw [List.length_drop, List.length_append] at hlen
  refine ⟨by omega, ?_, ?_⟩
  · rw [← List.drop_drop, h, List.drop_left]
  · rw [List.extract_eq_take_drop, h, Nat.add_sub_cancel_left, List.take_left]

theorem moves_read {p : Nat} (hp : p ≤ data.length) (k : Kind) :
    ∃ q, k.Moves data p q (k.read.run (data.drop p)).1 ∧
      (k.read.run (data.drop p)).2 = data.drop q := by
  rcases h : k.read.run (data.drop p) with ⟨e | f, rest⟩
  · obtain ⟨parts, hparts, hfails⟩ := read_eq_error h
    obtain ⟨hin, rfl, hext⟩ := extract_of_drop_eq hp hparts
    refine ⟨_, ⟨Nat.le_add_right _ _, hin, fun f hf => ?_, fun e' he => ?_⟩, rfl⟩
    · cases hf
    · cases he
      exact ⟨parts, hfails, hext⟩
  · obtain ⟨front, hfront, hkind, hw⟩ := read_eq_ok h
    obtain ⟨hin, rfl, hext⟩ := extract_of_drop_eq hp hfront
    refine ⟨_, ⟨Nat.le_add_right _ _, hin, fun f' hf => ?_, fun e he => ?_⟩, rfl⟩
    · cases hf
      have hread := read_write hw []
      rw [List.append_nil, hkind] at hread
      rw [hext]
      exact ⟨hkind, hw, hread⟩
    · cases he

/-- **What a sequence of reads does**, however often one fails. -/
theorem reads_readAll {p : Nat} (hp : p ≤ data.length) (ks : List Kind) :
    Kind.Reads data p ks (Kind.readAll (data.drop p) ks) := by
  induction ks generalizing p with
  | nil => exact .nil p
  | cons k ks ih =>
    obtain ⟨q, hm, hrest⟩ := moves_read hp k
    have hstep : k.read.run (data.drop p) = ((k.read.run (data.drop p)).1, data.drop q) :=
      Prod.ext rfl hrest
    simp only [Kind.readAll]
    rw [hstep]
    exact .cons hm (ih hm.inside)

/-- A cursor of 64 bits goes as far as one that counts without bound: where the end of a field is
more than 64 bits count, it is more than there are bytes as well. -/
theorem run_take_drop {p n : UInt64} (hd : data.length < UInt64.size)
    (hp : p.toNat ≤ data.length) :
    (Reader.take n.toNat).run (data.drop p.toNat) = Reader.takeBehind data p n := by
  have hleft : (data.drop p.toNat).length = data.length - p.toNat := List.length_drop
  unfold Reader.takeBehind Reader.stop?
  by_cases hlt : p.toNat + n.toNat < UInt64.size
  · have hq : (p + n).toNat = p.toNat + n.toNat := by
      rw [UInt64.toNat_add]
      exact Nat.mod_eq_of_lt hlt
    rw [if_pos hlt]
    simp only [hq]
    by_cases hend : data.length < p.toNat + n.toNat
    · rw [if_pos hend]
      exact Reader.run_take_eq_error_iff.mpr ⟨rfl, rfl, by omega⟩
    · rw [if_neg hend]
      refine Reader.run_take_eq_ok_iff.mpr ⟨?_, ?_⟩
      · rw [List.extract_eq_take_drop, Nat.add_sub_cancel_left, ← List.drop_drop,
          List.take_append_drop]
      · rw [List.extract_eq_take_drop, Nat.add_sub_cancel_left, List.length_take]
        omega
  · rw [if_neg hlt]
    exact Reader.run_take_eq_error_iff.mpr ⟨rfl, rfl, by omega⟩

/-- **What is written of a sequence of fields is read again by their kinds, and no sequence of
reads overruns its buffer.** A field that does not fit leaves what is written as it is; the others
are read again one after another, and what follows them is left. In any buffer each read begins
where the one before has left off, and goes no further than the field that it gives, or than the
parts that it has read in full. A cursor of 64 bits, whose end of a field may be more than they
count, does the same. -/
theorem fields_roundTrip (fs : List Field) (t data : Bytes) (ks : List Kind) :
    Writes [] fs (appendAll [] fs) ∧
      ((Kind.readAll (written fs ++ t) ((fitting fs).map kind)).map Prod.fst =
          (fitting fs).map .ok ∧
        bytesAfter (written fs ++ t)
          (Kind.readAll (written fs ++ t) ((fitting fs).map kind)) = t) ∧
      Kind.Reads data 0 ks (Kind.readAll data ks) ∧
      ∀ p n : UInt64, data.length < UInt64.size → p.toNat ≤ data.length →
        (Reader.take n.toNat).run (data.drop p.toNat) = Reader.takeBehind data p n :=
  ⟨writes_appendAll, readAll_written fs t, reads_readAll (Nat.zero_le _) ks,
    fun _ _ hd hp => run_take_drop hd hp⟩

/-- What a failed read has read in full is not read again. -/
example : Kind.readAll [5, 0, 97] [.text, .u8, .u8] =
    [(.error .truncated, [97]), (.ok (.u8 97), []), (.error .truncated, [])] := rfl

end Field

end GuestShare
