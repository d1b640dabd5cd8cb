import GuestShare.Proofs.Wire.Frame
import Mathlib.Tactic.Common

/-!
# What is read is what would be written

A layout is exact if it reads a value from no other bytes than those that it writes for it. Layouts
whose last field may be missing are exact up to that field. Reading fails for a few causes only.

* `Layout.Exact`: the law, with the causes of failure.
* `exact_unit` … `exact_blob`: the fields.
* `Exact.pair`, `Exact.map`, `Exact.orElse`, `Exact.counted`, `Exact.packed`: the combinations.
* `Request.exact_layout`, `Reply.exact_layout`: every operation's layout is exact.
-/

namespace GuestShare

namespace Reader

variable {α β : Type}

theorem run_take (n : Nat) (bs : Bytes) :
    (take n).run bs =
      if (bs.take n).length = n then (.ok (bs.take n), bs.drop n)
      else (.error .truncated, bs) := rfl

theorem run_take_eq_ok_iff {n : Nat} {bs front rest : Bytes} :
    (take n).run bs = (.ok front, rest) ↔ bs = front ++ rest ∧ front.length = n := by
  rw [run_take]
  constructor
  · intro h
    by_cases hn : (bs.take n).length = n
    · rw [if_pos hn] at h
      cases h
      exact ⟨(List.take_append_drop n bs).symm, hn⟩
    · rw [if_neg hn] at h
      cases h
  · rintro ⟨rfl, rfl⟩
    simp

theorem run_take_eq_error_iff {n : Nat} {bs rest : Bytes} {e : WireError} :
    (take n).run bs = (.error e, rest) ↔ e = .truncated ∧ rest = bs ∧ bs.length < n := by
  rw [run_take]
  by_cases hn : n ≤ bs.length
  · rw [if_pos (List.length_take_of_le hn)]
    constructor
    · intro h
      cases h
    · rintro ⟨-, -, hlt⟩
      exact absurd hn (Nat.not_le.mpr hlt)
  · have hshort : ¬ (bs.take n).length = n := by
      rw [List.length_take]
      omega
    rw [if_neg hshort]
    constructor
    · intro h
      cases h
      exact ⟨rfl, rfl, Nat.not_le.mp hn⟩
    · rintro ⟨rfl, rfl, -⟩
      rfl

theorem run_within (r : Reader α) (inner rest : Bytes) :
    (within inner r).run rest = ((r.run inner).1, rest) := rfl

theorem run_bind_eq_error {r : Reader α} {f : α → Reader β} {bs rest : Bytes} {e : WireError}
    (h : (r >>= f).run bs = (.error e, rest)) :
    r.run bs = (.error e, rest) ∨ ∃ a mid, r.run bs = (.ok a, mid) ∧
      (f a).run mid = (.error e, rest) := by
  rw [run_bind] at h
  rcases hr : r.run bs with ⟨e' | a, mid⟩
  · rw [hr] at h
    cases h
    exact .inl rfl
  · rw [hr] at h
    exact .inr ⟨a, mid, rfl, h⟩

theorem run_map_eq_ok_iff {g : α → β} {r : Reader α} {bs rest : Bytes} {b : β} :
    (g <$> r).run bs = (.ok b, rest) ↔ ∃ a, r.run bs = (.ok a, rest) ∧ g a = b := by
  rw [run_map]
  rcases r.run bs with ⟨e | a, mid⟩
  · simp
  · simp [and_comm]

theorem run_map_eq_error_iff {g : α → β} {r : Reader α} {bs rest : Bytes} {e : WireError} :
    (g <$> r).run bs = (.error e, rest) ↔ r.run bs = (.error e, rest) := by
  rw [run_map]
  rcases r.run bs with ⟨e | a, mid⟩ <;> simp

end Reader

namespace WireError

/-- The causes for which a field cannot be read. -/
def OfField (e : WireError) : Prop := e = truncated ∨ e = invalidText ∨ e = walkTooLong

end WireError

namespace Layout

variable {α β : Type}

/-- **A value is read from its own writing only**, or, if it ends with the field `fill`, from a
writing that leaves off before it. -/
structure Exact (l : Layout α) (fill : Bytes) : Prop where
  read_eq_ok : ∀ {bs a rest}, l.read.run bs = (.ok a, rest) → ∃ front, bs = front ++ rest ∧
    (l.write a = .ok front ∨ rest.length < fill.length ∧ l.write a = .ok (front ++ fill))
  read_eq_error : ∀ {bs e rest}, l.read.run bs = (.error e, rest) → e.OfField

theorem Exact.front {l : Layout α} (hl : l.Exact []) {bs rest : Bytes} {a : α}
    (h : l.read.run bs = (.ok a, rest)) : ∃ front, bs = front ++ rest ∧ l.write a = .ok front := by
  obtain ⟨front, rfl, hw | ⟨hlt, -⟩⟩ := hl.read_eq_ok h
  · exact ⟨front, rfl, hw⟩
  · exact absurd hlt (Nat.not_lt_zero _)

/-! ## Fields -/

theorem exact_unit : unit.Exact [] where
  read_eq_ok h := by
    cases h
    exact ⟨[], rfl, .inl rfl⟩
  read_eq_error h := by cases h

theorem exact_u8 : u8.Exact [] where
  read_eq_ok {bs a rest} h := by
    cases bs with
    | nil => cases h
    | cons b bs =>
      cases h
      exact ⟨[a], rfl, .inl rfl⟩
  read_eq_error {bs e rest} h := by
    cases bs with
    | nil =>
      cases h
      exact .inl rfl
    | cons b bs => cases h

theorem exact_word {l : Layout α} {n : Nat} {ofBytes : Bytes → α} {toBytes : α → Bytes}
    (hr : l.read = (do return ofBytes (← Reader.take n))) (hw : ∀ a, l.write a = .ok (toBytes a))
    (hinv : ∀ {bs : Bytes}, bs.length = n → toBytes (ofBytes bs) = bs) : l.Exact [] where
  read_eq_ok {bs a rest} h := by
    rw [hr] at h
    obtain ⟨front, mid, hfront, he⟩ := Reader.run_bind_eq_ok_iff.mp h
    cases he
    obtain ⟨rfl, hlen⟩ := Reader.run_take_eq_ok_iff.mp hfront
    exact ⟨front, rfl, .inl (by rw [hw, hinv hlen])⟩
  read_eq_error {bs e rest} h := by
    rw [hr] at h
    rcases Reader.run_bind_eq_error h with he | ⟨a, mid, -, he⟩
    · exact .inl (Reader.run_take_eq_error_iff.mp he).1
    · cases he

theorem exact_u16 : u16.Exact [] := exact_word rfl (fun _ => rfl) Bytes.ofU16_toU16

theorem exact_u32 : u32.Exact [] := exact_word rfl (fun _ => rfl) Bytes.ofU32_toU32

theorem exact_u64 : u64.Exact [] := exact_word rfl (fun _ => rfl) Bytes.ofU64_toU64

theorem exact_text : text.Exact [] where
  read_eq_ok {bs s rest} h := by
    obtain ⟨n, mid, hn, hrest⟩ := Reader.run_bind_eq_ok_iff.mp h
    obtain ⟨field, mid', hfield, hs⟩ := Reader.run_bind_eq_ok_iff.mp hrest
    obtain ⟨front, rfl, hfront⟩ := exact_u16.front hn
    cases hfront
    obtain ⟨rfl, hlen⟩ := Reader.run_take_eq_ok_iff.mp hfield
    split at hs
    next s' hs' =>
      cases hs
      obtain rfl := Bytes.toText?_eq_some_iff.mp hs'
      refine ⟨Bytes.ofU16 n ++ Bytes.ofText s, by rw [List.append_assoc], .inl ?_⟩
      refine writeShort_eq_ok_iff.mpr ⟨?_, ?_⟩
      · rw [hlen]
        exact n.toNat_lt_size
      · rw [hlen, UInt16.ofNat_toNat]
    next => cases hs
  read_eq_error {bs e rest} h := by
    rcases Reader.run_bind_eq_error h with he | ⟨n, mid, -, hrest⟩
    · exact exact_u16.read_eq_error he
    · rcases Reader.run_bind_eq_error hrest with he | ⟨field, mid', -, hs⟩
      · exact .inl (Reader.run_take_eq_error_iff.mp he).1
      · split at hs
        · cases hs
        · cases hs
          exact .inr (.inl rfl)

theorem exact_blob : blob.Exact [] where
  read_eq_ok {bs data rest} h := by
    obtain ⟨n, mid, hn, hdata⟩ := Reader.run_bind_eq_ok_iff.mp h
    obtain ⟨front, rfl, hfront⟩ := exact_u32.front hn
    cases hfront
    obtain ⟨rfl, hlen⟩ := Reader.run_take_eq_ok_iff.mp hdata
    refine ⟨Bytes.ofU32 n ++ data, by rw [List.append_assoc], .inl ?_⟩
    refine writeLong_eq_ok_iff.mpr ⟨?_, ?_⟩
    · rw [hlen]
      exact n.toNat_lt_size
    · rw [hlen, UInt32.ofNat_toNat]
  read_eq_error {bs e rest} h := by
    rcases Reader.run_bind_eq_error h with he | ⟨n, mid, -, hdata⟩
    · exact exact_u32.read_eq_error he
    · exact .inl (Reader.run_take_eq_error_iff.mp hdata).1

/-! ## Combinations -/

section Combinations

variable {l : Layout α} {m : Layout β} {F : α → Prop} {f : α → Nat} {fill : Bytes}

theorem Exact.pair (hl : l.Exact []) (hm : m.Exact fill) : (l.pair m).Exact fill where
  read_eq_ok {bs p rest} h := by
    obtain ⟨a, mid, ha, h⟩ := Reader.run_bind_eq_ok_iff.mp h
    obtain ⟨b, rest', hb, h⟩ := Reader.run_bind_eq_ok_iff.mp h
    cases h
    obtain ⟨front, rfl, hfront⟩ := hl.front ha
    obtain ⟨back, rfl, hback⟩ := hm.read_eq_ok hb
    refine ⟨front ++ back, by rw [List.append_assoc], ?_⟩
    rcases hback with hback | ⟨hlt, hback⟩
    · exact .inl (write_pair_eq_ok_iff.mpr ⟨front, back, hfront, hback, rfl⟩)
    · refine .inr ⟨hlt, write_pair_eq_ok_iff.mpr ⟨front, back ++ fill, hfront, hback, ?_⟩⟩
      rw [List.append_assoc]
  read_eq_error {bs e rest} h := by
    rcases Reader.run_bind_eq_error h with he | ⟨a, mid, -, h⟩
    · exact hl.read_eq_error he
    · rcases Reader.run_bind_eq_error h with he | ⟨b, rest', -, h⟩
      · exact hm.read_eq_error he
      · cases h

theorem Exact.map (hl : l.Exact fill) (make : α → β) (parts : β → α)
    (h : ∀ a, parts (make a) = a) : (l.map make parts).Exact fill where
  read_eq_ok {bs b rest} hb := by
    obtain ⟨a, ha, rfl⟩ := Reader.run_map_eq_ok_iff.mp hb
    obtain ⟨front, rfl, hfront⟩ := hl.read_eq_ok ha
    refine ⟨front, rfl, ?_⟩
    change l.write (parts (make a)) = _ ∨ _ ∧ l.write (parts (make a)) = _
    rwa [h]
  read_eq_error he := hl.read_eq_error (Reader.run_map_eq_error_iff.mp he)

theorem Exact.orElse {n : Nat} {missing : α} (hl : l.Exact []) (hw : l.write missing = .ok fill)
    (hn : fill.length = n) : (l.orElse n missing).Exact fill where
  read_eq_ok {bs a rest} h := by
    obtain ⟨enough, mid, he, h⟩ := Reader.run_bind_eq_ok_iff.mp h
    cases he
    split_ifs at h with henough
    · obtain ⟨front, rfl, hfront⟩ := hl.front h
      exact ⟨front, rfl, .inl hfront⟩
    · cases h
      refine ⟨[], rfl, .inr ⟨?_, hw⟩⟩
      have hshort : ¬ (bs.take n).length = n := by simpa using henough
      rw [List.length_take] at hshort
      omega
  read_eq_error {bs e rest} h := by
    rcases Reader.run_bind_eq_error h with he | ⟨enough, mid, -, h⟩
    · cases he
    · split_ifs at h
      · exact hl.read_eq_error h
      · cases h

theorem Exact.times_eq_ok (hl : l.Exact []) {n : Nat} {bs rest : Bytes} {as : List α}
    (h : (l.read.times n).run bs = (.ok as, rest)) :
    as.length = n ∧ ∃ front, bs = front ++ rest ∧ l.writeAll as = .ok front := by
  induction n generalizing bs as with
  | zero =>
    cases h
    exact ⟨rfl, [], rfl, writeAll_nil⟩
  | succ n ih =>
    rw [Reader.run_times_succ] at h
    obtain ⟨a, mid, ha, h⟩ := Reader.run_bind_eq_ok_iff.mp h
    obtain ⟨as', rest', has, h⟩ := Reader.run_bind_eq_ok_iff.mp h
    cases h
    obtain ⟨front, rfl, hfront⟩ := hl.front ha
    obtain ⟨hlen, back, rfl, hback⟩ := ih has
    exact ⟨by rw [List.length_cons, hlen], front ++ back, by rw [List.append_assoc],
      writeAll_cons_eq_ok_iff.mpr ⟨front, back, hfront, hback, rfl⟩⟩

theorem Exact.times_eq_error (hl : l.Exact []) {n : Nat} {bs rest : Bytes} {e : WireError}
    (h : (l.read.times n).run bs = (.error e, rest)) : e.OfField := by
  induction n generalizing bs with
  | zero => cases h
  | succ n ih =>
    rw [Reader.run_times_succ] at h
    rcases Reader.run_bind_eq_error h with he | ⟨a, mid, -, h⟩
    · exact hl.read_eq_error he
    · rcases Reader.run_bind_eq_error h with he | ⟨as, rest', -, h⟩
      · exact ih he
      · cases h

theorem Exact.counted {limit : Nat} (hl : l.Exact []) : (l.counted limit).Exact [] where
  read_eq_ok {bs as rest} h := by
    obtain ⟨n, mid, hn, has⟩ := Reader.run_bind_eq_ok_iff.mp h
    obtain ⟨front, rfl, hfront⟩ := exact_u16.front hn
    cases hfront
    split_ifs at has with hlim
    · cases has
    · obtain ⟨hlen, items, rfl, hitems⟩ := hl.times_eq_ok has
      refine ⟨Bytes.ofU16 n ++ items, by rw [List.append_assoc], .inl ?_⟩
      refine write_counted_eq_ok_iff.mpr ⟨?_, items, hitems, ?_⟩
      · rw [hlen]
        exact Nat.not_lt.mp hlim
      · rw [hlen, UInt16.ofNat_toNat]
  read_eq_error {bs e rest} h := by
    rcases Reader.run_bind_eq_error h with he | ⟨n, mid, -, h⟩
    · exact exact_u16.read_eq_error he
    · split_ifs at h
      · cases h
        exact .inr (.inr rfl)
      · exact hl.times_eq_error h

/-- The bytes behind the items that are done already are those of the other items. No item is
empty, so that the limit on their number is not reached before the bytes end. -/
theorem Exact.untilEndOnto_eq_ok (he : l.Exact []) (hl : l.Lawful F f) (hpos : ∀ a, 0 < f a)
    {limit : Nat} {bs rest : Bytes} {done as : List α} (hlim : bs.length ≤ limit)
    (h : Reader.untilEndOnto l.read limit done bs = (.ok as, rest)) :
    ∃ more, as = done.reverse ++ more ∧ l.writeAll more = .ok bs := by
  induction limit generalizing bs done with
  | zero =>
    obtain rfl : bs = [] := List.length_eq_zero_iff.mp (Nat.le_zero.mp hlim)
    cases h
    exact ⟨[], by rw [List.append_nil], writeAll_nil⟩
  | succ n ih =>
    cases bs with
    | nil =>
      cases h
      exact ⟨[], by rw [List.append_nil], writeAll_nil⟩
    | cons b bs =>
      rw [Reader.untilEndOnto] at h
      split at h
      next a mid ha =>
        obtain ⟨front, hbs, hfront⟩ := he.front ha
        have hlen : front.length + mid.length = bs.length + 1 := by
          rw [← List.length_append, ← hbs, List.length_cons]
        have hfpos : 0 < front.length := by
          rw [hl.length_eq hfront]
          exact hpos a
        rw [List.length_cons] at hlim
        obtain ⟨more, rfl, hmore⟩ := ih (by omega) h
        refine ⟨a :: more, by simp, ?_⟩
        exact writeAll_cons_eq_ok_iff.mpr ⟨front, mid, hfront, hmore, hbs⟩
      next => cases h

theorem Exact.untilEndOnto_eq_error (he : l.Exact []) {limit : Nat} {bs rest : Bytes}
    {done : List α} {e : WireError}
    (h : Reader.untilEndOnto l.read limit done bs = (.error e, rest)) : e.OfField := by
  induction limit generalizing bs done with
  | zero => cases bs <;> cases h
  | succ n ih =>
    cases bs with
    | nil => cases h
    | cons b bs =>
      rw [Reader.untilEndOnto] at h
      split at h
      next => exact ih h
      next e' mid ha =>
        cases h
        exact he.read_eq_error ha

theorem Exact.packed (he : l.Exact []) (hl : l.Lawful F f) (hpos : ∀ a, 0 < f a) :
    (l.packed f).Exact [] where
  read_eq_ok {bs as rest} h := by
    obtain ⟨items, mid, hitems, has⟩ := Reader.run_bind_eq_ok_iff.mp h
    obtain ⟨front, rfl, hfront⟩ := exact_blob.front hitems
    obtain ⟨hsize, rfl⟩ := writeLong_eq_ok_iff.mp hfront
    rw [Reader.run_within] at has
    rcases hu : l.read.untilEnd.run items with ⟨e | as', last⟩
    · rw [hu] at has
      cases has
    · rw [hu] at has
      cases has
      obtain ⟨more, hmore, hitems⟩ := he.untilEndOnto_eq_ok hl hpos (Nat.le_refl _) hu
      obtain rfl : as = more := hmore
      have hlen := hl.length_writeAll hitems
      rw [hlen] at hsize
      refine ⟨_, rfl, .inl (write_packed_eq_ok_iff.mpr ⟨hsize, items, hitems, ?_⟩)⟩
      rw [hlen]
  read_eq_error {bs e rest} h := by
    rcases Reader.run_bind_eq_error h with hb | ⟨items, mid, -, has⟩
    · exact exact_blob.read_eq_error hb
    · rw [Reader.run_within] at has
      rcases hu : l.read.untilEnd.run items with ⟨e' | as', last⟩
      · rw [hu] at has
        cases has
        exact he.untilEndOnto_eq_error hu
      · rw [hu] at has
        cases has

end Combinations

/-! ## Composed fields -/

theorem exact_header : Header.layout.Exact [] :=
  (exact_u32.pair (exact_u8.pair exact_u16)).map _ _ fun _ => rfl

theorem exact_qid : Qid.layout.Exact [] :=
  (exact_u8.pair (exact_u32.pair exact_u64)).map _ _ fun _ => rfl

theorem exact_setAttr : SetAttr.layout.Exact [] :=
  (exact_u32.pair <| exact_u32.pair <| exact_u32.pair <| exact_u32.pair <| exact_u64.pair <|
    exact_u64.pair <| exact_u64.pair <| exact_u64.pair exact_u64).map _ _ fun _ => rfl

theorem exact_attr : Attr.layout.Exact [] :=
  (exact_u64.pair <| exact_qid.pair <| exact_u32.pair <| exact_u32.pair <| exact_u32.pair <|
    exact_u64.pair <| exact_u64.pair <| exact_u64.pair <| exact_u64.pair <| exact_u64.pair <|
    exact_u64.pair <| exact_u64.pair <| exact_u64.pair <| exact_u64.pair <| exact_u64.pair <|
    exact_u64.pair <| exact_u64.pair <| exact_u64.pair <| exact_u64.pair exact_u64).map
    _ _ fun _ => rfl

theorem exact_dirEntry : DirEntry.layout.Exact [] :=
  (exact_qid.pair <| exact_u64.pair <| exact_u8.pair exact_text).map _ _ fun _ => rfl

end Layout

open Layout

/-! ## Messages -/

/-- The last field of a request if it may be missing, as it is completed. -/
def Request.optionalField : Operation → Bytes
  | .attach => Bytes.ofU32 noId
  | .fsync => Bytes.ofU32 0
  | _ => []

/-- **Requests are read from their own writing only**, but for a last field that is missing. -/
theorem Request.exact_layout : ∀ op, (Request.layout op).Exact (Request.optionalField op)
  | .version => exact_u32.pair exact_text
  | .attach => exact_u32.pair <| exact_u32.pair <| exact_text.pair <| exact_text.pair <|
      exact_u32.orElse rfl rfl
  | .flush => exact_u16
  | .walk => exact_u32.pair <| exact_u32.pair <| exact_text.counted
  | .lopen => exact_u32.pair exact_u32
  | .open => exact_u32.pair exact_u8
  | .lcreate => exact_u32.pair <| exact_text.pair <| exact_u32.pair <| exact_u32.pair exact_u32
  | .symlink => exact_u32.pair <| exact_text.pair <| exact_text.pair exact_u32
  | .mknod => exact_u32.pair <| exact_text.pair <| exact_u32.pair <| exact_u32.pair <|
      exact_u32.pair exact_u32
  | .readlink => exact_u32
  | .getattr => exact_u32.pair exact_u64
  | .setattr => exact_u32.pair exact_setAttr
  | .readdir => exact_u32.pair <| exact_u64.pair exact_u32
  | .fsync => exact_u32.pair <| exact_u32.orElse rfl rfl
  | .mkdir => exact_u32.pair <| exact_text.pair <| exact_u32.pair exact_u32
  | .renameat => exact_u32.pair <| exact_text.pair <| exact_u32.pair exact_text
  | .unlinkat => exact_u32.pair <| exact_text.pair exact_u32
  | .read => exact_u32.pair <| exact_u64.pair exact_u32
  | .write => exact_u32.pair <| exact_u64.pair exact_blob
  | .clunk => exact_u32
  | .remove => exact_u32

/-- **Replies are read from their own writing only.** -/
theorem Reply.exact_layout : ∀ op, (Reply.layout op).Exact []
  | .version => exact_u32.pair exact_text
  | .attach => exact_qid
  | .flush => exact_unit
  | .walk => exact_qid.counted
  | .lopen => exact_qid.pair exact_u32
  | .open => exact_qid.pair exact_u32
  | .lcreate => exact_qid.pair exact_u32
  | .symlink => exact_qid
  | .mknod => exact_qid
  | .readlink => exact_text
  | .getattr => exact_attr
  | .setattr => exact_unit
  | .readdir => exact_dirEntry.packed lawful_dirEntry DirEntry.size_pos
  | .fsync => exact_unit
  | .mkdir => exact_qid
  | .renameat => exact_unit
  | .unlinkat => exact_unit
  | .read => exact_blob
  | .write => exact_u32
  | .clunk => exact_unit
  | .remove => exact_unit

end GuestShare
