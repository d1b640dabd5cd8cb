import GuestShare.Wire.Attributes
import Mathlib.Tactic.Common

/-!
# Laws of layouts

A layout is lawful if it says which values it can write, how many bytes each of them takes, and if
reading gives every written value back, whatever follows. The layouts of single fields are lawful,
and what is built from lawful layouts is lawful again.

* `Layout.Lawful`: the law.
* `lawful_unit` … `lawful_blob`: the fields.
* `Lawful.pair`, `Lawful.map`, `Lawful.orElse`, `Lawful.counted`, `Lawful.packed`: the combinations.
* `lawful_qid`, `lawful_setAttr`, `lawful_attr`, `lawful_dirEntry`: the composed fields.
* **`read_times`**, **`read_untilEnd`**: a list is read back item by item.
-/

namespace GuestShare

namespace Layout

variable {α β : Type}

/-- **Reading undoes writing**: `Fits` are the values that can be written, `size` counts the bytes
of each. -/
structure Lawful (l : Layout α) (Fits : α → Prop) (size : α → Nat) : Prop where
  writable : ∀ a, (∃ bs, l.write a = .ok bs) ↔ Fits a
  length_eq : ∀ {a bs}, l.write a = .ok bs → bs.length = size a
  read_write : ∀ {a bs}, l.write a = .ok bs → ∀ t, l.read.run (bs ++ t) = (.ok a, t)

theorem Lawful.congr {l : Layout α} {F F' : α → Prop} {f f' : α → Nat} (h : l.Lawful F f)
    (hF : ∀ a, F a ↔ F' a) (hf : ∀ a, f a = f' a) : l.Lawful F' f' where
  writable a := (h.writable a).trans (hF a)
  length_eq hw := (h.length_eq hw).trans (hf _)
  read_write := h.read_write

/-! ## Fields -/

theorem run_take_append {bs : Bytes} {n : Nat} (h : bs.length = n) (t : Bytes) :
    (Reader.take n).run (bs ++ t) = (.ok bs, t) := by
  subst h
  simp [Reader.take, Reader.run]

theorem lawful_fixed (bytes : α → Bytes) {l : Layout α} {n : Nat}
    (hw : ∀ a, l.write a = .ok (bytes a)) (hn : ∀ a, (bytes a).length = n)
    (hr : ∀ a t, l.read.run (bytes a ++ t) = (.ok a, t)) :
    l.Lawful (fun _ => True) (fun _ => n) where
  writable a := ⟨fun _ => trivial, fun _ => ⟨_, hw a⟩⟩
  length_eq {a bs} h := by
    rw [hw] at h
    cases h
    exact hn a
  read_write {a bs} h t := by
    rw [hw] at h
    cases h
    exact hr a t

theorem lawful_unit : unit.Lawful (fun _ => True) (fun _ => 0) :=
  lawful_fixed (fun _ => []) (fun _ => rfl) (fun _ => rfl) (fun _ _ => rfl)

theorem lawful_u8 : u8.Lawful (fun _ => True) (fun _ => 1) :=
  lawful_fixed (fun x => [x]) (fun _ => rfl) (fun _ => rfl) (fun _ _ => rfl)

theorem run_u16 (x : UInt16) (t : Bytes) : Reader.u16.run (Bytes.ofU16 x ++ t) = (.ok x, t) := by
  rw [Reader.u16, Reader.run_bind_ok (run_take_append (Bytes.length_ofU16 x) t), Reader.run_pure,
    Bytes.toU16_ofU16]

theorem run_u32 (x : UInt32) (t : Bytes) : Reader.u32.run (Bytes.ofU32 x ++ t) = (.ok x, t) := by
  rw [Reader.u32, Reader.run_bind_ok (run_take_append (Bytes.length_ofU32 x) t), Reader.run_pure,
    Bytes.toU32_ofU32]

theorem run_u64 (x : UInt64) (t : Bytes) : Reader.u64.run (Bytes.ofU64 x ++ t) = (.ok x, t) := by
  rw [Reader.u64, Reader.run_bind_ok (run_take_append (Bytes.length_ofU64 x) t), Reader.run_pure,
    Bytes.toU64_ofU64]

theorem lawful_u16 : u16.Lawful (fun _ => True) (fun _ => 2) :=
  lawful_fixed Bytes.ofU16 (fun _ => rfl) Bytes.length_ofU16 run_u16

theorem lawful_u32 : u32.Lawful (fun _ => True) (fun _ => 4) :=
  lawful_fixed Bytes.ofU32 (fun _ => rfl) Bytes.length_ofU32 run_u32

theorem lawful_u64 : u64.Lawful (fun _ => True) (fun _ => 8) :=
  lawful_fixed Bytes.ofU64 (fun _ => rfl) Bytes.length_ofU64 run_u64

theorem writeShort_eq_ok_iff {bs out : Bytes} :
    writeShort bs = .ok out ↔
      bs.length < UInt16.size ∧ out = Bytes.ofU16 (UInt16.ofNat bs.length) ++ bs := by
  unfold writeShort
  split_ifs with h
  · simp [h, eq_comm]
  · simp [h]

theorem writeLong_eq_ok_iff {bs out : Bytes} :
    writeLong bs = .ok out ↔
      bs.length < UInt32.size ∧ out = Bytes.ofU32 (UInt32.ofNat bs.length) ++ bs := by
  unfold writeLong
  split_ifs with h
  · simp [h, eq_comm]
  · simp [h]

/-- A text of at most 65535 bytes can be written. -/
def TextFits (s : String) : Prop := (Bytes.ofText s).length ≤ 65535

/-- The bytes of a text with its length. -/
def textSize (s : String) : Nat := 2 + (Bytes.ofText s).length

theorem lawful_text : text.Lawful TextFits textSize where
  writable s := by
    constructor
    · rintro ⟨bs, h⟩
      have := (writeShort_eq_ok_iff.mp h).1
      unfold TextFits
      unfold UInt16.size at this
      omega
    · intro h
      refine ⟨_, writeShort_eq_ok_iff.mpr ⟨?_, rfl⟩⟩
      unfold TextFits at h
      unfold UInt16.size
      omega
  length_eq {s bs} h := by
    obtain ⟨-, rfl⟩ := writeShort_eq_ok_iff.mp h
    rw [List.length_append, Bytes.length_ofU16, textSize]
  read_write {s bs} h t := by
    obtain ⟨hs, rfl⟩ := writeShort_eq_ok_iff.mp h
    have hn : (Bytes.ofText s).length = (UInt16.ofNat (Bytes.ofText s).length).toNat :=
      (UInt16.toNat_ofNat_of_lt' hs).symm
    change Reader.text.run _ = _
    rw [Reader.text, List.append_assoc, Reader.run_bind_ok (run_u16 _ _),
      Reader.run_bind_ok (run_take_append hn t), Bytes.toText?_ofText, Reader.run_pure]

theorem lawful_blob :
    blob.Lawful (fun bs => bs.length < UInt32.size) (fun bs => 4 + bs.length) where
  writable bs := by
    constructor
    · rintro ⟨out, h⟩
      exact (writeLong_eq_ok_iff.mp h).1
    · intro h
      exact ⟨_, writeLong_eq_ok_iff.mpr ⟨h, rfl⟩⟩
  length_eq {bs out} h := by
    obtain ⟨-, rfl⟩ := writeLong_eq_ok_iff.mp h
    rw [List.length_append, Bytes.length_ofU32]
  read_write {bs out} h t := by
    obtain ⟨hs, rfl⟩ := writeLong_eq_ok_iff.mp h
    have hn : bs.length = (UInt32.ofNat bs.length).toNat := (UInt32.toNat_ofNat_of_lt' hs).symm
    change Reader.blob.run _ = _
    rw [Reader.blob, List.append_assoc, Reader.run_bind_ok (run_u32 _ _), run_take_append hn t]

/-! ## Combinations -/

section Combinations

variable {l : Layout α} {m : Layout β} {F : α → Prop} {G : β → Prop} {f : α → Nat} {g : β → Nat}

theorem write_pair_eq_ok_iff {p : α × β} {out : Bytes} :
    (l.pair m).write p = .ok out ↔
      ∃ front back, l.write p.1 = .ok front ∧ m.write p.2 = .ok back ∧ out = front ++ back := by
  change (l.write p.1 >>= fun front => m.write p.2 >>= fun back =>
    Except.ok (front ++ back)) = _ ↔ _
  rcases l.write p.1 with e | front
  · simp [bind, Except.bind]
  · rcases m.write p.2 with e | back
    · simp [bind, Except.bind]
    · simp [bind, Except.bind, eq_comm]

theorem Lawful.pair (hl : l.Lawful F f) (hm : m.Lawful G g) :
    (l.pair m).Lawful (fun p => F p.1 ∧ G p.2) (fun p => f p.1 + g p.2) where
  writable p := by
    rw [← hl.writable, ← hm.writable]
    constructor
    · rintro ⟨out, h⟩
      obtain ⟨front, back, h₁, h₂, -⟩ := write_pair_eq_ok_iff.mp h
      exact ⟨⟨front, h₁⟩, ⟨back, h₂⟩⟩
    · rintro ⟨⟨front, h₁⟩, ⟨back, h₂⟩⟩
      exact ⟨_, write_pair_eq_ok_iff.mpr ⟨front, back, h₁, h₂, rfl⟩⟩
  length_eq {p out} h := by
    obtain ⟨front, back, h₁, h₂, rfl⟩ := write_pair_eq_ok_iff.mp h
    rw [List.length_append, hl.length_eq h₁, hm.length_eq h₂]
  read_write {p out} h t := by
    obtain ⟨front, back, h₁, h₂, rfl⟩ := write_pair_eq_ok_iff.mp h
    rw [Layout.pair, List.append_assoc, Reader.run_bind_ok (hl.read_write h₁ _),
      Reader.run_bind_ok (hm.read_write h₂ _), Reader.run_pure]

theorem Lawful.map (hl : l.Lawful F f) (make : α → β) (parts : β → α)
    (h : ∀ b, make (parts b) = b) :
    (l.map make parts).Lawful (fun b => F (parts b)) (fun b => f (parts b)) where
  writable b := hl.writable (parts b)
  length_eq hb := hl.length_eq hb
  read_write {b bs} hb t := by
    rw [Layout.map, Reader.run_map, hl.read_write hb t]
    simp only [h]

/-- A last field that may be missing is read back as well, if it is not shorter than what it is
looked for by. -/
theorem Lawful.orElse {n : Nat} {missing : α} (hl : l.Lawful F f) (hn : ∀ a, n ≤ f a) :
    (l.orElse n missing).Lawful F f where
  writable := hl.writable
  length_eq h := hl.length_eq h
  read_write {a bs} h t := by
    have hlen : (bs ++ t).length ≥ n := by
      rw [List.length_append, hl.length_eq h]
      exact Nat.le_add_right_of_le (hn a)
    have hleft : (Reader.hasLeft n).run (bs ++ t) = (.ok true, bs ++ t) := by
      simp only [Reader.run, Reader.hasLeft, List.length_take,
        decide_eq_true (Nat.min_eq_left hlen)]
    rw [Layout.orElse, Reader.run_bind_ok hleft, if_pos rfl, hl.read_write h t]

theorem writeAll_nil : l.writeAll [] = .ok [] := rfl

theorem writeAll_cons_eq_ok_iff {a : α} {as : List α} {out : Bytes} :
    l.writeAll (a :: as) = .ok out ↔
      ∃ front back, l.write a = .ok front ∧ l.writeAll as = .ok back ∧ out = front ++ back := by
  simp only [writeAll, List.mapM_cons]
  rcases l.write a with e | front
  · simp [bind, Except.bind, Functor.map, Except.map]
  · rcases as.mapM l.write with e | back
    · simp [bind, Except.bind, Functor.map, Except.map]
    · simp [bind, Except.bind, Functor.map, Except.map, pure, Except.pure, eq_comm]

theorem Lawful.writeAll_writable (hl : l.Lawful F f) (as : List α) :
    (∃ bs, l.writeAll as = .ok bs) ↔ ∀ a ∈ as, F a := by
  induction as with
  | nil => simp [writeAll_nil]
  | cons a as ih =>
    rw [List.forall_mem_cons, ← ih, ← hl.writable]
    constructor
    · rintro ⟨out, h⟩
      obtain ⟨front, back, h₁, h₂, -⟩ := writeAll_cons_eq_ok_iff.mp h
      exact ⟨⟨front, h₁⟩, ⟨back, h₂⟩⟩
    · rintro ⟨⟨front, h₁⟩, ⟨back, h₂⟩⟩
      exact ⟨_, writeAll_cons_eq_ok_iff.mpr ⟨front, back, h₁, h₂, rfl⟩⟩

theorem Lawful.length_writeAll (hl : l.Lawful F f) {as : List α} {bs : Bytes}
    (h : l.writeAll as = .ok bs) : bs.length = totalSize f as := by
  induction as generalizing bs with
  | nil =>
    cases h
    rfl
  | cons a as ih =>
    obtain ⟨front, back, h₁, h₂, rfl⟩ := writeAll_cons_eq_ok_iff.mp h
    rw [List.length_append, hl.length_eq h₁, ih h₂, totalSize]

/-- **A list is read back item by item.** -/
theorem Lawful.read_times (hl : l.Lawful F f) {as : List α} {bs : Bytes}
    (h : l.writeAll as = .ok bs) (t : Bytes) :
    (l.read.times as.length).run (bs ++ t) = (.ok as, t) := by
  induction as generalizing bs with
  | nil =>
    cases h
    rfl
  | cons a as ih =>
    obtain ⟨front, back, h₁, h₂, rfl⟩ := writeAll_cons_eq_ok_iff.mp h
    rw [List.length_cons, Reader.run_times_succ, List.append_assoc,
      Reader.run_bind_ok (hl.read_write h₁ _), Reader.run_bind_ok (ih h₂), Reader.run_pure]

theorem write_counted_eq_ok_iff {limit : Nat} {as : List α} {out : Bytes} :
    (l.counted limit).write as = .ok out ↔ as.length ≤ limit ∧
      ∃ items, l.writeAll as = .ok items ∧ out = Bytes.ofU16 (UInt16.ofNat as.length) ++ items := by
  rw [← Nat.not_lt]
  by_cases hlim : limit < as.length
  · simp [counted, hlim, bind, Except.bind, throw, throwThe, MonadExceptOf.throw]
  · rcases h : l.writeAll as with e | items
    · simp [counted, hlim, h, bind, Except.bind, pure, Except.pure]
    · simp [counted, hlim, h, bind, Except.bind, pure, Except.pure, eq_comm]

theorem Lawful.counted {limit : Nat} (hl : l.Lawful F f) (hlimit : limit < UInt16.size) :
    (l.counted limit).Lawful (fun as => as.length ≤ limit ∧ ∀ a ∈ as, F a)
      (fun as => 2 + totalSize f as) where
  writable as := by
    rw [← hl.writeAll_writable]
    constructor
    · rintro ⟨out, h⟩
      obtain ⟨hlen, items, hi, -⟩ := write_counted_eq_ok_iff.mp h
      exact ⟨hlen, items, hi⟩
    · rintro ⟨hlen, items, hi⟩
      exact ⟨_, write_counted_eq_ok_iff.mpr ⟨hlen, items, hi, rfl⟩⟩
  length_eq {as out} h := by
    obtain ⟨-, items, hi, rfl⟩ := write_counted_eq_ok_iff.mp h
    rw [List.length_append, Bytes.length_ofU16, hl.length_writeAll hi]
  read_write {as out} h t := by
    obtain ⟨hlen, items, hi, rfl⟩ := write_counted_eq_ok_iff.mp h
    have hn : (UInt16.ofNat as.length).toNat = as.length :=
      UInt16.toNat_ofNat_of_lt' (Nat.lt_of_le_of_lt hlen hlimit)
    rw [Layout.counted, List.append_assoc, Reader.run_bind_ok (run_u16 _ _), hn,
      if_neg (Nat.not_lt.mpr hlen), hl.read_times hi]

theorem Lawful.read_untilEndOnto (hl : l.Lawful F f) (hpos : ∀ a, 0 < f a) {as : List α}
    {bs : Bytes} (h : l.writeAll as = .ok bs) {limit : Nat} (hlim : bs.length ≤ limit)
    (done : List α) :
    Reader.untilEndOnto l.read limit done bs = (.ok (done.reverse ++ as), []) := by
  induction as generalizing bs limit done with
  | nil =>
    cases h
    simp [Reader.untilEndOnto]
  | cons a as ih =>
    obtain ⟨front, back, h₁, h₂, rfl⟩ := writeAll_cons_eq_ok_iff.mp h
    have hfront : 0 < front.length := by
      rw [hl.length_eq h₁]
      exact hpos a
    rw [List.length_append] at hlim
    obtain ⟨n, rfl⟩ : ∃ n, limit = n + 1 := ⟨limit - 1, by omega⟩
    obtain ⟨b, bs, hb⟩ : ∃ b bs, front ++ back = b :: bs :=
      List.exists_cons_of_length_pos (by rw [List.length_append]; omega)
    have hread : l.read (b :: bs) = (.ok a, back) := hb ▸ hl.read_write h₁ back
    rw [hb, Reader.untilEndOnto, hread]
    simp only
    rw [ih h₂ (by omega) (a :: done), List.reverse_cons, List.append_assoc, List.singleton_append]

/-- **Bytes are read as items up to their end.** -/
theorem Lawful.read_untilEnd (hl : l.Lawful F f) (hpos : ∀ a, 0 < f a) {as : List α} {bs : Bytes}
    (h : l.writeAll as = .ok bs) : l.read.untilEnd bs = (.ok as, []) :=
  hl.read_untilEndOnto hpos h (Nat.le_refl _) []

theorem write_packed_eq_ok_iff {size : α → Nat} {as : List α} {out : Bytes} :
    (l.packed size).write as = .ok out ↔ totalSize size as < UInt32.size ∧
      ∃ items, l.writeAll as = .ok items ∧
        out = Bytes.ofU32 (UInt32.ofNat (totalSize size as)) ++ items := by
  rw [← Nat.not_le]
  by_cases hlim : UInt32.size ≤ totalSize size as
  · simp [packed, hlim, bind, Except.bind, throw, throwThe, MonadExceptOf.throw]
  · rcases h : l.writeAll as with e | items
    · simp [packed, hlim, h, bind, Except.bind, pure, Except.pure]
    · simp [packed, hlim, h, bind, Except.bind, pure, Except.pure, eq_comm]

theorem Lawful.packed (hl : l.Lawful F f) (hpos : ∀ a, 0 < f a) :
    (l.packed f).Lawful (fun as => totalSize f as < UInt32.size ∧ ∀ a ∈ as, F a)
      (fun as => 4 + totalSize f as) where
  writable as := by
    rw [← hl.writeAll_writable]
    constructor
    · rintro ⟨out, h⟩
      obtain ⟨hlen, items, hi, -⟩ := write_packed_eq_ok_iff.mp h
      exact ⟨hlen, items, hi⟩
    · rintro ⟨hlen, items, hi⟩
      exact ⟨_, write_packed_eq_ok_iff.mpr ⟨hlen, items, hi, rfl⟩⟩
  length_eq {as out} h := by
    obtain ⟨-, items, hi, rfl⟩ := write_packed_eq_ok_iff.mp h
    rw [List.length_append, Bytes.length_ofU32, hl.length_writeAll hi]
  read_write {as out} h t := by
    obtain ⟨hlen, items, hi, rfl⟩ := write_packed_eq_ok_iff.mp h
    have hblob : Reader.blob.run (Bytes.ofU32 (UInt32.ofNat (totalSize f as)) ++ items ++ t) =
        (.ok items, t) := by
      rw [← hl.length_writeAll hi] at hlen ⊢
      exact lawful_blob.read_write (writeLong_eq_ok_iff.mpr ⟨hlen, rfl⟩) t
    rw [Layout.packed, Reader.run_bind_ok hblob]
    change ((l.read.untilEnd items).1, t) = _
    rw [hl.read_untilEnd hpos hi]

end Combinations

/-! ## Composed fields -/

theorem lawful_setAttr : SetAttr.layout.Lawful (fun _ => True) (fun _ => 56) := by
  refine Lawful.congr (Lawful.map (lawful_u32.pair <| lawful_u32.pair <| lawful_u32.pair <|
    lawful_u32.pair <| lawful_u64.pair <| lawful_u64.pair <| lawful_u64.pair <|
    lawful_u64.pair lawful_u64) _ _ fun _ => rfl) (fun _ => ?_) fun _ => rfl
  simp only [and_self]

theorem lawful_qid : Qid.layout.Lawful (fun _ => True) (fun _ => Qid.size) := by
  refine Lawful.congr (Lawful.map (lawful_u8.pair <| lawful_u32.pair lawful_u64) _ _ fun _ => rfl)
    (fun _ => ?_) fun _ => rfl
  simp only [and_self]

/-- The bytes of an attribute block. -/
def attrSize : Nat := 153

theorem lawful_attr : Attr.layout.Lawful (fun _ => True) (fun _ => attrSize) := by
  refine Lawful.congr (Lawful.map (lawful_u64.pair <| lawful_qid.pair <| lawful_u32.pair <|
    lawful_u32.pair <| lawful_u32.pair <| lawful_u64.pair <| lawful_u64.pair <|
    lawful_u64.pair <| lawful_u64.pair <| lawful_u64.pair <| lawful_u64.pair <|
    lawful_u64.pair <| lawful_u64.pair <| lawful_u64.pair <| lawful_u64.pair <|
    lawful_u64.pair <| lawful_u64.pair <| lawful_u64.pair <| lawful_u64.pair lawful_u64)
    _ _ fun _ => rfl) (fun _ => ?_) fun _ => rfl
  simp only [and_self]

theorem lawful_dirEntry : DirEntry.layout.Lawful (fun e => TextFits e.name) DirEntry.size := by
  refine Lawful.congr (Lawful.map (lawful_qid.pair <| lawful_u64.pair <| lawful_u8.pair lawful_text)
    _ _ fun _ => rfl) (fun e => ?_) fun e => ?_
  · simp only [true_and]
  · simp only [textSize, DirEntry.size]
    omega

end Layout

theorem DirEntry.size_pos (e : DirEntry) : 0 < e.size := by
  unfold DirEntry.size Qid.size
  omega

end GuestShare
