import GuestShare.Metadata.CategoryFile
import GuestShare.Proofs.Outcome
import Mathlib.Data.List.Basic
import Mathlib.Tactic.Common

/-!
# Category files read back

Whatever can be written is read back the same: payloads, entries and whole files.

* `Payload.Lawful`: reading a payload undoes writing it.
* `decodeOnto_flatten`: entries are read one after the other.
* `header`, `encode_eq_ok_iff`: a file is a header and entries.
* **`decode_encode_append`**: a file holds the records that it was written from.
-/

namespace GuestShare

/-! ## Payloads -/

namespace Payload

/-- Reading undoes writing. -/
def Lawful {α : Type} (p : Payload α) : Prop := ∀ r, p.read? (p.write r) = some r

theorem lawful_permission : permission.Lawful := by
  rintro ⟨mode, uid, gid, mtime⟩
  have hlen : ¬ (Bytes.ofU16 mode ++ Bytes.ofU32 uid ++ Bytes.ofU32 gid ++
      Bytes.ofU32 mtime).length < 14 := by simp
  simp only [permission]
  rw [if_neg hlen]
  simp [List.drop_append, List.take_of_length_le, List.drop_of_length_le]

theorem lawful_target : target.Lawful := Bytes.toText?_ofText

theorem lawful_kind : kind.Lawful := fun k => congrArg some (NodeKind.ofByte_byte k)

theorem lawful_device : device.Lawful := by
  rintro ⟨k, major, minor⟩
  cases k <;> simp [device, List.take_of_length_le]

end Payload

/-! ## Maps from lists -/

theorem Records.foldl_insert_toList {α : Type} (rs : Records α) :
    rs.toList.foldl (fun t e => t.insert e.1 e.2) (∅ : Records α) = rs := by
  rw [← Std.ExtTreeMap.insertMany_list_eq_foldl]
  refine Std.ExtTreeMap.ext_getElem? fun k => ?_
  cases hk : rs[k]? with
  | none =>
    rw [Std.ExtTreeMap.getElem?_insertMany_list_of_contains_eq_false]
    · simp
    · simpa [Std.ExtTreeMap.map_fst_toList_eq_keys] using hk
  | some r =>
    exact Std.ExtTreeMap.getElem?_insertMany_list_of_mem Std.ReflCmp.compare_self
      Std.ExtTreeMap.distinct_keys_toList
      (Std.ExtTreeMap.mem_toList_iff_getElem?_eq_some.mpr hk)

namespace CategoryFile

variable {α : Type} {p : Payload α} {c : Category} {rs : Records α} {bs : Bytes}

/-! ## Entries -/

theorem entry_eq_ok_iff {key : String} {r : α} :
    entry p c (key, r) = .ok bs ↔ ∃ k v, field c (Bytes.ofText key) = .ok k ∧
      field c (p.write r) = .ok v ∧ k ++ v = bs := by
  simp only [entry, Outcome.bind_eq_ok_iff, Outcome.pure_eq_ok, Except.ok.injEq]
  constructor
  · rintro ⟨k, hk, v, hv, he⟩
    exact ⟨k, v, hk, hv, he⟩
  · rintro ⟨k, v, hk, hv, he⟩
    exact ⟨k, hk, v, hv, he⟩

theorem decodeOnto_entry (hp : p.Lawful) {e : String × α} (he : entry p c e = .ok bs) (count : Nat)
    (rest : Bytes) :
    decodeOnto p (count + 1) rs (bs ++ rest) = decodeOnto p count (rs.insert e.1 e.2) rest := by
  obtain ⟨k, v, hk, hv, rfl⟩ := entry_eq_ok_iff.mp he
  rw [List.append_assoc, decodeOnto, splitField_field hk]
  simp only [splitField_field hv, Bytes.toText?_ofText, hp e.2]

/-- **Entries are read one after the other**, each adding its record, and then what follows them. -/
theorem decodeOnto_flatten (hp : p.Lawful) {es : List (String × α)} {fields : List Bytes}
    (he : es.mapM (entry p c) = .ok fields) (count : Nat) (rest : Bytes) :
    decodeOnto p (es.length + count) rs (fields.flatten ++ rest) =
      decodeOnto p count (es.foldl (fun t e => t.insert e.1 e.2) rs) rest := by
  induction es generalizing rs fields with
  | nil =>
    cases he
    rw [List.length_nil, Nat.zero_add]
    rfl
  | cons e es ih =>
    rw [List.mapM_cons] at he
    obtain ⟨front, hfront, he⟩ := Outcome.bind_eq_ok_iff.mp he
    obtain ⟨back, hback, he⟩ := Outcome.bind_eq_ok_iff.mp he
    cases he
    rw [List.length_cons, List.flatten_cons, List.append_assoc, Nat.succ_add,
      decodeOnto_entry hp hfront, ih hback]
    rfl

/-! ## Files -/

theorem length_mark : mark.length = 4 := by decide

/-- The bytes before the entries. -/
def header (count : Nat) : Bytes := mark ++ Bytes.ofU16 version ++ Bytes.ofNat 2 count

@[simp] theorem length_header (count : Nat) : (header count).length = 8 := by
  simp [header, length_mark]

theorem decode_header {count : Nat} (hn : count ≤ limit) (body : Bytes) :
    decode p (header count ++ body) = some (decodeOnto p count ∅ body) := by
  have htake : (header count ++ body).take 8 = header count := List.take_left' (length_header _)
  have hdrop : (header count ++ body).drop 8 = body := List.drop_left' (length_header _)
  have hmark : (header count).take 4 = mark := by
    rw [header, List.append_assoc, List.take_left' length_mark]
  have hrest : (header count).drop 4 = Bytes.ofU16 version ++ Bytes.ofNat 2 count := by
    rw [header, List.append_assoc, List.drop_left' length_mark]
  have hversion : Bytes.toU16 (((header count).drop 4).take 2) = version := by
    rw [hrest, List.take_left' (Bytes.length_ofU16 _), Bytes.toU16_ofU16]
  have hcount : Bytes.toNat ((header count).drop 6) = count := by
    have hlt : count < Bytes.bound 2 := Nat.lt_succ_of_le hn
    rw [show 6 = 4 + 2 from rfl, ← List.drop_drop, hrest,
      List.drop_left' (Bytes.length_ofU16 _), Bytes.toNat_ofNat, Nat.mod_eq_of_lt hlt]
  unfold decode
  simp only [htake, hdrop, length_header, hmark, hversion, hcount, Nat.lt_irrefl, decide_false,
    ne_eq, not_true_eq_false, Bool.or_self, Bool.false_eq_true, if_false]

theorem encode_eq_ok_iff : encode p c rs = .ok bs ↔
    rs.size ≤ limit ∧ ∃ fields,
      rs.toList.mapM (entry p c) = .ok fields ∧ header rs.size ++ fields.flatten = bs := by
  unfold encode
  split_ifs with hlim
  · constructor
    · intro h
      cases h
    · rintro ⟨hle, -⟩
      exact absurd hle (Nat.not_le_of_lt hlim)
  · constructor
    · intro h
      obtain ⟨fields, hfields, hbs⟩ := Outcome.bind_eq_ok_iff.mp h
      cases hbs
      exact ⟨Nat.le_of_not_lt hlim, fields, hfields, rfl⟩
    · rintro ⟨-, fields, hfields, rfl⟩
      exact Outcome.bind_eq_ok_iff.mpr ⟨fields, hfields, rfl⟩

theorem length_le_of_encode {key : String} {r : α} (he : encode p c rs = .ok bs)
    (hr : rs[key]? = some r) : (p.write r).length ≤ limit := by
  obtain ⟨-, fields, hfields, -⟩ := encode_eq_ok_iff.mp he
  obtain ⟨out, hout⟩ := Outcome.exists_of_mapM_eq_ok hfields
    (Std.ExtTreeMap.mem_toList_iff_getElem?_eq_some.mpr hr)
  obtain ⟨_, v, -, hv, -⟩ := entry_eq_ok_iff.mp hout
  unfold field at hv
  simp only at hv
  split_ifs at hv with hlim
  exact Nat.le_of_not_lt hlim

/-- **A file holds the records that it was written from**, whatever follows it. -/
theorem decode_encode_append (hp : p.Lawful) (he : encode p c rs = .ok bs) (rest : Bytes) :
    decode p (bs ++ rest) = some rs := by
  obtain ⟨hlim, fields, hfields, rfl⟩ := encode_eq_ok_iff.mp he
  have hread : decodeOnto p (rs.toList.length + 0) ∅ (fields.flatten ++ rest) =
      decodeOnto p 0 (rs.toList.foldl (fun t e => t.insert e.1 e.2) ∅) rest :=
    decodeOnto_flatten hp hfields 0 rest
  rw [Nat.add_zero, Std.ExtTreeMap.length_toList, Records.foldl_insert_toList] at hread
  rw [List.append_assoc, decode_header hlim, hread]
  rfl

theorem decode_encode (hp : p.Lawful) (he : encode p c rs = .ok bs) : decode p bs = some rs := by
  simpa using decode_encode_append hp he []

end CategoryFile

end GuestShare
