import GuestShare.Proofs.Metadata.Encoding

/-!
# Category files cut short

Of a file that is cut somewhere, the entries that are whole are read, and what is left of the next
one is no entry: a field that is cut, in its length or behind it, is no field.

* `CategoryFile.wholeCount`: how many entries end within the first bytes of a file.
* `splitField_take`, `decodeOnto_entry_take`: fields and entries that are cut.
* **`decodeOnto_take`**: the entries that are whole are read, and nothing else.
* **`decode_truncated`**: what is read from a category file that is cut anywhere.
-/

namespace GuestShare

theorem Records.toList_foldl_insert {α : Type} {l : List (String × α)}
    (hl : l.Pairwise fun a b => compare a.1 b.1 = .lt) :
    (l.foldl (fun t e => t.insert e.1 e.2) (∅ : Records α)).toList = l := by
  have hdistinct : l.Pairwise fun a b => ¬ compare a.1 b.1 = .eq :=
    hl.imp fun h => by simp [h]
  rw [← Std.ExtTreeMap.insertMany_list_eq_foldl]
  set t := (∅ : Records α).insertMany l with ht
  have hmem : ∀ x, x ∈ t.toList ↔ x ∈ l := by
    rintro ⟨k, r⟩
    rw [Std.ExtTreeMap.mem_toList_iff_getElem?_eq_some, ht]
    constructor
    · intro hr
      by_cases hk : ∃ r', (k, r') ∈ l
      · obtain ⟨r', hr'⟩ := hk
        rw [Std.ExtTreeMap.getElem?_insertMany_list_of_mem Std.ReflCmp.compare_self hdistinct hr']
          at hr
        cases hr
        exact hr'
      · rw [Std.ExtTreeMap.getElem?_insertMany_list_of_contains_eq_false] at hr
        · simp at hr
        · simpa using hk
    · exact Std.ExtTreeMap.getElem?_insertMany_list_of_mem Std.ReflCmp.compare_self hdistinct
  have hne : ∀ {a b : String × α}, compare a.1 b.1 = .lt → a ≠ b := by
    rintro a b hlt rfl
    simp at hlt
  have hperm : t.toList.Perm l :=
    (List.perm_ext_iff_of_nodup (Std.ExtTreeMap.ordered_keys_toList.imp hne) (hl.imp hne)).mpr hmem
  refine hperm.eq_of_pairwise (fun a b _ _ hab hba => ?_) Std.ExtTreeMap.ordered_keys_toList hl
  have hswap : compare b.1 a.1 = (compare a.1 b.1).swap := Std.OrientedCmp.eq_swap
  rw [hswap, hab] at hba
  cases hba

namespace CategoryFile

variable {α : Type} {p : Payload α} {c : Category} {rs : Records α} {bs out : Bytes}
  {start n : Nat}

/-! ## Pieces of a file -/

/-- Where a piece ends, of pieces that lie one behind the other. -/
def pieceEnd (start : Nat) (pieces : List Bytes) (i : Nat) : Nat :=
  start + (pieces.take (i + 1)).flatten.length

/-- How many of some pieces that lie one behind the other end within the first `n` bytes. -/
def wholeCount (start n : Nat) (pieces : List Bytes) : Nat :=
  (List.range pieces.length).countP fun i => pieceEnd start pieces i ≤ n

theorem wholeCount_eq_zero {pieces : List Bytes} (h : ∀ i, n < pieceEnd start pieces i) :
    wholeCount start n pieces = 0 :=
  List.countP_eq_zero.mpr fun i _ => by simpa using h i

theorem wholeCount_cons (piece : Bytes) (pieces : List Bytes) :
    wholeCount start n (piece :: pieces) =
      if start + piece.length ≤ n then wholeCount (start + piece.length) n pieces + 1 else 0 := by
  have hend : ∀ i, pieceEnd start (piece :: pieces) (i + 1) =
      pieceEnd (start + piece.length) pieces i := fun i => by
    simp [pieceEnd, Nat.add_assoc]
  have hfirst : pieceEnd start (piece :: pieces) 0 = start + piece.length := by simp [pieceEnd]
  split_ifs with hle
  · unfold wholeCount
    rw [List.length_cons, List.range_succ_eq_map, List.countP_cons, List.countP_map, hfirst]
    simp only [Function.comp_def, Nat.succ_eq_add_one, hend, decide_eq_true_eq, if_pos hle]
  · refine wholeCount_eq_zero fun i => Nat.lt_of_lt_of_le (Nat.lt_of_not_le hle) ?_
    rw [pieceEnd, List.take_succ_cons, List.flatten_cons, List.length_append]
    omega

/-! ## What is cut -/

theorem splitField_take (hf : field c bs = .ok out) (hn : n < out.length) :
    splitField (out.take n) = none := by
  rw [field_eq] at hf
  split_ifs at hf with hlim
  cases hf
  have hlt : bs.length < Bytes.bound 2 := Nat.lt_succ_of_le (Nat.le_of_not_lt hlim)
  have hread : Bytes.toNat (Bytes.ofNat 2 bs.length) = bs.length := by
    rw [Bytes.toNat_ofNat, Nat.mod_eq_of_lt hlt]
  rw [List.length_append, Bytes.length_ofNat] at hn
  match n with
  | 0 => rfl
  | 1 => rfl
  | n + 2 =>
    simp only [Bytes.ofNat] at hread
    have hcut : ¬ (bs.take n).length = bs.length := by
      rw [List.length_take]
      omega
    simp [Bytes.ofNat, splitField, hread] at hcut ⊢
    omega

theorem decodeOnto_entry_take {x : String × α} (he : entry p c x = .ok out) (hn : n < out.length)
    (count : Nat) : decodeOnto p (count + 1) rs (out.take n) = rs := by
  obtain ⟨k, v, hk, hv, rfl⟩ := entry_eq_ok_iff.mp he
  rw [decodeOnto]
  by_cases hkey : n < k.length
  · rw [List.take_append_of_le_length (Nat.le_of_lt hkey), splitField_take hk hkey]
  · have hvalue : n - k.length < v.length := by
      rw [List.length_append] at hn
      omega
    rw [List.take_append, List.take_of_length_le (Nat.le_of_not_lt hkey), splitField_field hk]
    simp only [splitField_take hv hvalue]

/-- **The entries that are whole are read, and nothing else.** -/
theorem decodeOnto_take (hp : p.Lawful) {es : List (String × α)} {fields : List Bytes}
    (he : es.mapM (entry p c) = .ok fields) (hn : start ≤ n) :
    decodeOnto p es.length rs (fields.flatten.take (n - start)) =
      (es.take (wholeCount start n fields)).foldl (fun t e => t.insert e.1 e.2) rs := by
  induction es generalizing rs fields start with
  | nil =>
    rw [List.take_nil]
    rfl
  | cons x es ih =>
    rw [List.mapM_cons] at he
    obtain ⟨front, hfront, he⟩ := Outcome.bind_eq_ok_iff.mp he
    obtain ⟨back, hback, he⟩ := Outcome.bind_eq_ok_iff.mp he
    cases he
    rw [List.length_cons, List.flatten_cons, wholeCount_cons]
    split_ifs with hle
    · have hrest : n - start - front.length = n - (start + front.length) := by omega
      rw [List.take_append, List.take_of_length_le (by omega), decodeOnto_entry hp hfront, hrest,
        ih hback hle]
      rfl
    · have hcut : n - start < front.length := by omega
      rw [List.take_append_of_le_length (Nat.le_of_lt hcut), decodeOnto_entry_take hfront hcut]
      rfl

theorem decode_of_short (hbs : bs.length < 8) : decode p bs = none := by
  have hlen : (bs.take 8).length < 8 := Nat.lt_of_le_of_lt (List.length_take_le' _ _) hbs
  simp only [decode, hlen, decide_true, Bool.true_or, if_true]

theorem decode_take (hp : p.Lawful) {fields : List Bytes}
    (hfields : rs.toList.mapM (entry p c) = .ok fields) (hlim : rs.size ≤ limit) (hn : 8 ≤ n) :
    ∃ rs', decode p ((header rs.size ++ fields.flatten).take n) = some rs' ∧
      rs'.toList = rs.toList.take (wholeCount 8 n fields) := by
  refine ⟨_, ?_, Records.toList_foldl_insert
    (Std.ExtTreeMap.ordered_keys_toList.sublist (List.take_sublist _ _))⟩
  rw [List.take_append, List.take_of_length_le (by simpa using hn), length_header,
    decode_header hlim]
  have hread : decodeOnto p rs.toList.length ∅ (fields.flatten.take (n - 8)) =
      (rs.toList.take (wholeCount 8 n fields)).foldl (fun t e => t.insert e.1 e.2) ∅ :=
    decodeOnto_take hp hfields hn
  rw [Std.ExtTreeMap.length_toList] at hread
  rw [hread]

end CategoryFile

namespace Store

theorem records_load_of_fileBytes {c : Category} {dir : String} {h : Host} {bs : Bytes}
    (hb : h.fileBytes ((dirPath dir).child (Name.ofText c.fileName)) = .ok bs) :
    (load dir h).records c = (CategoryFile.decode c.payload bs).getD ∅ := by
  rw [records_load]
  unfold loadRecords
  rw [hb]

end Store

namespace CategoryFile

/-- **Of a file that is cut short only its end is lost.** It is not read if less than its header is
left. Else the entries that end within what is left are read, in their order and as they were, and
nothing else; and so they are loaded. -/
theorem decode_truncated (c : Category) {rs : Records c.Record} {bs : Bytes}
    (he : encode c.payload c rs = .ok bs) :
    ∃ fields, rs.toList.mapM (entry c.payload c) = .ok fields ∧
      bs = header rs.size ++ fields.flatten ∧
      ∀ n,
        (decode c.payload (bs.take n) = none ↔ n < 8) ∧
        (8 ≤ n → ∃ rs', decode c.payload (bs.take n) = some rs' ∧
          rs'.toList = rs.toList.take (wholeCount 8 n fields)) ∧
        ∀ dir (h : Host),
          h.fileBytes ((Store.dirPath dir).child (Name.ofText c.fileName)) = .ok (bs.take n) →
            ((Store.load dir h).records c).toList = rs.toList.take (wholeCount 8 n fields) := by
  obtain ⟨hlim, fields, hfields, rfl⟩ := encode_eq_ok_iff.mp he
  refine ⟨fields, hfields, rfl, fun n => ?_⟩
  by_cases hn : n < 8
  · have hnone : decode c.payload ((header rs.size ++ fields.flatten).take n) = none :=
      decode_of_short (Nat.lt_of_le_of_lt (List.length_take_le _ _) hn)
    have hcount : wholeCount 8 n fields = 0 :=
      wholeCount_eq_zero fun i => Nat.lt_of_lt_of_le hn (Nat.le_add_right _ _)
    refine ⟨⟨fun _ => hn, fun _ => hnone⟩, fun hle => absurd hn (Nat.not_lt_of_le hle),
      fun dir h hb => ?_⟩
    rw [Store.records_load_of_fileBytes hb, hnone, hcount]
    rfl
  · have hle : 8 ≤ n := Nat.le_of_not_lt hn
    obtain ⟨rs', hdecode, hlist⟩ := decode_take c.lawful_payload hfields hlim hle
    refine ⟨⟨fun hnone => ?_, fun hlt => absurd hlt hn⟩, fun _ => ⟨rs', hdecode, hlist⟩,
      fun dir h hb => ?_⟩
    · rw [hdecode] at hnone
      cases hnone
    · rw [Store.records_load_of_fileBytes hb, hdecode]
      exact hlist

/-- The kinds of two nodes. -/
def twoKinds : Records NodeKind := .ofList [("a", NodeKind.fifo), ("b", NodeKind.socket)]

theorem encode_twoKinds :
    encode .kind .types twoKinds = .ok (header 2 ++ [1, 0, 97, 1, 0, 5, 1, 0, 98, 1, 0, 6]) ∧
      twoKinds.toList.mapM (entry .kind .types) =
        .ok [[1, 0, 97, 1, 0, 5], [1, 0, 98, 1, 0, 6]] := by
  constructor <;> decide +kernel

/-- One byte is missing at the end, and so is the second of two kinds. -/
theorem decode_truncated_kinds :
    ∃ bs, encode .kind .types twoKinds = .ok bs ∧ bs.length = 20 ∧
      decode .kind (bs.take 7) = none ∧
      ∃ rs', decode .kind (bs.take 19) = some rs' ∧ rs'.toList = [("a", .fifo)] := by
  obtain ⟨he, hentries⟩ := encode_twoKinds
  obtain ⟨fields, hfields, -, hcut⟩ := decode_truncated .types he
  cases hentries.symm.trans hfields
  obtain ⟨rs', hdecode, hlist⟩ := (hcut 19).2.1 (by decide)
  exact ⟨_, he, rfl, (hcut 7).1.mpr (by decide), rs', hdecode, hlist⟩

end CategoryFile

end GuestShare
