import GuestShare.Proofs.Metadata.ByCategory

/-!
# What category files can hold

Records can be written exactly if there are not too many of them and none of their fields is too
long. Whatever is read from a file can be written again: in a file every length has two bytes, so
nothing that is read has more than they can count.

* `CategoryFile.lengths`: the lengths of the fields of some entries, in the order of the file.
* `CategoryFile.Holdable`: records that a file can hold.
* **`encode_eq_error_iff`**: why records cannot be written, the first field that is too long first.
* **`holdable_of_decode`**: what is read can be written.
* **`records_roundTrip`**: for each category, files and records belong together.
-/

namespace GuestShare

/-- What is read from bytes that fit a field fits one when it is written again. -/
def Payload.Refits {α : Type} (p : Payload α) : Prop :=
  ∀ bs r, bs.length ≤ CategoryFile.limit → p.read? bs = some r →
    (p.write r).length ≤ CategoryFile.limit

theorem Category.refits_payload (c : Category) : c.payload.Refits := by
  intro bs r hlen hr
  cases c with
  | permissions => simp [payload, Payload.permission, CategoryFile.limit]
  | symlinks =>
    obtain rfl := Bytes.toText?_eq_some_iff.mp hr
    exact hlen
  | types => simp [payload, Payload.kind, CategoryFile.limit]
  | devices => simp [payload, Payload.device, CategoryFile.limit]

namespace CategoryFile

variable {α : Type} {p : Payload α} {c : Category} {rs : Records α} {bs : Bytes} {e : StoreError}

/-! ## Fields that are too long -/

/-- The lengths of the fields of an entry, the key before the record. -/
def entryLengths (p : Payload α) (e : String × α) : List Nat :=
  [(Bytes.ofText e.1).length, (p.write e.2).length]

/-- The lengths of the fields of some entries, in the order in which they are written. -/
def lengths (p : Payload α) (es : List (String × α)) : List Nat := es.flatMap (entryLengths p)

/-- Neither the key nor the record of an entry is too long. -/
def Fits (p : Payload α) (key : String) (r : α) : Prop :=
  (Bytes.ofText key).length ≤ limit ∧ (p.write r).length ≤ limit

/-- Records that a file can hold. -/
structure Holdable (p : Payload α) (rs : Records α) : Prop where
  size : rs.size ≤ limit
  fits : ∀ key r, rs[key]? = some r → Fits p key r

theorem field_eq (c : Category) (bs : Bytes) :
    field c bs = if limit < bs.length then .error (.fieldTooLong c bs.length)
      else .ok (Bytes.ofNat 2 bs.length ++ bs) := rfl

theorem entry_eq_error_iff {x : String × α} : entry p c x = .error e ↔
    ∃ n, (entryLengths p x).find? (limit < ·) = some n ∧ e = .fieldTooLong c n := by
  obtain ⟨key, r⟩ := x
  simp only [entry, entryLengths, field_eq, List.find?]
  by_cases hk : limit < (Bytes.ofText key).length
  · simp [hk, eq_comm]
  · by_cases hv : limit < (p.write r).length
    · simp [hk, hv, eq_comm]
    · simp [hk, hv]

theorem mapM_entry_eq_error_iff {es : List (String × α)} : es.mapM (entry p c) = .error e ↔
    ∃ n, (lengths p es).find? (limit < ·) = some n ∧ e = .fieldTooLong c n := by
  induction es with
  | nil => simp [lengths]
  | cons x es ih =>
    rw [List.mapM_cons, lengths, List.flatMap_cons, List.find?_append, ← lengths]
    cases hx : entry p c x with
    | error e' =>
      obtain ⟨n, hn, rfl⟩ := entry_eq_error_iff.mp hx
      simp [hn, eq_comm]
    | ok out =>
      have hnone : (entryLengths p x).find? (limit < ·) = none := by
        cases hf : (entryLengths p x).find? (limit < ·) with
        | none => rfl
        | some n =>
          rw [entry_eq_error_iff.mpr ⟨n, hf, rfl⟩] at hx
          cases hx
      rw [hnone, Option.none_or, ← ih]
      cases es.mapM (entry p c) <;> simp

/-- **Records cannot be written if there are too many of them, or else if a field is too long.** Of
several such fields the first one counts. -/
theorem encode_eq_error_iff : encode p c rs = .error e ↔
    limit < rs.size ∧ e = .tooManyEntries c rs.size ∨
      rs.size ≤ limit ∧
        ∃ n, (lengths p rs.toList).find? (limit < ·) = some n ∧ e = .fieldTooLong c n := by
  unfold encode
  by_cases hlim : limit < rs.size
  · have hnot : ¬ rs.size ≤ limit := Nat.not_le_of_lt hlim
    simp [hlim, hnot, eq_comm]
  · have hle : rs.size ≤ limit := Nat.le_of_not_lt hlim
    simp only [hlim, if_false, hle, false_and, true_and, false_or, ← mapM_entry_eq_error_iff]
    cases rs.toList.mapM (entry p c) <;> simp

theorem find?_lengths_eq_none_iff : (lengths p rs.toList).find? (limit < ·) = none ↔
    ∀ key r, rs[key]? = some r → Fits p key r := by
  simp only [List.find?_eq_none, lengths, List.mem_flatMap, entryLengths, Prod.exists,
    ← Std.ExtTreeMap.mem_toList_iff_getElem?_eq_some, decide_eq_true_eq, Nat.not_lt, Fits]
  constructor
  · intro h key r hr
    exact ⟨h _ ⟨key, r, hr, by simp⟩, h _ ⟨key, r, hr, by simp⟩⟩
  · rintro h n ⟨key, r, hr, hn⟩
    rcases List.mem_pair.mp hn with rfl | rfl
    · exact (h key r hr).1
    · exact (h key r hr).2

/-- **Records can be written exactly if a file can hold them.** -/
theorem encode_isOk_iff : (∃ bs, encode p c rs = .ok bs) ↔ Holdable p rs := by
  have hnot : (∃ bs, encode p c rs = .ok bs) ↔ ¬ ∃ e, encode p c rs = .error e := by
    cases encode p c rs <;> simp
  rw [hnot]
  simp only [encode_eq_error_iff]
  constructor
  · intro h
    have hsize : rs.size ≤ limit := Nat.le_of_not_lt fun hlt => h ⟨_, .inl ⟨hlt, rfl⟩⟩
    refine ⟨hsize, find?_lengths_eq_none_iff.mp ?_⟩
    cases hf : (lengths p rs.toList).find? (limit < ·) with
    | none => rfl
    | some n => exact absurd ⟨_, .inr ⟨hsize, n, hf, rfl⟩⟩ h
  · rintro ⟨hsize, hfits⟩ ⟨e, ⟨hlt, -⟩ | ⟨-, n, hn, -⟩⟩
    · exact Nat.not_le_of_lt hlt hsize
    · rw [find?_lengths_eq_none_iff.mpr hfits] at hn
      cases hn

/-! ## What is read -/

theorem length_splitField_le {front rest : Bytes} (hs : splitField bs = some (front, rest)) :
    front.length ≤ limit := by
  unfold splitField at hs
  split at hs
  next low high more =>
    simp only at hs
    split_ifs at hs with hlen
    cases hs
    rw [hlen]
    exact Nat.le_of_lt_succ (Bytes.toNat_lt [low, high])
  next => cases hs

theorem size_decodeOnto_le {count : Nat} : (decodeOnto p count rs bs).size ≤ rs.size + count := by
  induction count generalizing rs bs with
  | zero => exact Nat.le_refl _
  | succ count ih =>
    rw [decodeOnto]
    split
    next => exact Nat.le_add_right _ _
    next key bs₁ _ =>
      split
      next => exact Nat.le_add_right _ _
      next value bs₂ _ =>
        split
        next k r _ _ =>
          have hinsert : (rs.insert k r).size ≤ rs.size + 1 := Std.ExtTreeMap.size_insert_le
          have hmore : (decodeOnto p count (rs.insert k r) bs₂).size ≤
              (rs.insert k r).size + count := ih
          omega
        next =>
          have hmore : (decodeOnto p count rs bs₂).size ≤ rs.size + count := ih
          omega

theorem decodeOnto_forall {P : String → α → Prop}
    (hentry : ∀ key value k r, key.length ≤ limit → value.length ≤ limit →
      Bytes.toText? key = some k → p.read? value = some r → P k r)
    {count : Nat} (hrs : ∀ k r, rs[k]? = some r → P k r) :
    ∀ k r, (decodeOnto p count rs bs)[k]? = some r → P k r := by
  induction count generalizing rs bs with
  | zero => exact hrs
  | succ count ih =>
    rw [decodeOnto]
    split
    next => exact hrs
    next key bs₁ hkey =>
      split
      next => exact hrs
      next value bs₂ hvalue =>
        split
        next k r hk hr =>
          refine ih fun k' r' hr' => ?_
          rw [Std.ExtTreeMap.getElem?_insert] at hr'
          split_ifs at hr' with he
          · cases hr'
            obtain rfl : k = k' := by simpa using he
            exact hentry key value k r (length_splitField_le hkey) (length_splitField_le hvalue)
              hk hr
          · exact hrs k' r' hr'
        next => exact ih hrs

theorem exists_of_decode (hd : decode p bs = some rs) :
    ∃ count ≤ limit, decodeOnto p count ∅ (bs.drop 8) = rs := by
  unfold decode at hd
  simp only at hd
  split_ifs at hd with hbad
  cases hd
  simp only [Bool.or_eq_true, decide_eq_true_eq, not_or] at hbad
  have hlen : ((bs.take 8).drop 6).length = 2 := by
    have := hbad.1.1
    simp only [List.length_drop, List.length_take] at this ⊢
    omega
  have hlt := Bytes.toNat_lt ((bs.take 8).drop 6)
  rw [hlen] at hlt
  exact ⟨_, Nat.le_of_lt_succ hlt, rfl⟩

/-- **Whatever is read from a file can be written again.** -/
theorem holdable_of_decode (hfit : p.Refits) (hd : decode p bs = some rs) : Holdable p rs := by
  obtain ⟨count, hcount, rfl⟩ := exists_of_decode hd
  refine ⟨?_, decodeOnto_forall (fun key value k r hk hv htext hr => ?_) fun k r hr => ?_⟩
  · have hsize : (decodeOnto p count ∅ (bs.drop 8)).size ≤ (∅ : Records α).size + count :=
      size_decodeOnto_le
    rw [Std.ExtTreeMap.size_empty, Nat.zero_add] at hsize
    exact Nat.le_trans hsize hcount
  · obtain rfl := Bytes.toText?_eq_some_iff.mp htext
    exact ⟨hk, hfit value r hv hr⟩
  · simp at hr

/-! ## The four categories -/

/-- **Files and records belong together.** The records of a category can be written exactly if a
file can hold them; if not, there are too many of them, or else the first field that is too long is
the reason. They are read back from their file whatever follows it, and whatever is read from a file
can be written again and is read back from that. -/
theorem records_roundTrip (c : Category) :
    (∀ rs : Records c.Record,
      ((∃ bs, encode c.payload c rs = .ok bs) ↔ Holdable c.payload rs) ∧
        (∀ e, encode c.payload c rs = .error e ↔
          limit < rs.size ∧ e = .tooManyEntries c rs.size ∨
            rs.size ≤ limit ∧ ∃ n,
              (lengths c.payload rs.toList).find? (limit < ·) = some n ∧ e = .fieldTooLong c n) ∧
        ∀ bs, encode c.payload c rs = .ok bs → ∀ rest, decode c.payload (bs ++ rest) = some rs) ∧
      ∀ bs rs, decode c.payload bs = some rs →
        ∃ out, encode c.payload c rs = .ok out ∧ decode c.payload out = some rs := by
  refine ⟨fun rs => ⟨encode_isOk_iff, fun e => encode_eq_error_iff, fun bs he rest =>
    decode_encode_append c.lawful_payload he rest⟩, fun bs rs hd => ?_⟩
  obtain ⟨out, he⟩ := encode_isOk_iff.mpr (holdable_of_decode c.refits_payload hd)
  exact ⟨out, he, decode_encode c.lawful_payload he⟩

end CategoryFile

end GuestShare
