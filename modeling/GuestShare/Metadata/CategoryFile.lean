import GuestShare.Metadata.Basic
import GuestShare.Metadata.Ledger

/-!
# Category files

The records of a category are kept in one file: a header with the format's mark, its version and
the number of entries, then the entries sorted by key. A key and a record are each written behind
their length. Lengths and the number of entries have two bytes.

* `CategoryFile.encode`: the file of some records, if the lengths fit.
* `CategoryFile.decode`: the records in a file. Entries that are no records are left out, and what
  is cut off at the end is lost.
* `StoreError`: why records cannot be written.
* **`splitField_field`**: a field is read as it was written, whatever follows.
-/

namespace GuestShare

/-- Why records cannot be written. -/
inductive StoreError
  /-- The host refused a file. -/
  | io
  | tooManyEntries (category : Category) (count : Nat)
  | fieldTooLong (category : Category) (length : Nat)
deriving Repr, DecidableEq

/-- The wording of a store error. -/
def StoreError.message : StoreError → String
  | io => "metadata i/o"
  | tooManyEntries c n => s!"{c.name} holds {n} entries, more than the file format allows"
  | fieldTooLong c n => s!"{c.name} field of {n} bytes exceeds the file format limit"

namespace CategoryFile

/-- The first bytes of a file. -/
def mark : Bytes := Bytes.ofText "V87M"

/-- The version of the format. -/
def version : UInt16 := 1

/-- The most entries, and the most bytes of a field. -/
def limit : Nat := 65535

/-! ## Fields -/

/-- A field behind its length. -/
def field (c : Category) (bs : Bytes) : Except StoreError Bytes :=
  let n := bs.length
  if limit < n then .error (.fieldTooLong c n) else .ok (Bytes.ofNat 2 n ++ bs)

/-- The field at the front, and what follows. -/
def splitField : Bytes → Option (Bytes × Bytes)
  | low :: high :: rest =>
    let n := Bytes.toNat [low, high]
    let bs := rest.take n
    if bs.length = n then some (bs, rest.drop n) else none
  | _ => none

/-- **A field is read as it was written, whatever follows.** -/
theorem splitField_field {c : Category} {bs out : Bytes} (h : field c bs = .ok out) (rest : Bytes) :
    splitField (out ++ rest) = some (bs, rest) := by
  unfold field at h
  simp only at h
  split at h
  · cases h
  next hn =>
    cases h
    have hlen : Bytes.toNat (Bytes.ofNat 2 bs.length) = bs.length := by
      have hlt : bs.length < Bytes.bound 2 := Nat.lt_succ_of_le (Nat.le_of_not_lt hn)
      rw [Bytes.toNat_ofNat, Nat.mod_eq_of_lt hlt]
    simp only [Bytes.ofNat] at hlen
    simp [Bytes.ofNat, splitField, hlen]

/-! ## Files -/

/-- One entry. -/
def entry {α : Type} (p : Payload α) (c : Category) : String × α → Except StoreError Bytes
  | (key, r) => do
    let k ← field c (Bytes.ofText key)
    let v ← field c (p.write r)
    return k ++ v

/-- The file of some records. -/
def encode {α : Type} (p : Payload α) (c : Category) (rs : Records α) :
    Except StoreError Bytes := do
  if limit < rs.size then throw (.tooManyEntries c rs.size)
  let entries ← rs.toList.mapM (entry p c)
  return mark ++ Bytes.ofU16 version ++ Bytes.ofNat 2 rs.size ++ entries.flatten

/-- The records in at most `count` entries, added to those already found. -/
def decodeOnto {α : Type} (p : Payload α) : (count : Nat) → Records α → Bytes → Records α
  | 0, rs, _ => rs
  | count + 1, rs, bs =>
    match splitField bs with
    | none => rs
    | some (key, bs) =>
      match splitField bs with
      | none => rs
      | some (value, bs) =>
        match Bytes.toText? key, p.read? value with
        | some k, some r => decodeOnto p count (rs.insert k r) bs
        | _, _ => decodeOnto p count rs bs

/-- The records in a file, if its header is sound. -/
def decode {α : Type} (p : Payload α) (bs : Bytes) : Option (Records α) :=
  let head := bs.take 8
  if head.length < 8 || head.take 4 ≠ mark || Bytes.toU16 ((head.drop 4).take 2) ≠ version then none
  else some (decodeOnto p (Bytes.toNat (head.drop 6)) ∅ (bs.drop 8))

end CategoryFile

end GuestShare
