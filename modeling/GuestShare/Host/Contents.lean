import GuestShare.Bytes

/-!
# File contents

A file may be far longer than what was ever written to it: setting its length, or writing behind
its end, leaves a hole that reads as zeros. Contents are therefore kept as runs, of bytes or of
zeros.

* `Contents.toList`: the bytes that a reader sees.
* `Contents.slice`, `Contents.resize`, `Contents.overwrite`: reading a part, setting the length,
  writing at an offset.
* **`toList_take`**, **`toList_drop`**, **`toList_append`**: the parts of the contents are the
  parts of the bytes.
-/

namespace GuestShare

/-- A part of a file. -/
inductive Run
  | bytes (bs : Bytes)
  | zeros (n : Nat)
deriving Repr, DecidableEq

namespace Run

/-- How long a run is. -/
def length : Run → Nat
  | bytes bs => bs.length
  | zeros n => n

/-- The bytes of a run. -/
def toList : Run → Bytes
  | bytes bs => bs
  | zeros n => List.replicate n 0

/-- The first `n` bytes. -/
def take (n : Nat) : Run → Run
  | bytes bs => bytes (bs.take n)
  | zeros m => zeros (min n m)

/-- All but the first `n` bytes. -/
def drop (n : Nat) : Run → Run
  | bytes bs => bytes (bs.drop n)
  | zeros m => zeros (m - n)

@[simp] theorem length_toList (r : Run) : r.toList.length = r.length := by
  cases r <;> simp [toList, length]

@[simp] theorem toList_take (n : Nat) (r : Run) : (r.take n).toList = r.toList.take n := by
  cases r <;> simp [toList, take, List.take_replicate]

@[simp] theorem toList_drop (n : Nat) (r : Run) : (r.drop n).toList = r.toList.drop n := by
  cases r <;> simp [toList, drop, List.drop_replicate]

end Run

/-- The contents of a file. -/
structure Contents where
  runs : List Run
deriving Repr, DecidableEq, Inhabited

namespace Contents

/-- No bytes. -/
def empty : Contents := ⟨[]⟩

/-- The given bytes. -/
def ofBytes (bs : Bytes) : Contents := ⟨[.bytes bs]⟩

/-- A hole of the given length. -/
def zeros (n : Nat) : Contents := ⟨[.zeros n]⟩

/-- The number of bytes. -/
def length (c : Contents) : Nat := totalSize Run.length c.runs

/-- The bytes. -/
def toList (c : Contents) : Bytes := (c.runs.map Run.toList).flatten

/-- First the one, then the other. -/
def append (c d : Contents) : Contents := ⟨c.runs ++ d.runs⟩

/-- The runs of the first `n` bytes. -/
def takeRuns : Nat → List Run → List Run
  | _, [] => []
  | n, r :: rs => if r.length ≤ n then r :: takeRuns (n - r.length) rs else [r.take n]

/-- The runs behind the first `n` bytes. -/
def dropRuns : Nat → List Run → List Run
  | _, [] => []
  | n, r :: rs => if r.length ≤ n then dropRuns (n - r.length) rs else r.drop n :: rs

/-- The first `n` bytes. -/
def take (n : Nat) (c : Contents) : Contents := ⟨takeRuns n c.runs⟩

/-- All but the first `n` bytes. -/
def drop (n : Nat) (c : Contents) : Contents := ⟨dropRuns n c.runs⟩

/-- At most `count` bytes from `offset` on. -/
def slice (offset count : Nat) (c : Contents) : Bytes := ((c.drop offset).take count).toList

/-- Cut to `n` bytes, or filled up with zeros to `n` bytes. -/
def resize (n : Nat) (c : Contents) : Contents :=
  if n ≤ c.length then c.take n else c.append (zeros (n - c.length))

/-- Write `bs` at `offset`; what lies between the end and `offset` reads as zeros. -/
def overwrite (offset : Nat) (bs : Bytes) (c : Contents) : Contents :=
  ((c.resize offset).append (ofBytes bs)).append (c.drop (offset + bs.length))

/-! ## What a reader sees -/

@[simp] theorem toList_empty : empty.toList = [] := rfl

@[simp] theorem toList_ofBytes (bs : Bytes) : (ofBytes bs).toList = bs := by
  simp [ofBytes, toList, Run.toList]

@[simp] theorem toList_zeros (n : Nat) : (zeros n).toList = List.replicate n 0 := by
  simp [zeros, toList, Run.toList]

@[simp] theorem length_toList (c : Contents) : c.toList.length = c.length := by
  obtain ⟨rs⟩ := c
  simp only [toList, length]
  induction rs with
  | nil => rfl
  | cons r rs ih => simp [totalSize, ih]

@[simp] theorem toList_append (c d : Contents) : (c.append d).toList = c.toList ++ d.toList := by
  simp [append, toList]

/-- **The first bytes of the contents are the first of the bytes.** -/
@[simp] theorem toList_take (n : Nat) (c : Contents) : (c.take n).toList = c.toList.take n := by
  obtain ⟨rs⟩ := c
  simp only [take, toList]
  induction rs generalizing n with
  | nil => simp [takeRuns]
  | cons r rs ih =>
    rw [takeRuns]
    split
    next h =>
      have hr : r.toList.length ≤ n := by simpa using h
      simp [ih, List.take_append, List.take_of_length_le hr]
    next h =>
      have hz : n - r.length = 0 := by omega
      simp [List.take_append, hz]

/-- **The last bytes of the contents are the last of the bytes.** -/
@[simp] theorem toList_drop (n : Nat) (c : Contents) : (c.drop n).toList = c.toList.drop n := by
  obtain ⟨rs⟩ := c
  simp only [drop, toList]
  induction rs generalizing n with
  | nil => simp [dropRuns]
  | cons r rs ih =>
    rw [dropRuns]
    split
    next h =>
      have hr : r.toList.length ≤ n := by simpa using h
      simp [ih, List.drop_append, List.drop_of_length_le hr]
    next h =>
      have hz : n - r.length = 0 := by omega
      simp [List.drop_append, hz]

theorem slice_eq (offset count : Nat) (c : Contents) :
    c.slice offset count = (c.toList.drop offset).take count := by
  simp [slice]

end Contents

end GuestShare
