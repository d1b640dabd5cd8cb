/-!
# Byte strings, words and text

Frames, file contents and metadata files are byte strings.

* `totalSize`: the sum of the sizes of some items.
* `Bytes.ofNat`, `Bytes.toNat`: numbers as little-endian bytes of a given width, and `Bytes.bound`,
  which they lie below.
* `Bytes.ofU16` … `Bytes.toU64`: the word types on top of them.
* `Bytes.ofText`, `Bytes.toText?`: UTF-8.
* **`toNat_ofNat`**, **`ofNat_toNat`**: the two directions undo each other.
* **`toText?_eq_some_iff`**: text is read from exactly the bytes it is written as.
-/

namespace GuestShare

/-- A string of bytes. -/
abbrev Bytes := List UInt8

/-- The sum of the sizes of some items. -/
def totalSize {α : Type} (size : α → Nat) : List α → Nat
  | [] => 0
  | a :: as => size a + totalSize size as

namespace Bytes

/-! ## Little-endian numbers -/

/-- The lowest `width` bytes of `n`, the lowest one first. -/
def ofNat : (width : Nat) → (n : Nat) → Bytes
  | 0, _ => []
  | w + 1, n => n.toUInt8 :: ofNat w (n / 256)

/-- The number whose little-endian bytes are given. -/
def toNat : Bytes → Nat
  | [] => 0
  | b :: bs => b.toNat + 256 * toNat bs

@[simp] theorem length_ofNat (w n : Nat) : (ofNat w n).length = w := by
  induction w generalizing n with
  | zero => rfl
  | succ w ih => simp [ofNat, ih]

/-- The numbers of some width lie below this. -/
def bound : (width : Nat) → Nat
  | 0 => 1
  | w + 1 => 256 * bound w

theorem toNat_lt (bs : Bytes) : toNat bs < bound bs.length := by
  induction bs with
  | nil => simp [toNat, bound]
  | cons b bs ih =>
    have hb := b.toNat_lt
    simp only [toNat, List.length_cons, bound]
    omega

/-- **Reading what was written gives the number back**, as far as it fits. -/
theorem toNat_ofNat (w n : Nat) : toNat (ofNat w n) = n % bound w := by
  induction w generalizing n with
  | zero => simp [ofNat, toNat, bound, Nat.mod_one]
  | succ w ih =>
    rw [ofNat, toNat, ih, bound, Nat.mod_mul]
    simp [Nat.toUInt8, UInt8.toNat_ofNat']

/-- **Bytes are the writing of the number they read as.** -/
theorem ofNat_toNat (bs : Bytes) : ofNat bs.length (toNat bs) = bs := by
  induction bs with
  | nil => rfl
  | cons b bs ih =>
    have hb := b.toNat_lt
    have hlow : (b.toNat + 256 * toNat bs).toUInt8 = b := by
      rw [← UInt8.toNat_inj]
      simp only [Nat.toUInt8, UInt8.toNat_ofNat']
      omega
    have hhigh : (b.toNat + 256 * toNat bs) / 256 = toNat bs := by omega
    simp only [List.length_cons, toNat, ofNat, hlow, hhigh, ih]

/-! ## Words -/

/-- A 16-bit word, lowest byte first. -/
def ofU16 (x : UInt16) : Bytes := ofNat 2 x.toNat

/-- A 32-bit word, lowest byte first. -/
def ofU32 (x : UInt32) : Bytes := ofNat 4 x.toNat

/-- A 64-bit word, lowest byte first. -/
def ofU64 (x : UInt64) : Bytes := ofNat 8 x.toNat

/-- The 16-bit word in the given bytes. -/
def toU16 (bs : Bytes) : UInt16 := UInt16.ofNat (toNat bs)

/-- The 32-bit word in the given bytes. -/
def toU32 (bs : Bytes) : UInt32 := UInt32.ofNat (toNat bs)

/-- The 64-bit word in the given bytes. -/
def toU64 (bs : Bytes) : UInt64 := UInt64.ofNat (toNat bs)

@[simp] theorem length_ofU16 (x : UInt16) : (ofU16 x).length = 2 := length_ofNat ..
@[simp] theorem length_ofU32 (x : UInt32) : (ofU32 x).length = 4 := length_ofNat ..
@[simp] theorem length_ofU64 (x : UInt64) : (ofU64 x).length = 8 := length_ofNat ..

@[simp] theorem toU16_ofU16 (x : UInt16) : toU16 (ofU16 x) = x := by
  have hx : x.toNat < bound 2 := x.toNat_lt_size
  rw [toU16, ofU16, toNat_ofNat, Nat.mod_eq_of_lt hx, UInt16.ofNat_toNat]

@[simp] theorem toU32_ofU32 (x : UInt32) : toU32 (ofU32 x) = x := by
  have hx : x.toNat < bound 4 := x.toNat_lt_size
  rw [toU32, ofU32, toNat_ofNat, Nat.mod_eq_of_lt hx, UInt32.ofNat_toNat]

@[simp] theorem toU64_ofU64 (x : UInt64) : toU64 (ofU64 x) = x := by
  have hx : x.toNat < bound 8 := x.toNat_lt_size
  rw [toU64, ofU64, toNat_ofNat, Nat.mod_eq_of_lt hx, UInt64.ofNat_toNat]

theorem ofU16_toU16 {bs : Bytes} (h : bs.length = 2) : ofU16 (toU16 bs) = bs := by
  have hlt := toNat_lt bs
  rw [h] at hlt
  rw [ofU16, toU16, UInt16.toNat_ofNat_of_lt' hlt, ← h, ofNat_toNat]

theorem ofU32_toU32 {bs : Bytes} (h : bs.length = 4) : ofU32 (toU32 bs) = bs := by
  have hlt := toNat_lt bs
  rw [h] at hlt
  rw [ofU32, toU32, UInt32.toNat_ofNat_of_lt' hlt, ← h, ofNat_toNat]

theorem ofU64_toU64 {bs : Bytes} (h : bs.length = 8) : ofU64 (toU64 bs) = bs := by
  have hlt := toNat_lt bs
  rw [h] at hlt
  rw [ofU64, toU64, UInt64.toNat_ofNat_of_lt' hlt, ← h, ofNat_toNat]

/-! ## Text -/

/-- The UTF-8 bytes of a text. -/
def ofText (s : String) : Bytes := s.toByteArray.data.toList

/-- The text whose UTF-8 bytes are given, if they are valid UTF-8. -/
def toText? (bs : Bytes) : Option String := String.fromUTF8? ⟨bs.toArray⟩

/-- **Text is read from exactly the bytes it is written as.** -/
theorem toText?_eq_some_iff {bs : Bytes} {s : String} : toText? bs = some s ↔ bs = ofText s := by
  unfold toText? ofText String.fromUTF8?
  constructor
  · intro h
    split at h
    · cases h
      simp [String.fromUTF8]
    · cases h
  · rintro rfl
    have h : (⟨s.toByteArray.data.toList.toArray⟩ : ByteArray) = s.toByteArray := by simp
    rw [h, dif_pos s.isValidUTF8]
    rfl

@[simp] theorem toText?_ofText (s : String) : toText? (ofText s) = some s :=
  toText?_eq_some_iff.mpr rfl

theorem ofText_injective {s t : String} (h : ofText s = ofText t) : s = t := by
  have := toText?_ofText s
  rw [h, toText?_ofText] at this
  exact (Option.some.inj this).symm

end Bytes

end GuestShare
