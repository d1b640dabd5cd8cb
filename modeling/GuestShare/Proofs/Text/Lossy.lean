import GuestShare.Text.Lossy
import Mathlib.Tactic.Common

/-!
# Text as its bytes show it

The bytes of a text are those of its characters, one after the other, and show as the text itself.
A slash or a NUL is a character of its own, which can be found in the bytes.

* `ofText_eq_flatMap`, `mem_ofText`: the bytes of a text.
* `Text.first_two`, `Text.first_three`, `Text.first_four`: the first bytes of longer characters.
* **`foldl_char`**, **`ofBytes_ofText`**: characters and texts are read as themselves.
-/

namespace GuestShare

namespace Bytes

theorem ofText_eq_flatMap (s : String) : ofText s = s.toList.flatMap String.utf8EncodeChar := by
  have hs : s.toByteArray = s.toList.utf8Encode := by
    rw [← String.toByteArray_ofList, String.ofList_toList]
  rw [ofText, hs, List.utf8Encode]
  simp

theorem mem_ofText {s : String} {c : Char} {b : UInt8} (hc : c ∈ s.toList)
    (hb : b ∈ String.utf8EncodeChar c) : b ∈ ofText s := by
  rw [ofText_eq_flatMap]
  exact List.mem_flatMap.mpr ⟨c, hc, hb⟩

end Bytes

namespace Text

variable {t : String} {n m bits : Nat} {p : Partial} {b low high : UInt8}

theorem toNat_ofNat_of_lt (hn : n < 256) : (UInt8.ofNat n).toNat = n := by
  rw [UInt8.toNat_ofNat', Nat.mod_eq_of_lt hn]

theorem step_first (hf : first b = some (.inr p)) : Reading.step ⟨t, none⟩ b = ⟨t, some p⟩ := by
  simp only [Reading.step, Reading.begin, hf]

theorem step_next (hlow : low.toNat ≤ n % 64 + 0x80) (hhigh : n % 64 + 0x80 ≤ high.toNat) :
    Reading.step ⟨t, some ⟨m + 2, low, high, bits⟩⟩ (UInt8.ofNat (n % 64 + 0x80)) =
      ⟨t, some ⟨m + 1, 0x80, 0xbf, 64 * bits + n % 64⟩⟩ := by
  have hbyte : (UInt8.ofNat (n % 64 + 0x80)).toNat = n % 64 + 0x80 := toNat_ofNat_of_lt (by omega)
  have hrange : low ≤ UInt8.ofNat (n % 64 + 0x80) ∧ UInt8.ofNat (n % 64 + 0x80) ≤ high := by
    rw [UInt8.le_iff_toNat_le, UInt8.le_iff_toNat_le, hbyte]
    exact ⟨hlow, hhigh⟩
  have hmore : ¬ m + 2 ≤ 1 := by omega
  simp only [Reading.step, if_pos hrange, if_neg hmore, hbyte, Nat.add_sub_cancel]
  rfl

theorem step_last :
    Reading.step ⟨t, some ⟨1, 0x80, 0xbf, bits⟩⟩ (UInt8.ofNat (n % 64 + 0x80)) =
      ⟨t.push (Char.ofNat (64 * bits + n % 64)), none⟩ := by
  have hbyte : (UInt8.ofNat (n % 64 + 0x80)).toNat = n % 64 + 0x80 := toNat_ofNat_of_lt (by omega)
  have hrange : 0x80 ≤ UInt8.ofNat (n % 64 + 0x80) ∧ UInt8.ofNat (n % 64 + 0x80) ≤ 0xbf := by
    rw [UInt8.le_iff_toNat_le, UInt8.le_iff_toNat_le, hbyte]
    refine ⟨Nat.le_add_left _ _, ?_⟩
    show n % 64 + 0x80 ≤ 0xbf
    omega
  simp only [Reading.step, if_pos hrange, Nat.le_refl, if_true, hbyte, Nat.add_sub_cancel]

theorem first_two (hn : 2 ≤ n) (hn' : n < 0x20) :
    first (UInt8.ofNat (n + 0xc0)) = some (.inr ⟨1, 0x80, 0xbf, n⟩) := by
  have hlt : n + 0xc0 < 256 := by omega
  simp only [first, toNat_ofNat_of_lt hlt]
  rw [if_neg (by omega), if_neg (by omega), if_pos (by omega), Nat.add_sub_cancel]

/-- The first byte of a character of three. The next byte may be any that one goes on with, unless
that would be a shorter character, or none. -/
theorem first_three (hn : n < 0x10) :
    ∃ low high, first (UInt8.ofNat (n + 0xe0)) = some (.inr ⟨2, low, high, n⟩) ∧
      low.toNat = (if n = 0 then 0xa0 else 0x80) ∧
      high.toNat = (if n = 0xd then 0x9f else 0xbf) := by
  have hlt : n + 0xe0 < 256 := by omega
  simp only [first, toNat_ofNat_of_lt hlt]
  rw [if_neg (by omega), if_neg (by omega), if_neg (by omega)]
  by_cases h0 : n = 0
  · subst h0
    exact ⟨_, _, rfl, rfl, rfl⟩
  by_cases hd : n = 0xd
  · subst hd
    exact ⟨_, _, rfl, rfl, rfl⟩
  rw [if_neg (by omega), if_neg (by omega), if_pos (by omega), Nat.add_sub_cancel, if_neg h0,
    if_neg hd]
  exact ⟨_, _, rfl, rfl, rfl⟩

theorem first_four (hn : n < 5) :
    ∃ low high, first (UInt8.ofNat (n + 0xf0)) = some (.inr ⟨3, low, high, n⟩) ∧
      low.toNat = (if n = 0 then 0x90 else 0x80) ∧
      high.toNat = (if n = 4 then 0x8f else 0xbf) := by
  have hlt : n + 0xf0 < 256 := by omega
  simp only [first, toNat_ofNat_of_lt hlt]
  rw [if_neg (by omega), if_neg (by omega), if_neg (by omega), if_neg (by omega),
    if_neg (by omega), if_neg (by omega)]
  by_cases h0 : n = 0
  · subst h0
    exact ⟨_, _, rfl, rfl, rfl⟩
  by_cases h4 : n = 4
  · subst h4
    exact ⟨_, _, rfl, rfl, rfl⟩
  rw [if_neg (by omega), if_pos (by omega), Nat.add_sub_cancel, if_neg h0, if_neg h4]
  exact ⟨_, _, rfl, rfl, rfl⟩

/-- **The bytes of a character are read as that character.** -/
theorem foldl_char (t : String) (c : Char) :
    (String.utf8EncodeChar c).foldl Reading.step ⟨t, none⟩ = ⟨t.push c, none⟩ := by
  have hvalid : c.toNat < 0xd800 ∨ 0xdfff < c.toNat ∧ c.toNat < 0x110000 := c.valid
  have hval : c.val.toNat = c.toNat := rfl
  unfold String.utf8EncodeChar
  simp only [hval]
  split_ifs with h₁ h₂ h₃
  · have hbyte : (UInt8.ofNat c.toNat).toNat = c.toNat := toNat_ofNat_of_lt (by omega)
    simp only [List.foldl_cons, List.foldl_nil, Reading.step, Reading.begin, first, hbyte]
    rw [if_pos (by omega), Char.ofNat_toNat]
  · have hbits : c.toNat / 64 % 0x20 = c.toNat / 64 := by omega
    have hchar : 64 * (c.toNat / 64) + c.toNat % 64 = c.toNat := by omega
    rw [hbits]
    simp only [List.foldl_cons, List.foldl_nil]
    rw [step_first (first_two (by omega) (by omega)), step_last, hchar, Char.ofNat_toNat]
  · have hbits : c.toNat / 4096 % 0x10 = c.toNat / 4096 := by omega
    have hchar : 64 * (64 * (c.toNat / 4096) + c.toNat / 64 % 64) + c.toNat % 64 = c.toNat := by
      omega
    obtain ⟨low, high, hfirst, hlow, hhigh⟩ := first_three (n := c.toNat / 4096) (by omega)
    have hle : low.toNat ≤ c.toNat / 64 % 64 + 0x80 := by
      rw [hlow]
      split_ifs <;> omega
    have hge : c.toNat / 64 % 64 + 0x80 ≤ high.toNat := by
      rw [hhigh]
      split_ifs <;> omega
    rw [hbits]
    simp only [List.foldl_cons, List.foldl_nil]
    rw [step_first hfirst, step_next hle hge, step_last, hchar, Char.ofNat_toNat]
  · have hbits : c.toNat / 262144 % 0x08 = c.toNat / 262144 := by omega
    have hchar : 64 * (64 * (64 * (c.toNat / 262144) + c.toNat / 4096 % 64) + c.toNat / 64 % 64) +
        c.toNat % 64 = c.toNat := by
      omega
    obtain ⟨low, high, hfirst, hlow, hhigh⟩ := first_four (n := c.toNat / 262144) (by omega)
    have hle : low.toNat ≤ c.toNat / 4096 % 64 + 0x80 := by
      rw [hlow]
      split_ifs <;> omega
    have hge : c.toNat / 4096 % 64 + 0x80 ≤ high.toNat := by
      rw [hhigh]
      split_ifs <;> omega
    have hle' : (0x80 : UInt8).toNat ≤ c.toNat / 64 % 64 + 0x80 := Nat.le_add_left _ _
    have hge' : c.toNat / 64 % 64 + 0x80 ≤ (0xbf : UInt8).toNat := by
      show c.toNat / 64 % 64 + 0x80 ≤ 0xbf
      omega
    rw [hbits]
    simp only [List.foldl_cons, List.foldl_nil]
    rw [step_first hfirst, step_next hle hge, step_next hle' hge', step_last, hchar,
      Char.ofNat_toNat]

/-- **A text shows as itself.** -/
theorem ofBytes_ofText (s : String) : ofBytes (Bytes.ofText s) = s := by
  have hchars : ∀ (cs : List Char) (t : String),
      (cs.flatMap String.utf8EncodeChar).foldl Reading.step ⟨t, none⟩ =
        ⟨t ++ String.ofList cs, none⟩ := by
    intro cs
    induction cs with
    | nil => intro t; simp
    | cons c cs ih =>
      intro t
      rw [List.flatMap_cons, List.foldl_append, foldl_char, ih]
      congr 1
      rw [← String.toList_inj]
      simp
  rw [ofBytes, Bytes.ofText_eq_flatMap, hchars, String.ofList_toList, String.empty_append]
  rfl

end Text

end GuestShare
