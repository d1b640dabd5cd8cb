/-!
# Digits

* `Text.digitValue?`: the value of a digit, up to sixteen.
* `Text.digits?`: the values of some digits in a base.
* `Text.ofDigits`: the number that digits spell.
-/

namespace GuestShare

namespace Text

/-- The value of a digit. -/
def digitValue? (c : Char) : Option Nat :=
  if '0' ≤ c ∧ c ≤ '9' then some (c.toNat - '0'.toNat)
  else if 'a' ≤ c ∧ c ≤ 'f' then some (c.toNat - 'a'.toNat + 10)
  else if 'A' ≤ c ∧ c ≤ 'F' then some (c.toNat - 'A'.toNat + 10)
  else none

/-- The value of a digit in a base. -/
def digitBelow? (base : Nat) (c : Char) : Option Nat :=
  (digitValue? c).filter (· < base)

/-- The values of some characters that are all digits in a base. -/
def digits? (base : Nat) (cs : List Char) : Option (List Nat) := cs.mapM (digitBelow? base)

/-- The number that digits spell, the highest first. -/
def ofDigits (base : Nat) (ds : List Nat) : Nat := ds.foldl (fun n d => base * n + d) 0

/-- The number that some characters spell in a base, of which there must be at least one. -/
def number? (base : Nat) (cs : List Char) : Option Nat :=
  if cs.isEmpty then none else (digits? base cs).map (ofDigits base)

end Text

end GuestShare
