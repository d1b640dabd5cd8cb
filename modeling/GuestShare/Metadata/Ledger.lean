import Std.Data.ExtTreeMap

/-!
# Ledgers

A ledger holds records under keys and knows whether it has changed since it was last written. Keys
are relative paths, so a key may be below another one.

* `behind?`: what a list has behind another one that it begins with.
* `suffix?`: what a key has behind another key that it is at or below.
* `Ledger.set`, `Ledger.delete`, `Ledger.rename`: the changes.
* **`suffix?_eq_some_iff`**: a key is at or below another one if it continues it by nothing or by
  a slash.
* **`Ledger.getElem?_delete`**, **`Ledger.getElem?_set`**: what the changes do to the records.
-/

namespace GuestShare

/-! ## Keys below keys -/

/-- What a list has behind another one that it begins with. -/
def behind? {α : Type} [DecidableEq α] : (front list : List α) → Option (List α)
  | [], bs => some bs
  | _ :: _, [] => none
  | a :: as, b :: bs => if a = b then behind? as bs else none

/-- What `key` has behind `base`, if it is at or below `base`. -/
def suffix? (base key : String) : Option String :=
  ((behind? base.toList key.toList).filter fun s => s.isEmpty || s.head? = some '/').map
    String.ofList

/-- Whether `key` is at or below `base`. -/
def covers (base key : String) : Bool := (suffix? base key).isSome

theorem behind?_eq_some_iff {α : Type} [DecidableEq α] {front list rest : List α} :
    behind? front list = some rest ↔ list = front ++ rest := by
  fun_induction behind? front list with
  | case1 list => simp
  | case2 a as => simp
  | case3 a as bs ih => simp [ih]
  | case4 a as b bs h =>
    have h' : ¬ b = a := fun e => h e.symm
    simp [h']

/-- **A key is at or below another one if it continues it by nothing or by a slash.** -/
theorem suffix?_eq_some_iff {base key s : String} :
    suffix? base key = some s ↔ key = base ++ s ∧ (s = "" ∨ s.toList.head? = some '/') := by
  have hkey : key = base ++ s ↔ key.toList = base.toList ++ s.toList := by
    rw [← String.toList_append, String.toList_inj]
  have hnil : s = "" ↔ s.toList = [] := by
    rw [← String.toList_inj]
    simp
  simp only [suffix?, Option.map_eq_some_iff, Option.filter_eq_some_iff, behind?_eq_some_iff,
    Bool.or_eq_true, List.isEmpty_iff, decide_eq_true_eq, hkey, hnil]
  constructor
  · rintro ⟨t, ht, rfl⟩
    simpa using ht
  · intro h
    exact ⟨s.toList, h, String.ofList_toList⟩

/-! ## Ledgers -/

/-- Records under keys. -/
abbrev Records (α : Type) := Std.ExtTreeMap String α

/-- Records, and whether they have changed since they were last written. -/
structure Ledger (α : Type) where
  records : Records α
  pending : Bool

namespace Ledger

variable {α : Type}

/-- Put a record under a key. -/
def set (l : Ledger α) (key : String) (r : α) : Ledger α := ⟨l.records.insert key r, true⟩

/-- Drop the record under a key. -/
def delete (l : Ledger α) (key : String) : Ledger α :=
  ⟨l.records.erase key, l.pending || l.records.contains key⟩

/-- The records at or below `old`, under the keys that they have at or below `new`. -/
def moved (l : Ledger α) (old new : String) : List (String × α) :=
  l.records.toList.filterMap fun (key, r) => (suffix? old key).map fun s => (new ++ s, r)

/-- Move every record at or below `old` to the same place under `new`. What was there is
dropped. -/
def rename (l : Ledger α) (old new : String) : Ledger α :=
  if old = new then l
  else
    ⟨(l.records.filter fun key _ => !covers old key && !covers new key).insertMany
        (l.moved old new),
      l.pending || l.records.keys.any fun key => covers old key || covers new key⟩

theorem getElem?_set (l : Ledger α) (key k : String) (r : α) :
    (l.set key r).records[k]? = if k = key then some r else l.records[k]? := by
  by_cases h : k = key
  · simp [set, h]
  · have h' : ¬ key = k := fun e => h e.symm
    simp [set, Std.ExtTreeMap.getElem?_insert, h, h']

theorem getElem?_delete (l : Ledger α) (key k : String) :
    (l.delete key).records[k]? = if k = key then none else l.records[k]? := by
  by_cases h : k = key
  · simp [delete, h]
  · have h' : ¬ key = k := fun e => h e.symm
    simp [delete, Std.ExtTreeMap.getElem?_erase, h, h']

end Ledger

end GuestShare
