import Mathlib
import GuestShare.Proofs.Metadata.Overlay

/-!
# Moving the records of a subtree

Moving the records at or below a key loses none of them, whichever way the two keys lie: one may be
below the other, they may have nothing in common, and there may be records at both.

* `Tail`, `AtOrBelow`: the keys at or below a key, by what they have behind it.
* `Ledger.SubtreeMoved`: one ledger is another one with a subtree moved.
* **`Ledger.subtreeMoved_rename`**: what moving records does to a ledger as a whole.
* **`Store.rename_subtreeMoved`**: what it does to the four ledgers of a store.
-/

namespace GuestShare

/-! ## Keys at or below a key -/

/-- What a key at or below another one has behind it: nothing, or a slash and more. -/
def Tail (t : String) : Prop := t = "" ∨ t.toList.head? = some '/'

/-- A key is the base, or continues it by a slash. -/
def AtOrBelow (base key : String) : Prop := ∃ t, Tail t ∧ key = base ++ t

variable {base key k old new t : String}

theorem suffix?_eq_some_iff_tail : suffix? base key = some t ↔ Tail t ∧ key = base ++ t :=
  suffix?_eq_some_iff.trans And.comm

theorem covers_iff_atOrBelow : covers base key = true ↔ AtOrBelow base key := by
  simp only [covers_iff, suffix?_eq_some_iff_tail, AtOrBelow]

instance (base key : String) : Decidable (AtOrBelow base key) :=
  decidable_of_iff _ covers_iff_atOrBelow

theorem suffix?_eq_none_iff : suffix? base key = none ↔ ¬ AtOrBelow base key := by
  rw [← covers_iff_atOrBelow, covers, Bool.not_eq_true, Option.isSome_eq_false_iff,
    Option.isNone_iff_eq_none]

namespace Ledger

variable {α : Type} {l l' : Ledger α}

/-! ## One ledger -/

/-- `l'` is `l` with the records at or below `old` moved to the same places below `new`. -/
structure SubtreeMoved (old new : String) (l l' : Ledger α) : Prop where
  /-- Below the new key is what was below the old one, and nothing else. -/
  arrives : ∀ t, Tail t → l'.records[new ++ t]? = l.records[old ++ t]?
  /-- No other key at or below the old one holds anything. -/
  leaves : ∀ key, AtOrBelow old key → ¬ AtOrBelow new key → l'.records[key]? = none
  /-- All other keys hold what they held. -/
  stays : ∀ key, ¬ AtOrBelow old key → ¬ AtOrBelow new key → l'.records[key]? = l.records[key]?
  /-- There are as many records at the new place as there were at the old one. -/
  count : (l'.records.keys.filter (AtOrBelow new ·)).length =
    (l.records.keys.filter (AtOrBelow old ·)).length
  /-- The ledger is to be written if it was, or if there were records at either place. -/
  pending : l'.pending = true ↔ l.pending = true ∨
    ∃ key, (AtOrBelow old key ∨ AtOrBelow new key) ∧ (l.records[key]?).isSome = true

theorem getElem?_rename_append (hne : old ≠ new) (ht : Tail t) :
    (l.rename old new).records[new ++ t]? = l.records[old ++ t]? := by
  rw [getElem?_rename l hne, suffix?_eq_some_iff_tail.mpr ⟨ht, rfl⟩]

theorem getElem?_rename_of_not (hne : old ≠ new) (hk : ¬ AtOrBelow new k) :
    (l.rename old new).records[k]? = if AtOrBelow old k then none else l.records[k]? := by
  simp only [getElem?_rename l hne, suffix?_eq_none_iff.mpr hk, covers_iff_atOrBelow]

theorem nodup_keys (l : Ledger α) : l.records.keys.Nodup :=
  Std.ExtTreeMap.distinct_keys.imp fun hne he => hne (by rw [he]; exact Std.ReflCmp.compare_self)

theorem mem_keys_iff : k ∈ l.records.keys ↔ (l.records[k]?).isSome = true := by
  rw [Std.ExtTreeMap.mem_keys, Std.ExtTreeMap.mem_iff_isSome_getElem?]

theorem keys_rename_perm (hne : old ≠ new) :
    ((l.rename old new).records.keys.filter (AtOrBelow new ·)).Perm
      ((l.records.keys.filterMap (suffix? old)).map (new ++ ·)) := by
  have hnodup : ((l.records.keys.filterMap (suffix? old)).map (new ++ ·)).Nodup := by
    refine List.Nodup.map (fun _ _ => (String.append_right_inj new).mp) (l.nodup_keys.filterMap ?_)
    intro a b t ha hb
    rw [(suffix?_eq_some_iff.mp ha).1, (suffix?_eq_some_iff.mp hb).1]
  refine (List.perm_ext_iff_of_nodup ((nodup_keys _).filter _) hnodup).mpr fun key => ?_
  simp only [List.mem_filter, List.mem_map, List.mem_filterMap, decide_eq_true_eq, mem_keys_iff]
  constructor
  · rintro ⟨hr, t, ht, rfl⟩
    rw [getElem?_rename_append hne ht] at hr
    exact ⟨t, ⟨old ++ t, hr, suffix?_eq_some_iff_tail.mpr ⟨ht, rfl⟩⟩, rfl⟩
  · rintro ⟨t, ⟨key, hr, hs⟩, rfl⟩
    obtain ⟨ht, rfl⟩ := suffix?_eq_some_iff_tail.mp hs
    rw [getElem?_rename_append hne ht]
    exact ⟨hr, t, ht, rfl⟩

theorem length_keys_rename (hne : old ≠ new) :
    ((l.rename old new).records.keys.filter (AtOrBelow new ·)).length =
      (l.records.keys.filter (AtOrBelow old ·)).length := by
  have hcovers : (fun key => decide (AtOrBelow old key)) = fun key => (suffix? old key).isSome := by
    funext key
    exact Bool.eq_iff_iff.mpr (decide_eq_true_iff.trans covers_iff_atOrBelow.symm)
  rw [(keys_rename_perm hne).length_eq, List.length_map, hcovers, ← List.countP_eq_length_filter,
    List.length_filterMap_eq_countP]

theorem pending_rename (hne : old ≠ new) :
    (l.rename old new).pending = true ↔ l.pending = true ∨
      ∃ key, (AtOrBelow old key ∨ AtOrBelow new key) ∧ (l.records[key]?).isSome = true := by
  simp only [rename, if_neg hne, Bool.or_eq_true, List.any_eq_true, covers_iff_atOrBelow,
    mem_keys_iff, and_comm]

/-- **What moving records does to a ledger.** -/
theorem subtreeMoved_rename (l : Ledger α) (hne : old ≠ new) :
    SubtreeMoved old new l (l.rename old new) where
  arrives _ ht := getElem?_rename_append hne ht
  leaves _ hold hnew := by rw [getElem?_rename_of_not hne hnew, if_pos hold]
  stays _ hold hnew := by rw [getElem?_rename_of_not hne hnew, if_neg hold]
  count := length_keys_rename hne
  pending := pending_rename hne

end Ledger

/-! ## The four ledgers -/

namespace Store

/-- `s'` is `s` with the records of a subtree moved, in every ledger. -/
structure SubtreeMoved (old new : String) (s s' : Store) : Prop where
  dir : s'.dir = s.dir
  permissions : s.permissions.SubtreeMoved old new s'.permissions
  symlinks : s.symlinks.SubtreeMoved old new s'.symlinks
  kinds : s.kinds.SubtreeMoved old new s'.kinds
  devices : s.devices.SubtreeMoved old new s'.devices

/-- **Moving records moves the subtree and nothing else**, and moving it to where it is does
nothing at all. -/
theorem rename_subtreeMoved (s : Store) (old new : String) :
    (old ≠ new → s.SubtreeMoved old new (s.rename old new)) ∧ s.rename old old = s where
  left hne := {
    dir := rfl
    permissions := s.permissions.subtreeMoved_rename hne
    symlinks := s.symlinks.subtreeMoved_rename hne
    kinds := s.kinds.subtreeMoved_rename hne
    devices := s.devices.subtreeMoved_rename hne }
  right := rename_self

/-- A store of links where one key is below another, and a third one only begins like both. -/
def nestedStore : Store where
  dir := "/meta"
  permissions := ⟨∅, false⟩
  symlinks := ⟨.ofList [("a", "1"), ("a/b", "2"), ("a/b/c", "3"), ("ab", "4")], false⟩
  kinds := ⟨∅, false⟩
  devices := ⟨∅, false⟩

/-- Below itself a subtree is moved as anywhere else. -/
theorem rename_subtreeMoved_below :
    "a" ≠ "a/b" ∧ nestedStore.SubtreeMoved "a" "a/b" (nestedStore.rename "a" "a/b") ∧
      (nestedStore.rename "a" "a/b").symlinks.records.toList =
        [("a/b", "1"), ("a/b/b", "2"), ("a/b/b/c", "3"), ("ab", "4")] ∧
      nestedStore.rename "a" "a" = nestedStore :=
  ⟨by decide, (nestedStore.rename_subtreeMoved "a" "a/b").1 (by decide), by cbv,
    (nestedStore.rename_subtreeMoved "a" "a/b").2⟩

end Store

end GuestShare
