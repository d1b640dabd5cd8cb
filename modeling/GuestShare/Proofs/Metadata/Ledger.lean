import GuestShare.Metadata.Ledger
import Mathlib.Data.List.Basic
import Mathlib.Tactic.Common

/-!
# Ledgers under change

What a change does to each record, and that no change goes unnoticed: a ledger that is not pending
after a change is the one before it.

* `covers_iff`, `suffix?_append`: keys at or below others.
* **`getElem?_rename`**: what moving records does to them.
* `Ledger.Kept`: a ledger that is pending or unchanged.
* **`kept_set`**, **`kept_delete`**, **`kept_rename`**: every change keeps ledgers so.
-/

namespace GuestShare

/-! ## Keys below keys -/

theorem covers_iff {base key : String} :
    covers base key = true ↔ ∃ s, suffix? base key = some s := Option.isSome_iff_exists

theorem suffix?_append {base other key s : String} (h : suffix? base key = some s) :
    suffix? other (other ++ s) = some s :=
  suffix?_eq_some_iff.mpr ⟨rfl, (suffix?_eq_some_iff.mp h).2⟩

namespace Ledger

variable {α : Type} {l l' l'' : Ledger α} {old new key k : String} {r : α}

theorem mem_moved : (k, r) ∈ l.moved old new ↔
    ∃ s, suffix? new k = some s ∧ l.records[old ++ s]? = some r := by
  simp only [moved, List.mem_filterMap, Option.map_eq_some_iff, Prod.exists, Prod.mk.injEq,
    Std.ExtTreeMap.mem_toList_iff_getElem?_eq_some]
  constructor
  · rintro ⟨key, r, hr, s, hs, rfl, rfl⟩
    obtain ⟨rfl, -⟩ := suffix?_eq_some_iff.mp hs
    exact ⟨s, suffix?_append hs, hr⟩
  · rintro ⟨s, hs, hr⟩
    exact ⟨old ++ s, r, hr, s, suffix?_append hs, (suffix?_eq_some_iff.mp hs).1.symm, rfl⟩

theorem pairwise_moved :
    (l.moved old new).Pairwise fun a b => ¬ compare a.1 b.1 = .eq := by
  refine Std.ExtTreeMap.distinct_keys_toList.filterMap _ ?_
  rintro ⟨key, r⟩ ⟨key', r'⟩ hne _ ha _ hb he
  simp only [Option.map_eq_some_iff] at ha hb
  obtain ⟨s, hs, rfl⟩ := ha
  obtain ⟨s', hs', rfl⟩ := hb
  refine hne ?_
  rw [(suffix?_eq_some_iff.mp hs).1, (suffix?_eq_some_iff.mp hs').1,
    String.append_right_inj new |>.mp (Std.LawfulEqCmp.eq_of_compare he)]
  exact Std.ReflCmp.compare_self

/-- **What moving records does to them.** -/
theorem getElem?_rename (l : Ledger α) (hne : old ≠ new) (k : String) :
    (l.rename old new).records[k]? =
      match suffix? new k with
      | some s => l.records[old ++ s]?
      | none => if covers old k = true then none else l.records[k]? := by
  simp only [rename, if_neg hne]
  have hfilter : (l.records.filter fun key _ => !covers old key && !covers new key)[k]? =
      if covers old k = true ∨ covers new k = true then none else l.records[k]? := by
    rw [Std.ExtTreeMap.getElem?_filter']
    cases covers old k <;> cases covers new k <;> cases l.records[k]? <;> simp
  by_cases hmem : ∃ r, (k, r) ∈ l.moved old new
  · obtain ⟨r, hr⟩ := hmem
    rw [Std.ExtTreeMap.getElem?_insertMany_list_of_mem Std.ReflCmp.compare_self pairwise_moved hr]
    obtain ⟨s, hs, hr⟩ := mem_moved.mp hr
    rw [hs]
    exact hr.symm
  · rw [Std.ExtTreeMap.getElem?_insertMany_list_of_contains_eq_false, hfilter]
    · cases hs : suffix? new k with
      | some s =>
        have hcov : covers new k = true := covers_iff.mpr ⟨s, hs⟩
        simp only [hcov, or_true, if_true]
        cases hr : l.records[old ++ s]? with
        | none => rfl
        | some r => exact absurd ⟨r, mem_moved.mpr ⟨s, hs, hr⟩⟩ hmem
      | none =>
        have hcov : covers new k = false := by simp [covers, hs]
        simp only [hcov, Bool.false_eq_true, or_false]
    · simpa using hmem

/-! ## Changes -/

/-- A ledger is pending, or what it was. -/
def Kept (l l' : Ledger α) : Prop := l'.pending = false → l' = l

theorem Kept.refl (l : Ledger α) : Kept l l := fun _ => rfl

theorem Kept.trans (h₁ : Kept l l') (h₂ : Kept l' l'') : Kept l l'' := by
  intro hp
  obtain rfl := h₂ hp
  exact h₁ hp

theorem kept_set : Kept l (l.set key r) := fun hp => by cases hp

theorem kept_delete : Kept l (l.delete key) := by
  intro hp
  simp only [delete, Bool.or_eq_false_iff] at hp
  have hrecords : (l.delete key).records = l.records := by
    refine Std.ExtTreeMap.ext_getElem? fun k => ?_
    rw [getElem?_delete]
    split_ifs with hk
    · subst hk
      have hnot : k ∉ l.records := by
        rw [← Std.ExtTreeMap.contains_iff_mem, hp.2]
        simp
      exact (Std.ExtTreeMap.getElem?_eq_none hnot).symm
    · rfl
  obtain ⟨records, pending⟩ := l
  simp only [delete] at hrecords hp ⊢
  rw [hrecords, hp.1, hp.2]
  rfl

theorem kept_rename : Kept l (l.rename old new) := by
  by_cases hne : old = new
  · simp only [rename, if_pos hne]
    exact .refl l
  intro hp
  have hp' := hp
  simp only [rename, if_neg hne, Bool.or_eq_false_iff] at hp
  have hnone : ∀ key, (covers old key = true ∨ covers new key = true) →
      l.records[key]? = none := by
    intro key hkey
    cases hr : l.records[key]? with
    | none => rfl
    | some r =>
      have hmem : key ∈ l.records.keys := by
        rw [Std.ExtTreeMap.mem_keys, Std.ExtTreeMap.mem_iff_isSome_getElem?, hr]
        rfl
      have := List.any_eq_false.mp hp.2 key hmem
      simp only [Bool.or_eq_true] at this
      exact absurd hkey this
  have hrecords : (l.rename old new).records = l.records := by
    refine Std.ExtTreeMap.ext_getElem? fun k => ?_
    rw [getElem?_rename l hne]
    cases hs : suffix? new k with
    | some s =>
      rw [hnone k (.inr (covers_iff.mpr ⟨s, hs⟩))]
      exact hnone _ (.inl (covers_iff.mpr ⟨s, suffix?_append hs⟩))
    | none =>
      simp only
      split_ifs with hc
      · exact (hnone k (.inl hc)).symm
      · rfl
  have hpend : (l.rename old new).pending = l.pending := hp'.trans hp.1.symm
  revert hrecords hpend
  generalize l.rename old new = l'
  intro hrecords hpend
  obtain ⟨records, pending⟩ := l
  obtain ⟨records', pending'⟩ := l'
  simp only at hrecords hpend
  rw [hrecords, hpend]

end Ledger

end GuestShare
