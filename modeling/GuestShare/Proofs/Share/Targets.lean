import GuestShare.Proofs.Metadata.Encoding
import GuestShare.Proofs.Metadata.Ledger
import GuestShare.Proofs.Share.ConfinedRun
import GuestShare.Proofs.Share.Records
import GuestShare.Proofs.Wire.Canonical

/-!
# Targets of links

The target of a link is sent in a field whose length has two bytes. A client sends it in such a
field, and the file of the links keeps it in one, so that it can be sent back. Only the files of an
older format can hold longer ones.

* `CategoryFile.decode_fits`: the file of the links.
* `Store.LinksFit`: stores in which the targets of all links fit.
* `Store.LinksCurrent`: directories of which no older file of links is read.
* **`Reachable.linksFit`**: no client can make a link whose target does not fit.
-/

namespace GuestShare

namespace CategoryFile

theorem decode_fits {rs : Records String} {bs : Bytes} (hd : decode .target bs = some rs) :
    ∀ key target : String, rs[key]? = some target → Layout.TextFits target := by
  intro key target hk
  have hold : Holdable .target rs := holdable_of_decode (Category.refits_payload .symlinks) hd
  exact (hold.fits key target hk).2

end CategoryFile

namespace Store

variable {s t : Store} {dir : String} {h : Host} {P : String → Prop}

/-- The targets of all links can be sent. -/
def LinksFit (s : Store) : Prop :=
  ∀ key target, s.symlink key = some target → (Bytes.ofText target).length ≤ 65535

theorem Edits.linksFit (he : s.Edits P t)
    (hP : ∀ target, P target → (Bytes.ofText target).length ≤ 65535) (hs : s.LinksFit) :
    t.LinksFit := by
  induction he with
  | refl => exact hs
  | setPermission _ _ ih => exact ih
  | setKind _ ih => exact ih
  | @setSymlink t key target _ htarget ih =>
    intro k target' hk
    change (t.symlinks.set key target).records[k]? = some target' at hk
    rw [Ledger.getElem?_set] at hk
    split_ifs at hk
    · cases hk
      exact hP _ htarget
    · exact ih k target' hk
  | setDevice _ ih => exact ih
  | @delete t key _ ih =>
    intro k target hk
    change (t.symlinks.delete key).records[k]? = some target at hk
    rw [Ledger.getElem?_delete] at hk
    split_ifs at hk
    exact ih k target hk
  | @rename t old new _ ih =>
    intro k target hk
    change (t.symlinks.rename old new).records[k]? = some target at hk
    by_cases hne : old = new
    · rw [Ledger.rename, if_pos hne] at hk
      exact ih k target hk
    · rw [Ledger.getElem?_rename _ hne] at hk
      split at hk
      next rest _ => exact ih _ target hk
      next =>
        split_ifs at hk
        exact ih k target hk

theorem SameRecords.linksFit (hr : SameRecords s t) (hs : s.LinksFit) : t.LinksFit := by
  intro key target hk
  refine hs key target ?_
  unfold symlink at hk ⊢
  rwa [hr.symlinks] at hk

/-- The records of links are not those of an older file: there is a newer one, or no older one. -/
def LinksCurrent (dir : Path) (h : Host) : Prop :=
  h.fileBytes (dir.child (Name.ofText Category.symlinks.fileName)) ≠ .error .notFound ∨
    ∀ bs, h.fileBytes (dir.child (Name.ofText Category.symlinks.olderFileName)) ≠ .ok bs

theorem load_linksFit (hc : LinksCurrent (dirPath dir) h) : (load dir h).LinksFit := by
  intro key target hk
  change (loadRecords .target JsonFile.symlinks .symlinks (dirPath dir) h)[key]? = some target at hk
  unfold loadRecords at hk
  split at hk
  next bs _ =>
    cases hd : CategoryFile.decode .target bs with
    | none => simp [hd] at hk
    | some rs =>
      rw [hd] at hk
      exact CategoryFile.decode_fits hd key target hk
  next hnew =>
    split at hk
    next bs hold =>
      rcases hc with hc | hc
      · exact absurd hnew hc
      · exact absurd hold (hc bs)
    next => simp at hk
  next => simp at hk

end Store

namespace Share

variable {s s₀ : Share} {frame : Bytes}

theorem respond_linksFit (hs : s.store.LinksFit) : (s.respond frame).2.2.store.LinksFit := by
  rcases respond_cases s frame with ⟨e, -, hafter, -⟩ | ⟨m, hm, hafter, -⟩
  · rw [hafter]
    exact hs
  · rw [hafter]
    exact Store.flush_sameRecords.linksFit ((perform_evolves s m.body).records.linksFit
      (Frame.fieldsFit_of_toRequest hm).texts hs)

/-- **No client can make a link whose target cannot be sent.** -/
theorem Reachable.linksFit (hr : s₀.Reachable s) (hs : s₀.store.LinksFit) : s.store.LinksFit := by
  induction hr with
  | refl => exact hs
  | respond frame _ ih => exact respond_linksFit ih
  | reset _ ih => exact ih

end Share

end GuestShare
