import GuestShare.Proofs.Metadata.Overlay
import GuestShare.Proofs.Share.Act
import GuestShare.Proofs.Wire.Request

/-!
# What requests do to the records

Whatever a request does to the records, it does by changes of one kind or another to single entries
or to all at and below a key, and it stores no text as the target of a link but one of its own.

* `Store.Edits`: stores that come of one another by such changes.
* `Share.Evolves`: shares of one directory whose records do so.
* **`perform_evolves`**: every request makes a share evolve.
-/

namespace GuestShare

namespace Store

/-- A store becomes another one by changes of records. New targets of links have `P`, and new
records of permissions hold permission bits if all that were there before do. -/
inductive Edits (P : String → Prop) (s : Store) : Store → Prop
  | refl : Edits P s s
  | setPermission {t : Store} {key : String} {r : Permissions} :
      Edits P s t → (t.Masked → r.Masked) → Edits P s (t.setPermission key r)
  | setKind {t : Store} {key : String} {k : NodeKind} : Edits P s t → Edits P s (t.setKind key k)
  | setSymlink {t : Store} {key target : String} :
      Edits P s t → P target → Edits P s (t.setSymlink key target)
  | setDevice {t : Store} {key : String} {r : Device} :
      Edits P s t → Edits P s (t.setDevice key r)
  | delete {t : Store} {key : String} : Edits P s t → Edits P s (t.delete key)
  | rename {t : Store} {old new : String} : Edits P s t → Edits P s (t.rename old new)

theorem masked_changedRecord {r : Permissions} {attr : SetAttr} (hr : r.Masked) :
    (Share.changedRecord r attr).Masked := by
  unfold Share.changedRecord
  by_cases hbit : attr.has SetAttr.modeBit = true
  · have hmode : (if attr.has SetAttr.modeBit = true then (attr.mode &&& permissionMask).toUInt16
        else r.mode) = (attr.mode &&& permissionMask).toUInt16 := if_pos hbit
    exact Permissions.masked_of_and hmode
  · simp only [hbit, Bool.false_eq_true, if_false]
    exact hr

theorem Masked.changedRecord {t : Store} {n : Node} {attr : SetAttr} {r : Permissions}
    (hm : t.Masked)
    (hr : r.mode =
      (Share.changedRecord ((t.permission n.key).getD n.defaultPermission) attr).mode) :
    r.Masked := by
  have hold : ((t.permission n.key).getD n.defaultPermission).Masked := by
    cases hp : t.permission n.key with
    | none => exact Permissions.masked_ofMode
    | some old => exact hm n.key old hp
  unfold Permissions.Masked
  rw [hr]
  exact masked_changedRecord hold

/-- **Changes of records keep permission bits.** -/
theorem Edits.masked {P : String → Prop} {s t : Store} (he : s.Edits P t) (hm : s.Masked) :
    t.Masked := by
  induction he with
  | refl => exact hm
  | setPermission _ hr ih => exact ih.setPermission (hr ih)
  | setKind _ ih => exact fun k r hk => ih k r hk
  | setSymlink _ _ ih => exact fun k r hk => ih k r hk
  | setDevice _ ih => exact fun k r hk => ih k r hk
  | delete _ ih => exact ih.delete
  | rename _ ih => exact ih.rename

end Store

namespace Share

/-- The share stays one of the same directory, and its records change one after the other. -/
structure Evolves (P : String → Prop) (s s' : Share) : Prop where
  root_eq : s'.root = s.root
  records : s.store.Edits P s'.store

section Evolves

variable {P : String → Prop} {s s' : Share} {r : Request} {x : Except ShareError Reply}
  {t t' : Store} {key : String} {kind : NodeKind} {mode uid gid : UInt32} {now : Instant}
  {id : FidId} {p : GuestPath} {name : String} {b : Body} {make : Qid → Reply}

theorem evolves_same (hr : s'.root = s.root) (hs : s'.store = s.store) : s.Evolves P s' :=
  ⟨hr, hs ▸ .refl⟩

theorem edits_recordNew : t.Edits P (recordNew t key kind mode uid gid now) :=
  .setKind (.setPermission (.delete .refl) fun _ => Permissions.masked_ofMode)

theorem edits_recordDevice {device : Option Device} :
    t.Edits P (recordDevice (recordNew t key kind mode uid gid now) key device) := by
  cases device with
  | none => exact edits_recordNew
  | some d => exact .setDevice edits_recordNew

theorem NewEntry.edits (he : NewEntry t p uid now r id name b make t') :
    t.Edits (· ∈ r.texts) t' := by
  cases he with
  | symlink => exact edits_recordNew.setSymlink (by simp [Request.texts])
  | mknod => exact edits_recordDevice
  | mkdir => exact edits_recordNew

theorem Act.evolves (ha : Act s r x s') : s.Evolves (· ∈ r.texts) s' := by
  cases ha with
  | create source entry there after node =>
    subst after
    exact ⟨rfl, edits_recordNew⟩
  | make source entry makes records after node =>
    subst after
    exact ⟨rfl, records.edits⟩
  | set source node edits records =>
    obtain rfl | ⟨perms, rfl, hp⟩ := records
    · exact evolves_same rfl rfl
    · exact ⟨rfl, .setPermission .refl fun hm => hm.changedRecord hp⟩
  | move => exact ⟨rfl, .rename .refl⟩
  | unlink | remove => exact ⟨rfl, .delete .refl⟩
  | _ => exact evolves_same rfl rfl

end Evolves

/-- **Every request makes a share evolve.** New targets of links are texts of the request. -/
theorem perform_evolves (s : Share) (r : Request) :
    s.Evolves (· ∈ r.texts) (s.perform r).2 := (perform_act rfl).evolves

end Share

end GuestShare
