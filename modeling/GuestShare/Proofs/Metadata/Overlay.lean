import GuestShare.Proofs.Metadata.Flush
import GuestShare.Proofs.Metadata.Ledger
import GuestShare.Share.Open

/-!
# What the store holds under a key

The four ledgers are kept apart, but what they hold under one key belongs to one node.

* `Overlay`, `Store.overlay`: the records under a key, together.
* `Overlay.Coherent`: records that fit each other.
* `Permissions.Masked`: records of permission bits and nothing else.
* **`overlay_delete`**, **`overlay_recordNew`**, **`overlay_rename`**: what changes do to them.
-/

namespace GuestShare

/-- The kind of a node that is a device. -/
def DeviceKind.nodeKind : DeviceKind → NodeKind
  | char => .charDevice
  | block => .blockDevice

/-- The mode of a record holds permission bits only. -/
def Permissions.Masked (r : Permissions) : Prop :=
  r.mode.toUInt32 &&& permissionMask = r.mode.toUInt32

/-- The records under a key. -/
structure Overlay where
  permission : Option Permissions
  symlink : Option String
  kind : Option NodeKind
  device : Option Device

namespace Overlay

/-- No records. -/
def blank : Overlay := ⟨none, none, none, none⟩

/-- Links have targets and devices have numbers, of their own kind, and nothing else has; what has a
kind has permissions. -/
structure Coherent (o : Overlay) : Prop where
  symlink : o.symlink.isSome = true ↔ o.kind = some .symlink
  device : o.device.isSome = true ↔ o.kind = some .charDevice ∨ o.kind = some .blockDevice
  deviceKind : ∀ d, o.device = some d → o.kind = some d.kind.nodeKind
  permission : o.kind.isSome = true → o.permission.isSome = true

variable {o : Overlay} {r : Permissions} {kind : NodeKind} {target : String} {d : Device}

theorem coherent_blank : blank.Coherent where
  symlink := by simp [blank]
  device := by simp [blank]
  deviceKind _ hd := by cases hd
  permission hk := by cases hk

theorem Coherent.setPermission (ho : o.Coherent) :
    Coherent { o with permission := some r } where
  symlink := ho.symlink
  device := ho.device
  deviceKind := ho.deviceKind
  permission _ := rfl

theorem coherent_plain (hk : kind ≠ .symlink ∧ kind ≠ .charDevice ∧ kind ≠ .blockDevice) :
    Coherent ⟨some r, none, some kind, none⟩ where
  symlink := by simp [hk.1]
  device := by simp [hk.2.1, hk.2.2]
  deviceKind _ hd := by cases hd
  permission _ := rfl

theorem coherent_link : Coherent ⟨some r, some target, some .symlink, none⟩ where
  symlink := by simp
  device := by simp
  deviceKind _ hd := by cases hd
  permission _ := rfl

theorem coherent_device : Coherent ⟨some r, none, some d.kind.nodeKind, some d⟩ where
  symlink := by cases d.kind <;> simp [DeviceKind.nodeKind]
  device := by cases d.kind <;> simp [DeviceKind.nodeKind]
  deviceKind d' hd := by
    cases hd
    rfl
  permission _ := rfl

/-- The permissions, if there are any, hold permission bits only. -/
def Masked (o : Overlay) : Prop := ∀ r, o.permission = some r → r.Masked

end Overlay

/-! ## Permission bits -/

theorem Permissions.toUInt32_and_mask (mode : UInt32) :
    (mode &&& permissionMask).toUInt16.toUInt32 = mode &&& permissionMask := by
  have hle : (mode &&& permissionMask).toNat ≤ 4095 := by
    rw [UInt32.toNat_and]
    exact Nat.and_le_right
  apply UInt32.toNat_inj.mp
  rw [UInt16.toNat_toUInt32, UInt32.toNat_toUInt16]
  omega

theorem Permissions.masked_of_and {r : Permissions} {mode : UInt32}
    (hr : r.mode = (mode &&& permissionMask).toUInt16) : r.Masked := by
  unfold Masked
  rw [hr, toUInt32_and_mask, UInt32.and_assoc, UInt32.and_self]

theorem Permissions.masked_ofMode {mode uid gid mtime : UInt32} :
    (Permissions.ofMode mode uid gid mtime).Masked := masked_of_and rfl

theorem Overlay.masked_ofMode {mode uid gid mtime : UInt32} {symlink : Option String}
    {kind : Option NodeKind} {device : Option Device} :
    Overlay.Masked ⟨some (.ofMode mode uid gid mtime), symlink, kind, device⟩ := by
  intro r hr
  cases hr
  exact Permissions.masked_ofMode

namespace Store

variable {s s' : Store} {key k old new : String}

/-- What the store holds under a key. -/
def overlay (s : Store) (key : String) : Overlay :=
  ⟨s.permission key, s.symlink key, s.kind key, s.device key⟩

/-- Every record of permissions holds permission bits only. -/
def Masked (s : Store) : Prop := ∀ k, (s.overlay k).Masked

theorem SameRecords.overlay (hs : SameRecords s s') (k : String) : s'.overlay k = s.overlay k := by
  unfold Store.overlay permission symlink kind device
  rw [hs.permissions, hs.symlinks, hs.kinds, hs.devices]

/-! ## Changes -/

theorem overlay_setPermission {r : Permissions} :
    (s.setPermission key r).overlay k =
      if k = key then { s.overlay key with permission := some r } else s.overlay k := by
  by_cases hk : k = key
  · subst hk
    simp [overlay, setPermission, permission, symlink, kind, device, Ledger.getElem?_set]
  · simp [overlay, setPermission, permission, symlink, kind, device, Ledger.getElem?_set, hk]

theorem overlay_setSymlink {target : String} :
    (s.setSymlink key target).overlay k =
      if k = key then { s.overlay key with symlink := some target, kind := some .symlink }
      else s.overlay k := by
  by_cases hk : k = key
  · subst hk
    simp [overlay, setSymlink, permission, symlink, kind, device, Ledger.getElem?_set]
  · simp [overlay, setSymlink, permission, symlink, kind, device, Ledger.getElem?_set, hk]

theorem overlay_setDevice {d : Device} :
    (s.setDevice key d).overlay k =
      if k = key then { s.overlay key with device := some d } else s.overlay k := by
  by_cases hk : k = key
  · subst hk
    simp [overlay, setDevice, permission, symlink, kind, device, Ledger.getElem?_set]
  · simp [overlay, setDevice, permission, symlink, kind, device, Ledger.getElem?_set, hk]

/-- **Dropping records** drops all there are under the key. -/
theorem overlay_delete :
    (s.delete key).overlay k = if k = key then .blank else s.overlay k := by
  by_cases hk : k = key
  · simp [overlay, delete, permission, symlink, kind, device, Ledger.getElem?_delete, hk,
      Overlay.blank]
  · simp [overlay, delete, permission, symlink, kind, device, Ledger.getElem?_delete, hk]

/-- **The records of a new node** replace all there are under the key. -/
theorem overlay_recordNew {kind : NodeKind} {mode uid gid : UInt32} {now : Instant} :
    (Share.recordNew s key kind mode uid gid now).overlay k =
      if k = key then ⟨some (.ofMode mode uid gid now.short), none, some kind, none⟩
      else s.overlay k := by
  by_cases hk : k = key
  · simp [overlay, Share.recordNew, setKind, setPermission, delete, permission, symlink,
      Store.kind, device, Ledger.getElem?_delete, Ledger.getElem?_set, hk]
  · simp [overlay, Share.recordNew, setKind, setPermission, delete, permission, symlink,
      Store.kind, device, Ledger.getElem?_delete, Ledger.getElem?_set, hk]

/-- **Moving records** moves all there are at or below the key. -/
theorem overlay_rename {t : String} (hne : old ≠ new) (hs : suffix? new k = some t) :
    (s.rename old new).overlay k = s.overlay (old ++ t) := by
  simp only [overlay, rename, permission, symlink, kind, device, Ledger.getElem?_rename _ hne, hs]

theorem overlay_rename_of_none (hne : old ≠ new) (hs : suffix? new k = none) :
    (s.rename old new).overlay k = if covers old k = true then .blank else s.overlay k := by
  simp only [overlay, rename, permission, symlink, kind, device, Ledger.getElem?_rename _ hne, hs]
  by_cases hc : covers old k = true
  · simp only [hc, if_true]
    rfl
  · simp only [hc, Bool.false_eq_true, if_false]

theorem rename_self : s.rename key key = s := by
  simp [rename, Ledger.rename]

/-! ## Permission bits under changes -/

theorem Masked.setPermission {r : Permissions} (hm : s.Masked) (hr : r.Masked) :
    (s.setPermission key r).Masked := by
  intro k r' hk
  rw [overlay_setPermission] at hk
  split_ifs at hk
  · cases hk
    exact hr
  · exact hm k r' hk

theorem Masked.delete (hm : s.Masked) : (s.delete key).Masked := by
  intro k r hk
  rw [overlay_delete] at hk
  split_ifs at hk
  · cases hk
  · exact hm k r hk

theorem Masked.rename (hm : s.Masked) : (s.rename old new).Masked := by
  intro k r hk
  by_cases hsame : old = new
  · rw [hsame, rename_self] at hk
    exact hm k r hk
  cases hs : suffix? new k with
  | some t =>
    rw [overlay_rename hsame hs] at hk
    exact hm _ r hk
  | none =>
    rw [overlay_rename_of_none hsame hs] at hk
    split_ifs at hk
    · cases hk
    · exact hm k r hk

end Store

end GuestShare
