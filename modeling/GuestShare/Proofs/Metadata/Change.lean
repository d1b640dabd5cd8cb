import GuestShare.Proofs.Metadata.Disk
import GuestShare.Proofs.Metadata.Ledger

/-!
# Changes in memory

Records change in memory first, and whatever changes a ledger leaves it pending.

* `Store.Kept`: stores each ledger of which is pending or unchanged.
* `Store.Change`, `Change.apply`: the changes that a store offers.
* **`Change.kept`**, **`OnDisk.kept`**: they leave what is not pending on the disk.
-/

namespace GuestShare

namespace Store

variable {s s' s'' : Store} {h : Host} {key old new : String}

/-- Each ledger is pending, or what it was. -/
structure Kept (s s' : Store) : Prop where
  dir : s'.dir = s.dir
  permissions : s.permissions.Kept s'.permissions
  symlinks : s.symlinks.Kept s'.symlinks
  kinds : s.kinds.Kept s'.kinds
  devices : s.devices.Kept s'.devices

theorem Kept.refl (s : Store) : Kept s s := ⟨rfl, .refl _, .refl _, .refl _, .refl _⟩

theorem Kept.trans (h₁ : Kept s s') (h₂ : Kept s' s'') : Kept s s'' where
  dir := h₂.dir.trans h₁.dir
  permissions := h₁.permissions.trans h₂.permissions
  symlinks := h₁.symlinks.trans h₂.symlinks
  kinds := h₁.kinds.trans h₂.kinds
  devices := h₁.devices.trans h₂.devices

theorem kept_setPermission {r : Permissions} : Kept s (s.setPermission key r) :=
  ⟨rfl, Ledger.kept_set, .refl _, .refl _, .refl _⟩

theorem kept_setKind {k : NodeKind} : Kept s (s.setKind key k) :=
  ⟨rfl, .refl _, .refl _, Ledger.kept_set, .refl _⟩

theorem kept_setSymlink {target : String} : Kept s (s.setSymlink key target) :=
  ⟨rfl, .refl _, Ledger.kept_set, Ledger.kept_set, .refl _⟩

theorem kept_setDevice {r : Device} : Kept s (s.setDevice key r) :=
  ⟨rfl, .refl _, .refl _, .refl _, Ledger.kept_set⟩

theorem kept_delete : Kept s (s.delete key) :=
  ⟨rfl, Ledger.kept_delete, Ledger.kept_delete, Ledger.kept_delete, Ledger.kept_delete⟩

theorem kept_rename : Kept s (s.rename old new) :=
  ⟨rfl, Ledger.kept_rename, Ledger.kept_rename, Ledger.kept_rename, Ledger.kept_rename⟩

/-- A change of the records. -/
inductive Change
  | setPermission (key : String) (r : Permissions)
  | setKind (key : String) (k : NodeKind)
  | setSymlink (key target : String)
  | setDevice (key : String) (r : Device)
  | delete (key : String)
  | rename (old new : String)

/-- The store after a change. -/
def Change.apply (s : Store) : Change → Store
  | setPermission key r => s.setPermission key r
  | setKind key k => s.setKind key k
  | setSymlink key target => s.setSymlink key target
  | setDevice key r => s.setDevice key r
  | delete key => s.delete key
  | rename old new => s.rename old new

/-- **Every change leaves ledgers pending or as they were.** -/
theorem Change.kept (s : Store) (c : Change) : s.Kept (c.apply s) := by
  cases c with
  | setPermission => exact kept_setPermission
  | setKind => exact kept_setKind
  | setSymlink => exact kept_setSymlink
  | setDevice => exact kept_setDevice
  | delete => exact kept_delete
  | rename => exact kept_rename

/-- **Changes in memory leave what is not pending on the disk.** -/
theorem OnDisk.kept (ho : s.OnDisk h) (hk : s.Kept s') : s'.OnDisk h := by
  refine ⟨fun c => ?_, hk.dir ▸ ho.plain, hk.dir ▸ ho.reached⟩
  cases c with
  | permissions =>
    intro hp
    have he := hk.permissions hp
    rw [he, hk.dir]
    exact ho.settled .permissions (he ▸ hp)
  | symlinks =>
    intro hp
    have he := hk.symlinks hp
    rw [he, hk.dir]
    exact ho.settled .symlinks (he ▸ hp)
  | types =>
    intro hp
    have he := hk.kinds hp
    rw [he, hk.dir]
    exact ho.settled .types (he ▸ hp)
  | devices =>
    intro hp
    have he := hk.devices hp
    rw [he, hk.dir]
    exact ho.settled .devices (he ▸ hp)

end Store

end GuestShare
