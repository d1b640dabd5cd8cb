import GuestShare.Metadata.Store
import GuestShare.Proofs.Metadata.CategoryFile

/-!
# The four categories alike

The store holds a ledger for each category, of records of its own type. What holds for all four is
said once, of the records of a category.

* `Category.Record`, `Category.payload`, `Category.older`: the records of a category, and how they
  are written and read.
* `Store.records`: the records that a store has of a category.
* **`Store.encode_eq`**, **`Store.records_load`**: what is written of a category and loaded of it.
-/

namespace GuestShare

namespace Category

/-- What a record of a category is. -/
def Record : Category → Type
  | permissions => Permissions
  | symlinks => String
  | types => NodeKind
  | devices => Device

/-- How the records of a category are written and read. -/
def payload : (c : Category) → Payload c.Record
  | permissions => .permission
  | symlinks => .target
  | types => .kind
  | devices => .device

/-- How the records of a category were kept before. -/
def older : (c : Category) → JsonValue → Option (List (String × c.Record))
  | permissions => JsonFile.permissions
  | symlinks => JsonFile.symlinks
  | types => JsonFile.types
  | devices => JsonFile.devices

theorem lawful_payload (c : Category) : c.payload.Lawful := by
  cases c with
  | permissions => exact Payload.lawful_permission
  | symlinks => exact Payload.lawful_target
  | types => exact Payload.lawful_kind
  | devices => exact Payload.lawful_device

end Category

namespace Store

/-- The records of a category. -/
def records (s : Store) : (c : Category) → Records c.Record
  | .permissions => s.permissions.records
  | .symlinks => s.symlinks.records
  | .types => s.kinds.records
  | .devices => s.devices.records

/-- **A category is written with the records that the store has of it.** -/
theorem encode_eq (s : Store) (c : Category) :
    s.encode c = CategoryFile.encode c.payload c (s.records c) := by
  cases c <;> rfl

/-- **A category is loaded from its own files.** -/
theorem records_load (dir : String) (h : Host) (c : Category) :
    (load dir h).records c = loadRecords c.payload c.older c (dirPath dir) h := by
  cases c <;> rfl

end Store

end GuestShare
