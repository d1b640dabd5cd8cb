import GuestShare.Json.Value
import GuestShare.Metadata.Basic

/-!
# JSON files

Before there were category files, each category was kept as a JSON object from keys to records. A
record is an object whose missing fields are zero, or an array of the fields in order.

* `JsonFile.permissions`, `JsonFile.symlinks`, `JsonFile.types`, `JsonFile.devices`: the records in
  a value, in the order of the file. Of two under the same key the last one counts.
-/

namespace GuestShare

namespace JsonFile

/-- The fields of a record in the given order: by name from an object, by position from an array. -/
def record (names : List String) : JsonValue → Option (List (Option JsonValue))
  | .array items =>
    if names.length < items.length then none
    else some (items.map some ++ List.replicate (names.length - items.length) none)
  | v => do
    let fields ← v.fields?
    names.mapM fun name =>
      match fields.filter (·.1 = name) with
      | [] => some none
      | [(_, v)] => some (some v)
      | _ => none

/-- A number below a bound, or zero if it is missing. -/
def number (bound : Nat) : Option JsonValue → Option Nat
  | none => some 0
  | some v => v.natBelow? bound

/-- A permission record. -/
def permission (v : JsonValue) : Option Permissions := do
  match ← (← record ["mode", "uid", "gid", "mtime"] v).mapM (number UInt32.size) with
  | [mode, uid, gid, mtime] =>
    return .ofMode (.ofNat mode) (.ofNat uid) (.ofNat gid) (.ofNat mtime)
  | _ => none

/-- The kind of a node by its name. -/
def kind (v : JsonValue) : Option NodeKind := v.text?.map NodeKind.ofName

/-- The numbers of a device. -/
def device (v : JsonValue) : Option Device := do
  match ← record ["type", "major", "minor"] v with
  | [some type, major, minor] =>
    let kind := if (← type.text?) = "char" then DeviceKind.char else .block
    return ⟨kind, .ofNat (← number UInt16.size major), .ofNat (← number UInt16.size minor)⟩
  | _ => none

/-- The records in an object. -/
def entries {α : Type} (read : JsonValue → Option α) (v : JsonValue) :
    Option (List (String × α)) := do
  (← v.fields?).mapM fun (key, v) => (read v).map fun r => (key, r)

/-- The permission records. -/
def permissions : JsonValue → Option (List (String × Permissions)) := entries permission

/-- The targets of links. -/
def symlinks : JsonValue → Option (List (String × String)) := entries JsonValue.text?

/-- The kinds of nodes. -/
def types : JsonValue → Option (List (String × NodeKind)) := entries kind

/-- The device records. -/
def devices : JsonValue → Option (List (String × Device)) := entries device

end JsonFile

end GuestShare
