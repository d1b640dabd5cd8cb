import GuestShare.Host.Descriptor
import GuestShare.Settings.File
import GuestShare.Settings.PathText
import GuestShare.Share.State

/-!
# Settings

The settings of a share say what is exported, where its records are kept, and where clients connect.

* `Settings`, `Settings.check`: the settings, and whether a server can run with them. The records
  must not lie inside the exported directory, as the paths spell it.
* `Settings.ofEntries?`: the settings in a configuration file.
* `Settings.load`: a configuration file read, with its paths taken from where the file is.
* `SettingsError`: why there are no settings.
-/

namespace GuestShare

/-- The settings of a share. -/
structure Settings where
  root : String
  metadataDir : String
  socket : Option String
  iounit : UInt32
deriving Repr, DecidableEq

/-- Why there are no settings. -/
inductive SettingsError
  | unreadable (path : String)
  | malformed (path : String)
  | metadataInsideRoot (metadataDir root : String)
  | zeroIounit
deriving Repr, DecidableEq

/-- The wording of an error. -/
def SettingsError.message : SettingsError → String
  | unreadable path => "failed to read " ++ path
  | malformed path => "failed to parse " ++ path
  | metadataInsideRoot metadataDir root =>
    s!"metadata_dir {metadataDir} lies inside the exported root {root}"
  | zeroIounit => "iounit must be non-zero"

namespace Settings

/-- The settings of two paths. -/
def ofPaths (root metadataDir : String) : Settings := ⟨root, metadataDir, none, Share.defaultIounit⟩

/-- What to share. -/
def options (c : Settings) : ShareOptions := ⟨c.root, c.metadataDir, c.iounit⟩

/-- Whether one path spells a place at or below another. -/
def liesWithin (workDir : List Name) (path root : String) : Bool :=
  ((Path.ofText root).lexical workDir).isPrefixOf ((Path.ofText path).lexical workDir)

/-- Refuse settings that a server cannot run with. -/
def check (c : Settings) (workDir : List Name) : Except SettingsError Unit :=
  if c.iounit = 0 then .error .zeroIounit
  else if liesWithin workDir c.metadataDir c.root then
    .error (.metadataInsideRoot c.metadataDir c.root)
  else .ok ()

/-! ## Configuration files -/

/-- The keys of a configuration file. -/
def keys : List String := ["root", "metadata_dir", "socket", "iounit"]

/-- The text of a value. -/
def text? : ConfigValue → Option String
  | .text s => some s
  | .number _ => none

/-- The word of a value. -/
def word? : ConfigValue → Option UInt32
  | .number n => if n < UInt32.size then some (UInt32.ofNat n) else none
  | .text _ => none

/-- The value of a key that may be missing, read by `read`. -/
def optional {α : Type} (read : ConfigValue → Option α) (es : List (String × ConfigValue))
    (key : String) : Option (Option α) :=
  match es.lookup key with
  | none => some none
  | some v => (read v).map some

/-- The settings in a configuration file. No key is unknown or comes up twice, and both paths are
there. -/
def ofEntries? (es : List (String × ConfigValue)) : Option Settings := do
  if !(es.all fun e => keys.contains e.1) || !(keys.all fun k => es.countP (·.1 = k) ≤ 1) then none
  let root ← ← optional text? es "root"
  let metadataDir ← ← optional text? es "metadata_dir"
  let socket ← optional text? es "socket"
  let iounit ← optional word? es "iounit"
  return ⟨root, metadataDir, socket, iounit.getD Share.defaultIounit⟩

/-- The settings with all paths taken from a directory. -/
def takenFrom (c : Settings) (base : String) : Settings :=
  { c with
    root := PathText.join base c.root
    metadataDir := PathText.join base c.metadataDir
    socket := c.socket.map (PathText.join base) }

/-- Read a configuration file, wherever its settings lead. -/
def readFrom (path : String) (h : Host) : Except SettingsError Settings := do
  let .ok bs := h.fileBytes (Path.ofText path) | throw (.unreadable path)
  let some text := Bytes.toText? bs | throw (.unreadable path)
  let some c := (ConfigFile.parse text).bind ofEntries? | throw (.malformed path)
  return c.takenFrom (PathText.parent path)

/-- Read a configuration file. -/
def load (path : String) (h : Host) : Except SettingsError Settings := do
  let c ← readFrom path h
  c.check h.workDir.names
  return c

end Settings

end GuestShare
