import GuestShare.Settings.Basic

/-!
# Arguments of the command line

* `Arguments`, `Arguments.parse?`: what the arguments say, if they are well formed. Each option may
  be given once, with its value behind it or behind an equals sign.
* `Arguments.resolve`: the settings that arguments and configuration file make together. What the
  arguments say goes before what the file says.
-/

namespace GuestShare

/-- What the arguments say. -/
structure Arguments where
  config : Option String
  root : Option String
  metadataDir : Option String
  socket : Option String
  iounit : Option UInt32
  verbose : Bool
deriving Repr, DecidableEq

/-- Why arguments make no settings. -/
inductive ArgumentsError
  | settings (e : SettingsError)
  | metadataDirMissing
  | nothingToShare
deriving Repr, DecidableEq

/-- The wording of an error. -/
def ArgumentsError.message : ArgumentsError → String
  | settings e => e.message
  | metadataDirMissing => "--metadata-dir is required with --root"
  | nothingToShare => "either --config or --root/--metadata-dir is required"

namespace Arguments

/-- Nothing is said. -/
def empty : Arguments := ⟨none, none, none, none, none, false⟩

/-- A path as the value of an option. -/
def path? (s : String) : Option String := if s.isEmpty then none else some s

/-- The value of a whole number with an optional sign. -/
def word? (s : String) : Option UInt32 := do
  let n ← match s.toList with
    | '+' :: ds => Text.number? 10 ds
    | '-' :: ds => (Text.number? 10 ds).filter (· = 0)
    | ds => Text.number? 10 ds
  if n < UInt32.size then some (UInt32.ofNat n) else none

/-- The value of an option that must not have one yet. -/
def once {α : Type} (had given : Option α) : Option (Option α) :=
  if had.isSome then none else given.map some

/-- The arguments with the value of one more option. -/
def setValue (a : Arguments) (option value : String) : Option Arguments :=
  match option with
  | "--config" => (once a.config (path? value)).map ({ a with config := · })
  | "--root" => (once a.root (path? value)).map ({ a with root := · })
  | "--metadata-dir" => (once a.metadataDir (path? value)).map ({ a with metadataDir := · })
  | "--socket" => (once a.socket (path? value)).map ({ a with socket := · })
  | "--iounit" => (once a.iounit (word? value)).map ({ a with iounit := · })
  | _ => none

/-- Whether an argument can be the value of an option before it. -/
def isValue (s : String) : Bool := s.toList.head? ≠ some '-' || s = "-"

/-- What stands before and behind the first equals sign, if there is one. -/
def splitEquals (s : String) : List Char × Option (List Char) :=
  match s.toList.span (· ≠ '=') with
  | (option, '=' :: value) => (option, some value)
  | (option, _) => (option, none)

/-- The arguments so far and what the rest of them says. -/
def parseOnto (a : Arguments) : List String → Option Arguments
  | [] => some a
  | ["--"] => some a
  | arg :: rest =>
    if arg = "-v" || arg = "--verbose" then
      if a.verbose then none else parseOnto { a with verbose := true } rest
    else
      match splitEquals arg, rest with
      | (option, some value), rest =>
        match a.setValue (String.ofList option) (String.ofList value) with
        | some a => parseOnto a rest
        | none => none
      | (_, none), value :: rest =>
        if isValue value then
          match a.setValue arg value with
          | some a => parseOnto a rest
          | none => none
        else none
      | (_, none), [] => none

/-- What the arguments say, if they are well formed. -/
def parse? (args : List String) : Option Arguments := empty.parseOnto args

/-! ## Settings -/

/-- The settings that the file makes, if one is named. -/
def fromFile (a : Arguments) (h : Host) : Except ArgumentsError (Option Settings) :=
  match a.config with
  | none => .ok none
  | some path => (Settings.load path h).mapError .settings |>.map some

/-- The settings before the arguments for single ones count. -/
def base (a : Arguments) (file : Option Settings) : Except ArgumentsError Settings :=
  match a.root, file with
  | none, none => .error .nothingToShare
  | none, some c => .ok c
  | some root, some c => .ok { c with root }
  | some root, none =>
    match a.metadataDir with
    | some metadataDir => .ok (.ofPaths root metadataDir)
    | none => .error .metadataDirMissing

/-- The settings with what the arguments say. -/
def override (a : Arguments) (c : Settings) : Settings :=
  { c with
    metadataDir := a.metadataDir.getD c.metadataDir
    socket := a.socket.or c.socket
    iounit := a.iounit.getD c.iounit }

/-- The settings that arguments and file make together. -/
def resolve (a : Arguments) (h : Host) : Except ArgumentsError Settings := do
  let c ← a.base (← a.fromFile h)
  let c := a.override c
  (c.check h.workDir.names).mapError .settings
  return c

end Arguments

end GuestShare
