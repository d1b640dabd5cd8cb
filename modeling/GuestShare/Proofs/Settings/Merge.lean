import GuestShare.Host.Tree
import GuestShare.Proofs.Outcome
import GuestShare.Settings.Arguments

/-!
# Arguments before the file

Settings come from arguments and from a configuration file, and what the arguments say goes first.
But the file has to pass the check by itself before any argument counts, so a value that an argument
replaces can still be refused.

* `Arguments.Reads`: what a configuration file that can be read and parsed says.
* `Arguments.merged`: each setting from its argument, or else from the file.
* **`resolve_eq`**: the file is checked, and then the merged settings.
* **`resolve_merged`**: what comes of the arguments, and that a replaced value counts no further.
-/

namespace GuestShare

namespace Arguments

variable {a : Arguments} {h h' : Host} {file : Option Settings} {f f' c : Settings}
  {e : SettingsError}

/-- What the configuration file says, if one is named, with its paths taken from where it is. -/
inductive Reads (a : Arguments) (h : Host) : Option Settings → Prop
  | unnamed : a.config = none → Reads a h none
  | named {path text : String} {bs : Bytes} {es : List (String × ConfigValue)} {c : Settings} :
      a.config = some path → h.fileBytes (Path.ofText path) = .ok bs →
        Bytes.toText? bs = some text → ConfigFile.parse text = some es →
          Settings.ofEntries? es = some c → Reads a h (some (c.takenFrom (PathText.parent path)))

/-- Each setting from its argument if there is one, or else from the file, or else as it is by
default. Both directories have to come from somewhere. -/
def merged (a : Arguments) (file : Option Settings) : Option Settings := do
  let root ← a.root.or (file.map Settings.root)
  let metadataDir ← a.metadataDir.or (file.map Settings.metadataDir)
  return {
    root, metadataDir
    socket := a.socket.or (file.bind Settings.socket)
    iounit := (a.iounit.or (file.map Settings.iounit)).getD Share.defaultIounit }

/-- The merged settings, or why there are none. -/
def merge (a : Arguments) (file : Option Settings) : Except ArgumentsError Settings :=
  match a.merged file with
  | some c => .ok c
  | none => .error (if a.root.isSome then .metadataDirMissing else .nothingToShare)

theorem merge_eq (a : Arguments) (file : Option Settings) :
    a.merge file = (do let c ← a.base file; return a.override c) := by
  obtain ⟨config, root, metadataDir, socket, iounit, verbose⟩ := a
  cases file with
  | none =>
    cases root with
    | none => rfl
    | some root =>
      cases metadataDir with
      | none => rfl
      | some metadataDir =>
        cases iounit <;> simp [base, merge, merged, override, Settings.ofPaths]
  | some f =>
    cases root <;> cases metadataDir <;> cases iounit <;> simp [base, merge, merged, override]

/-- The file passes the check by itself, if there is one. -/
def checkFile (workDir : List Name) : Option Settings → Except SettingsError Unit
  | none => .ok ()
  | some f => f.check workDir

theorem fromFile_eq (hr : a.Reads h file) : a.fromFile h =
    (do (checkFile h.workDir.names file).mapError .settings; return file) := by
  cases hr with
  | unnamed ha => simp [fromFile, ha, checkFile, Except.mapError]
  | @named path text bs es c ha hb ht hp he =>
    have hread : Settings.readFrom path h = .ok (c.takenFrom (PathText.parent path)) := by
      simp [Settings.readFrom, hb, ht, hp, he]
    simp only [fromFile, ha, Settings.load, hread, checkFile, Outcome.ok_bind]
    cases (c.takenFrom (PathText.parent path)).check h.workDir.names <;> rfl

/-- **The file is checked by itself, and then the merged settings are.** -/
theorem resolve_eq (hr : a.Reads h file) : a.resolve h = do
    (checkFile h.workDir.names file).mapError .settings
    let c ← a.merge file
    (c.check h.workDir.names).mapError .settings
    return c := by
  rw [resolve, fromFile_eq hr, merge_eq]
  simp only [bind_assoc, pure_bind]

/-- **There are settings exactly if the merged ones are complete and pass the check**, and the file
passes it too. -/
theorem resolve_eq_ok_iff (hr : a.Reads h file) : a.resolve h = .ok c ↔
    a.merged file = some c ∧ c.check h.workDir.names = .ok () ∧
      checkFile h.workDir.names file = .ok () := by
  rw [resolve_eq hr]
  simp only [Outcome.bind_eq_ok_iff, Outcome.mapError_eq_ok_iff, Outcome.pure_eq_ok,
    Except.ok.injEq, merge]
  constructor
  · rintro ⟨⟨⟩, hfile, c', hc', ⟨⟩, hcheck, rfl⟩
    split at hc'
    next c hc =>
      cases hc'
      exact ⟨hc, hcheck, hfile⟩
    next => cases hc'
  · rintro ⟨hc, hcheck, hfile⟩
    exact ⟨(), hfile, c, by rw [hc], (), hcheck, rfl⟩

theorem resolve_of_checkFile (hr : a.Reads h file)
    (he : checkFile h.workDir.names file = .error e) : a.resolve h = .error (.settings e) := by
  rw [resolve_eq hr, he]
  rfl

/-- Two files that say the same wherever the arguments say nothing. -/
structure Agree (a : Arguments) (f f' : Settings) : Prop where
  root : a.root = none → f.root = f'.root
  metadataDir : a.metadataDir = none → f.metadataDir = f'.metadataDir
  socket : a.socket = none → f.socket = f'.socket
  iounit : a.iounit = none → f.iounit = f'.iounit

theorem Agree.merged (hf : a.Agree f f') : a.merged (some f) = a.merged (some f') := by
  obtain ⟨config, root, metadataDir, socket, iounit, verbose⟩ := a
  obtain ⟨hroot, hmetadata, hsocket, hiounit⟩ := hf
  have hr : root.or (some f.root) = root.or (some f'.root) := by
    cases root with
    | none => simp [hroot rfl]
    | some _ => rfl
  have hm : metadataDir.or (some f.metadataDir) = metadataDir.or (some f'.metadataDir) := by
    cases metadataDir with
    | none => simp [hmetadata rfl]
    | some _ => rfl
  have hs : socket.or f.socket = socket.or f'.socket := by
    cases socket with
    | none => simp [hsocket rfl]
    | some _ => rfl
  have hi : iounit.or (some f.iounit) = iounit.or (some f'.iounit) := by
    cases iounit with
    | none => simp [hiounit rfl]
    | some _ => rfl
  simp only [Arguments.merged, Option.map_some, Option.bind_some, hr, hm, hs, hi]

/-- **Arguments go before the file**, which has to pass the check by itself. There are settings
exactly if the merged ones are complete and pass the check, and the file passes it too; these are
the settings then. A file that does not pass it is the reason why there are none. A value that an
argument replaces has no other influence: two files that pass the check, and say the same wherever
the arguments say nothing, have the same outcome. -/
theorem resolve_merged (hr : a.Reads h file) :
    (∀ c, a.resolve h = .ok c ↔ a.merged file = some c ∧ c.check h.workDir.names = .ok () ∧
      checkFile h.workDir.names file = .ok ()) ∧
      (∀ e, checkFile h.workDir.names file = .error e → a.resolve h = .error (.settings e)) ∧
        ∀ h' f f', file = some f → a.Reads h' (some f') → h'.workDir.names = h.workDir.names →
          a.Agree f f' → f.check h.workDir.names = .ok () → f'.check h.workDir.names = .ok () →
            a.resolve h' = a.resolve h := by
  refine ⟨fun c => resolve_eq_ok_iff hr, fun e he => resolve_of_checkFile hr he, ?_⟩
  rintro h' f f' rfl hr' hdir hagree hf hf'
  have hmerge : a.merge (some f') = a.merge (some f) := by
    unfold merge
    rw [hagree.merged]
  rw [resolve_eq hr, resolve_eq hr', hdir, hmerge, checkFile, checkFile, hf, hf']

/-! ## A file that is refused -/

/-- A host with a configuration file. -/
def configured (text : String) : Host :=
  ((Chore.file (Bytes.ofText text) Host.fileMode).perform (Path.ofText "/c.toml")
    (.empty ⟨0, 0⟩)).2

theorem reads_configured (text : String) (ha : a.config = some "/c.toml")
    (hb : (configured text).fileBytes (Path.ofText "/c.toml") = .ok (Bytes.ofText text))
    (hc : (ConfigFile.parse text).bind Settings.ofEntries? = some c) :
    a.Reads (configured text) (some (c.takenFrom "/")) := by
  obtain ⟨es, hp, he⟩ := Option.bind_eq_some_iff.mp hc
  have hparent : PathText.parent "/c.toml" = "/" := by decide +kernel
  rw [← hparent]
  exact .named ha hb (Bytes.toText?_ofText text) hp he

/-- An argument goes before the file. -/
theorem resolve_merged_iounit :
    resolve ⟨some "/c.toml", none, none, none, some 16, false⟩
        (configured "root = \"r\"\nmetadata_dir = \"m\"\niounit = 7\n") =
      .ok ⟨"/r", "/m", none, 16⟩ := by
  have hreads := reads_configured "root = \"r\"\nmetadata_dir = \"m\"\niounit = 7\n"
    (a := ⟨some "/c.toml", none, none, none, some 16, false⟩) (c := ⟨"r", "m", none, 7⟩)
    rfl rfl (by decide +kernel)
  exact ((resolve_merged hreads).1 _).mpr ⟨by decide +kernel, by decide +kernel, by decide +kernel⟩

/-- Values that are replaced can be refused: a size of zero, and a metadata directory inside the
exported one. -/
theorem exists_resolve_ne_merged :
    (∃ a h file c, Reads a h file ∧ a.iounit.isSome ∧ a.merged file = some c ∧
      c.check h.workDir.names = .ok () ∧ a.resolve h = .error (.settings .zeroIounit)) ∧
      ∃ a h file c, Reads a h file ∧ a.metadataDir.isSome ∧ a.merged file = some c ∧
        c.check h.workDir.names = .ok () ∧
          a.resolve h = .error (.settings (.metadataInsideRoot "/r/m" "/r")) := by
  refine ⟨⟨⟨some "/c.toml", none, none, none, some 16, false⟩,
    configured "root = \"r\"\nmetadata_dir = \"m\"\niounit = 0\n", _, ⟨"/r", "/m", none, 16⟩,
    reads_configured _ (c := ⟨"r", "m", none, 0⟩) rfl rfl (by decide +kernel), rfl, ?_, ?_, ?_⟩,
    ⟨some "/c.toml", none, some "/m", none, none, false⟩,
    configured "root = \"r\"\nmetadata_dir = \"r/m\"\n", _, ⟨"/r", "/m", none, 8192⟩,
    reads_configured _ (c := ⟨"r", "r/m", none, 8192⟩) rfl rfl (by decide +kernel), rfl, ?_, ?_, ?_⟩
  all_goals decide +kernel

end Arguments

end GuestShare
