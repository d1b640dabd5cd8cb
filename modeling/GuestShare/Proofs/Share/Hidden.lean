import GuestShare.Proofs.Host.Unlinked
import GuestShare.Proofs.Share.Failure
import GuestShare.Proofs.Share.Report
import GuestShare.Proofs.Share.Stray
import GuestShare.Proofs.Share.Walking
import GuestShare.Settings.Arguments

/-!
# Where the records are out of reach

Settings are refused if the metadata path spells a place in the exported directory. The server
exports the place to which the root leads, and keeps the records where the metadata path leads, so
the refusal is what it says as long as both paths lead where they spell.

* `Settings.Accepted`: settings that are read from a file, made of arguments, or checked.
* `Accepted.not_prefix`: the metadata path of such settings spells a place outside the export.
* `Reachable.workDir_eq`: a server stays in its working directory.
* **`accepted_hidden`**: where the two paths meet no link, the records are out of reach.
* **`exists_accepted_not_hidden`**: where the root is a link, they may be in the export.
-/

namespace GuestShare

namespace Settings

/-- The settings have been read from a configuration file, made of arguments, or checked. -/
inductive Accepted (c : Settings) (h : Host) : Prop
  | read (path : String) : load path h = .ok c → Accepted c h
  | made (args : List String) (a : Arguments) : Arguments.parse? args = some a →
      a.resolve h = .ok c → Accepted c h
  | checked : c.check h.workDir.names = .ok () → Accepted c h

variable {c : Settings} {h : Host} {workDir : List Name}

theorem Accepted.check (ha : c.Accepted h) : c.check h.workDir.names = .ok () := by
  cases ha with
  | read path hload =>
    obtain ⟨c', -, hload⟩ := Outcome.bind_eq_ok_iff.mp hload
    obtain ⟨⟨⟩, hcheck, hload⟩ := Outcome.bind_eq_ok_iff.mp hload
    cases hload
    exact hcheck
  | made args a _ hresolve =>
    obtain ⟨file, -, hresolve⟩ := Outcome.bind_eq_ok_iff.mp hresolve
    obtain ⟨c', -, hresolve⟩ := Outcome.bind_eq_ok_iff.mp hresolve
    obtain ⟨⟨⟩, hcheck, hresolve⟩ := Outcome.bind_eq_ok_iff.mp hresolve
    cases hresolve
    exact Outcome.mapError_eq_ok_iff.mp hcheck
  | checked hcheck => exact hcheck

/-- **The metadata path of settings that are accepted spells a place outside the export.** -/
theorem Accepted.not_prefix (ha : c.Accepted h) :
    ¬ (Path.ofText c.root).lexical h.workDir.names <+:
      (Path.ofText c.metadataDir).lexical h.workDir.names := by
  have hcheck := ha.check
  unfold Settings.check at hcheck
  split_ifs at hcheck with _ hin
  intro hp
  exact hin (List.isPrefixOf_iff_prefix.mpr hp)

end Settings

/-- The path of the metadata directory spells what was given, also where that is empty. -/
theorem Store.lexical_dirPath {dir : String} {workDir : List Name} :
    (dirPath dir).lexical workDir = (Path.ofText dir).lexical workDir := by
  unfold dirPath
  simp only
  split_ifs with he
  · have hempty : (Path.ofText dir).absolute = false ∧ (Path.ofText dir).steps = [] := by
      simp only [Path.isEmpty, Bool.and_eq_true, Bool.not_eq_true', List.isEmpty_iff] at he
      exact he.1
    rw [Path.lexical_eq, Path.lexical_eq, hempty.1, hempty.2]
    rfl
  · rfl

namespace Share

variable {s s₀ : Share} {c : Settings} {h h₁ : Host} {place q : Place} {p : GuestPath} {n : Node}
  {names : List String}

theorem Reachable.workDir_eq (hr : s₀.Reachable s) : s.host.workDir = s₀.host.workDir :=
  hr.invariant (P := fun s => s.host.workDir = s₀.host.workDir) rfl
    (fun t r ht => Store.flush_puts.workDir_eq.trans ((perform_deed t r).workDir_eq.trans ht))
    fun _ ht => ht

theorem prefix_of_mem_steps (hn : n ∈ s.steps p names)
    (hq : s.host.find .follow (s.hostPath n.path) = .ok q) : s.root <+: q.names := by
  induction names generalizing p with
  | nil => cases hn
  | cons name names ih =>
    cases hstep : s.step p name with
    | none =>
      rw [steps_cons_none hstep] at hn
      cases hn
    | some m =>
      rw [steps_cons_some hstep] at hn
      obtain rfl | hn := List.mem_cons.mp hn
      · obtain ⟨hpass, hnode⟩ := step_eq_some_iff.mp hstep
        obtain ⟨real, hreal, hin⟩ := hpass.inside
        obtain ⟨q', hq', rfl⟩ := Outcome.map_eq_ok_iff.mp hreal
        rw [path_of_node hnode] at hq
        cases hq.symm.trans hq'
        exact hin
      · exact ih hn

/-- **The metadata directory of settings that are accepted is out of reach**, if neither the path of
the root nor that of the metadata directory meets a link: it is not in the export, and no walk
reaches an entry of it but the exported directory itself. After the start the server may have gone
on with any other host `h₁`. -/
theorem accepted_hidden (ha : c.Accepted h) (hs : (start c.options h).1 = .ok s₀)
    (hroot : s₀.host.Unlinked (Path.ofText c.root)) (hw : h₁.workDir = s₀.host.workDir)
    (hr : (s₀.on h₁).Reachable s) (hmeta : s.host.Unlinked (Store.dirPath c.metadataDir))
    (hf : s.host.find .follow (Store.dirPath s.store.dir) = .ok place) :
    ¬ s.root <+: place.names ∧
      ∀ p names n q name, n ∈ s.steps p names →
        s.host.find .follow (s.hostPath n.path) = .ok q → q.names = place.names ++ [name] →
        q.names = s.root := by
  obtain ⟨-, -, hcanon, hstore, -⟩ := start_eq_ok hs
  obtain ⟨top, htop, hnames⟩ := Outcome.map_eq_ok_iff.mp hcanon
  obtain ⟨I, hputs⟩ := start_puts hs
  have hwork : s.host.workDir = h.workDir := hr.workDir_eq.trans (hw.trans hputs.workDir_eq)
  have hrootNames : s.root = (Path.ofText c.root).lexical h.workDir.names := by
    rw [hr.root_eq, ← hputs.workDir_eq, ← hroot.names_eq htop]
    exact hnames.symm
  have hdir : s.store.dir = c.metadataDir := by
    rw [hr.dir_eq]
    exact congrArg Store.dir hstore
  have hplace : place.names = (Path.ofText c.metadataDir).lexical h.workDir.names := by
    rw [hdir] at hf
    rw [hmeta.names_eq hf, Store.lexical_dirPath, hwork]
  have hout : ¬ s.root <+: place.names := by
    rw [hrootNames, hplace]
    exact ha.not_prefix
  refine ⟨hout, fun p names n q name hn hq hqn => ?_⟩
  have hin := prefix_of_mem_steps hn hq
  rw [hqn, List.prefix_concat_iff] at hin
  rw [hqn]
  exact (hin.resolve_right hout).symm

/-! ## Two servers -/

/-- The settings that export `/export`. -/
def exportSettings (metadataDir : String) : Settings := .ofPaths "/export" metadataDir

theorem run_exportSettings :
    let c := exportSettings "/srv/../meta"
    ((start c.options (.empty ⟨0, 0⟩)).1.map fun s₀ =>
      let s := s₀.run [attachFrame, chmodFrame]
      (c.check (Host.empty ⟨0, 0⟩).workDir.names, s₀.host.nodes.all fun n => !n.body.isLink,
        s.host.nodes.all fun n => !n.body.isLink,
        Place.names <$> s.host.find .follow (Store.dirPath s.store.dir))) =
      .ok (.ok (), true, true, .ok [Name.ofText "meta"]) := by
  cbv

/-- Without links, the records are kept outside of the export. -/
theorem accepted_hidden_export :
    ∃ s₀ s place, (exportSettings "/srv/../meta").Accepted (.empty ⟨0, 0⟩) ∧
      (start (exportSettings "/srv/../meta").options (.empty ⟨0, 0⟩)).1 = .ok s₀ ∧
      s₀.host.Unlinked (Path.ofText (exportSettings "/srv/../meta").root) ∧
      (s₀.on s₀.host).Reachable s ∧
      s.host.Unlinked (Store.dirPath (exportSettings "/srv/../meta").metadataDir) ∧
      s.host.find .follow (Store.dirPath s.store.dir) = .ok place ∧ ¬ s.root <+: place.names := by
  obtain ⟨s₀, hs⟩ :
      ∃ s, (start (exportSettings "/srv/../meta").options (.empty ⟨0, 0⟩)).1 = .ok s := ⟨_, rfl⟩
  have hrun := run_exportSettings
  simp only [hs, Except.map, Except.ok.injEq, Prod.mk.injEq, Outcome.map_eq_ok_iff] at hrun
  obtain ⟨hcheck, hno, hno', place, hf, -⟩ := hrun
  have ha : (exportSettings "/srv/../meta").Accepted (.empty ⟨0, 0⟩) := .checked hcheck
  have hroot : s₀.host.Unlinked (Path.ofText (exportSettings "/srv/../meta").root) :=
    Host.unlinked_of_target? _ (Host.target?_of_all hno)
  have hmeta := Host.unlinked_of_target? (Store.dirPath (exportSettings "/srv/../meta").metadataDir)
    (Host.target?_of_all hno')
  exact ⟨s₀, _, place, ha, hs, hroot, .run .refl, hmeta, hf,
    (accepted_hidden ha hs hroot rfl (.run .refl) hmeta hf).1⟩

/-- A host on which the directory to be exported is a link to another one. -/
def aliasHost : Host :=
  ((Chore.link (Bytes.ofText "real")).perform (Path.ofText "/export")
    ((Chore.dir 0o755).perform (Path.ofText "/real") (.empty ⟨0, 0⟩)).2).2

theorem run_aliasHost :
    let c := exportSettings "/real/meta"
    ((start c.options aliasHost).1.map fun s₀ =>
      let s := s₀.run [attachFrame, chmodFrame]
      (c.check aliasHost.workDir.names, s.root,
        Place.names <$> s.host.find .follow (Store.dirPath s.store.dir),
        (s.steps [] ["meta", "permissions.bin"]).length)) =
      .ok (.ok (), [Name.ofText "real"], .ok [Name.ofText "real", Name.ofText "meta"], 2) := by
  cbv

/-- **Settings are accepted under which a client reaches the records**: the root is a link, and the
metadata path spells a place where that leads. -/
theorem exists_accepted_not_hidden :
    ∃ s₀ s place, (exportSettings "/real/meta").Accepted aliasHost ∧
      (start (exportSettings "/real/meta").options aliasHost).1 = .ok s₀ ∧ s₀.Reachable s ∧
      s.host.find .follow (Store.dirPath s.store.dir) = .ok place ∧ s.root <+: place.names ∧
      (s.steps [] ["meta", "permissions.bin"]).length = 2 := by
  obtain ⟨s₀, hs⟩ :
      ∃ s, (start (exportSettings "/real/meta").options aliasHost).1 = .ok s := ⟨_, rfl⟩
  have hrun := run_aliasHost
  simp only [hs, Except.map, Except.ok.injEq, Prod.mk.injEq, Outcome.map_eq_ok_iff] at hrun
  obtain ⟨hcheck, hroot, ⟨place, hf, hnames⟩, hsteps⟩ := hrun
  refine ⟨s₀, _, place, .checked hcheck, hs, .run .refl, hf, ?_, hsteps⟩
  rw [hroot, hnames]
  exact ⟨[Name.ofText "meta"], rfl⟩

end Share

end GuestShare
