import GuestShare.Proofs.Host.Way
import GuestShare.Settings.PathText

/-!
# Paths that meet no link

A path spells names, and it leads to some names. If it meets no link on its way, these are the same:
a step up undoes the step down before it, as it does in the spelling.

* `Step.spell`, `Path.lexical_eq`: the names that a path spells, step by step.
* `Host.Unlinked`: no entry that the path passes is a link.
* **`Unlinked.names_eq`**: such a path leads where it spells.
-/

namespace GuestShare

namespace Place

variable {p : Place}

theorem names_up : p.up.names = p.names.dropLast := by
  obtain ⟨_ | ⟨⟨name, i⟩, trail⟩⟩ := p
  · rfl
  · simp [up, names]

end Place

/-- The names that are spelled after one more step. -/
def Step.spell (names : List Name) : Step → List Name
  | .here => names
  | .up => names.dropLast
  | .down name => names ++ [name]

theorem Path.lexical_eq (p : Path) (workDir : List Name) :
    p.lexical workDir = p.steps.foldl Step.spell (if p.absolute then [] else workDir) := rfl

namespace Host

variable {h : Host} {p q place : Place} {steps : List Step} {path : Path} {atEnd : AtEnd}
  {expand : Place → List Step → Except HostError Spot}

/-- No entry that the steps pass is a link. Behind an entry that is missing nothing is passed. -/
def UnlinkedFrom (h : Host) : Place → List Step → Prop
  | _, [] => True
  | p, .here :: rest => UnlinkedFrom h p rest
  | p, .up :: rest => UnlinkedFrom h p.up rest
  | p, .down name :: rest => ∀ i, h.child? p.ino name = some i →
      h.target? i = none ∧ UnlinkedFrom h (p.down name i) rest

/-- No entry that the path passes is a link. -/
def Unlinked (h : Host) (path : Path) : Prop := h.UnlinkedFrom (h.origin path.absolute) path.steps

theorem names_of_walkSteps (hu : h.UnlinkedFrom p steps)
    (hw : h.walkSteps atEnd expand p steps = .ok (.node q)) :
    q.names = steps.foldl Step.spell p.names := by
  induction steps generalizing p with
  | nil =>
    cases hw
    rfl
  | cons step rest ih =>
    cases step with
    | here =>
      obtain ⟨-, -, hw⟩ := Outcome.bind_eq_ok_iff.mp hw
      exact ih hu hw
    | up =>
      obtain ⟨-, -, hw⟩ := Outcome.bind_eq_ok_iff.mp hw
      rw [ih hu hw, Place.names_up]
      rfl
    | down name =>
      obtain ⟨o, hl, hw⟩ := Outcome.bind_eq_ok_iff.mp hw
      cases o with
      | none =>
        simp only at hw
        split_ifs at hw
        cases hw
      | some i =>
        obtain ⟨ht, hrest⟩ := hu i (lookup_eq_ok_iff.mp hl).2.2
        simp only [ht] at hw
        rw [ih hrest hw, Place.names_down]
        rfl

/-- **A path that meets no link leads where it spells.** -/
theorem Unlinked.names_eq (hu : h.Unlinked path) (hf : h.find .follow path = .ok place) :
    place.names = path.lexical h.workDir.names := by
  obtain ⟨-, -, hlead, -⟩ := find_follow_eq_ok_iff.mp hf
  obtain ⟨expand, hwalk⟩ := h.walk_eq_walkSteps .follow maxLinks (h.origin path.absolute)
  rw [Leads, hwalk] at hlead
  rw [names_of_walkSteps hu hlead, Path.lexical_eq]
  unfold origin
  cases path.absolute <;> rfl

theorem unlinked_of_target? (path : Path) (hl : ∀ i, h.target? i = none) : h.Unlinked path := by
  unfold Unlinked
  generalize h.origin path.absolute = p
  induction path.steps generalizing p with
  | nil => trivial
  | cons step rest ih =>
    cases step with
    | here => exact ih p
    | up => exact ih p.up
    | down name => exact fun i _ => ⟨hl i, ih (p.down name i)⟩

theorem target?_of_all (ha : (h.nodes.all fun n => !n.body.isLink) = true) (i : Ino) :
    h.target? i = none := by
  unfold target? body? node?
  cases hn : h.nodes[i]? with
  | none => rfl
  | some n =>
    obtain ⟨hi, rfl⟩ := Array.getElem?_eq_some_iff.mp hn
    have hlink := Array.all_eq_true.mp ha i hi
    cases hbody : h.nodes[i].body with
    | link target => simp [hbody, Body.isLink] at hlink
    | _ => simp [hbody]

end Host

end GuestShare
