import GuestShare.Proofs.Host.Addition
import Mathlib.Data.List.Chain

/-!
# Missing directories

Steps that stay "here" change nothing about where a path leads. So the directories above a path are
those of its other steps, and if none of these goes up, each lies in the one before: whatever has to
be made for the path is new, and its last directory is empty.

* `Step.turns`: the steps that do not stay "here".
* **`Leads.of_turns`**: only these steps matter.
* `Path.Straight`: paths that do not go up.
* **`makeDirs_eq_ok`**: a straight path leads to a new, empty directory if anything was made for it.
* **`makeDirs_eq_error`**: where making fails, the path leads to no directory.
* **`makeDirs_ofNames_eq_error`**: for names that fit, nothing is made in vain.
-/

namespace GuestShare

/-- The steps that do not stay "here". -/
def Step.turns (steps : List Step) : List Step := steps.filter (· ≠ .here)

namespace Host

variable {h h' h₁ : Host} {p q place : Place} {links : Nat} {steps steps' : List Step} {s : Step}

/-! ## Steps that stay -/

section Turns

variable {expand : Place → List Step → Except HostError Spot}

theorem turns_append {front back : List Step} :
    Step.turns (front ++ back) = Step.turns front ++ Step.turns back :=
  List.filter_append _ _

theorem walkSteps_skip (atEnd : AtEnd) (expand : Place → List Step → Except HostError Spot)
    (steps : List Step) (hp : h.isDirectory p.ino = true) :
    ∃ steps', (steps' = [] ∨ ∃ s rest, steps' = s :: rest ∧ s ≠ .here) ∧
      Step.turns steps' = Step.turns steps ∧
        h.walkSteps atEnd expand p steps = h.walkSteps atEnd expand p steps' := by
  induction steps with
  | nil => exact ⟨[], .inl rfl, rfl, rfl⟩
  | cons s rest ih =>
    by_cases hs : s = .here
    · subst hs
      obtain ⟨steps', hshape, hturns, hwalk⟩ := ih
      obtain ⟨es, hes⟩ := entriesAt_isOk_iff.mpr hp
      refine ⟨steps', hshape, hturns, ?_⟩
      rw [walkSteps, hes]
      exact hwalk
    · exact ⟨s :: rest, .inr ⟨s, rest, rfl, hs⟩, rfl, rfl⟩

theorem walkSteps_turn (atEnd : AtEnd) (expand : Place → List Step → Except HostError Spot)
    (hp : h.isDirectory p.ino = true) (hs : s ≠ .here)
    (ht : Step.turns steps' = s :: Step.turns steps) :
    ∃ rest, Step.turns rest = Step.turns steps ∧
      h.walkSteps atEnd expand p steps' = h.walkSteps atEnd expand p (s :: rest) := by
  obtain ⟨_, rfl | ⟨t, rest, rfl, hne⟩, hturns, hwalk⟩ :=
    walkSteps_skip atEnd expand steps' hp
  · rw [← hturns] at ht
    cases ht
  · rw [ht, Step.turns, List.filter_cons_of_pos (by simpa using hne)] at hturns
    obtain ⟨rfl, hrest⟩ := List.cons.inj hturns
    exact ⟨rest, hrest, hwalk⟩

theorem walkSteps_of_turns
    (hx : ∀ p steps steps', Step.turns steps' = Step.turns steps →
      expand p steps = .ok (.node q) → expand p steps' = .ok (.node q))
    (hq : h.isDirectory q.ino = true) (ht : Step.turns steps' = Step.turns steps)
    (hw : h.walkSteps .follow expand p steps = .ok (.node q)) :
    h.walkSteps .follow expand p steps' = .ok (.node q) := by
  induction steps generalizing p steps' with
  | nil =>
    cases hw
    obtain ⟨_, rfl | ⟨s, rest, rfl, hs⟩, hturns, hwalk⟩ :=
      walkSteps_skip .follow expand steps' hq
    · exact hwalk
    · rw [ht, Step.turns, List.filter_cons_of_pos (by simpa using hs)] at hturns
      cases hturns
  | cons s rest ih =>
    have hp : h.isDirectory p.ino = true := Grows.isDirectory_of_walkSteps hw
    cases s with
    | here =>
      obtain ⟨es, -, hw⟩ := Outcome.bind_eq_ok_iff.mp hw
      exact ih ht hw
    | up =>
      obtain ⟨rest', hrest, hwalk⟩ := walkSteps_turn .follow expand hp (by simp)
        (ht : Step.turns steps' = .up :: Step.turns rest)
      rw [hwalk]
      obtain ⟨es, hes, hw⟩ := Outcome.bind_eq_ok_iff.mp hw
      rw [walkSteps, hes]
      exact ih hrest hw
    | down n =>
      obtain ⟨rest', hrest, hwalk⟩ := walkSteps_turn .follow expand hp (by simp)
        (ht : Step.turns steps' = .down n :: Step.turns rest)
      rw [hwalk]
      obtain ⟨o, ho, hw⟩ := Outcome.bind_eq_ok_iff.mp hw
      rw [walkSteps, ho, Outcome.ok_bind]
      cases o with
      | none =>
        simp only at hw
        split_ifs at hw
        cases hw
      | some i =>
        simp only at hw ⊢
        cases htarget : h.target? i with
        | none =>
          rw [htarget] at hw
          exact ih hrest hw
        | some t =>
          rw [htarget] at hw
          simp only [reduceCtorEq, decide_false, Bool.and_false, Bool.false_eq_true,
            if_false] at hw ⊢
          exact hx _ _ _ (by rw [turns_append, turns_append, hrest]) hw

theorem walk_of_turns (hq : h.isDirectory q.ino = true) (ht : Step.turns steps' = Step.turns steps)
    (hw : h.walk .follow links p steps = .ok (.node q)) :
    h.walk .follow links p steps' = .ok (.node q) := by
  induction links generalizing p steps steps' with
  | zero => exact walkSteps_of_turns (fun _ _ _ _ he => by cases he) hq ht hw
  | succ links ih => exact walkSteps_of_turns (fun _ _ _ ht he => ih ht he) hq ht hw

end Turns

/-- **Only the steps that turn matter** for the directory to which a way leads. -/
theorem Leads.of_turns {absolute : Bool} (hl : h.Leads absolute steps q)
    (hq : h.isDirectory q.ino = true) (ht : Step.turns steps' = Step.turns steps) :
    h.Leads absolute steps' q := walk_of_turns hq ht hl

theorem Leads.of_append {absolute : Bool} {front back : List Step}
    (hl : h.Leads absolute (front ++ back) q) (hq : h.isDirectory q.ino = true) :
    ∃ dir, h.Leads absolute front dir ∧ h.isDirectory dir.ino = true := by
  induction back using List.reverseRecOn generalizing q with
  | nil => exact ⟨q, by rwa [List.append_nil] at hl, hq⟩
  | append_singleton back s ih =>
    rw [← List.append_assoc] at hl
    obtain ⟨dir, hdir, hd, -⟩ := walk_lastFrom hl
    exact ih hdir hd

end Host

/-! ## Paths above paths -/

namespace Path

/-- One turn more, down to a name. -/
def Under (p above : Path) : Prop :=
  p.absolute = above.absolute ∧ ∃ name, Step.turns p.steps = Step.turns above.steps ++ [.down name]

/-- A path that never goes up. -/
def Straight (p : Path) : Prop := ∀ s ∈ p.steps, s ≠ .up

instance : DecidablePred Straight :=
  fun p => inferInstanceAs (Decidable (∀ s ∈ p.steps, s ≠ .up))

variable {p q : Path}

theorem turns_moves : Step.turns p.moves = Step.turns p.steps := by
  unfold moves Step.turns
  split
  next rest _ hs =>
    rw [hs]
    simp
  next => simp

theorem moves_subset : p.moves ⊆ p.steps := by
  unfold moves
  split
  next rest _ hs =>
    rw [hs]
    exact List.cons_subset_cons _ (List.filter_subset_self _)
  next => exact List.filter_subset_self _

theorem tail_moves_ne_here : ∀ s ∈ p.moves.tail, s ≠ .here := by
  unfold moves
  split
  next rest _ hs => simp
  next =>
    intro s hs
    simpa using List.of_mem_filter (List.mem_of_mem_tail hs)

/-- The path of the first `n` moves. -/
def upTo (p : Path) (n : Nat) : Path := ⟨p.absolute, p.moves.take n, false⟩

theorem upTo_under (hp : p.Straight) {n : Nat} (hn : n ≠ 0) (hlt : n < p.moves.length) :
    (p.upTo (n + 1)).Under (p.upTo n) := by
  refine ⟨rfl, ?_⟩
  have hmem : p.moves[n] ∈ p.moves.tail := by
    rw [List.mem_iff_getElem]
    exact ⟨n - 1, by rw [List.length_tail]; omega, by
      rw [List.getElem_tail]
      congr 1
      omega⟩
  have hhere := tail_moves_ne_here _ hmem
  have hup := hp _ (moves_subset (List.mem_of_mem_tail hmem))
  cases hs : p.moves[n] with
  | here => exact absurd hs hhere
  | up => exact absurd hs hup
  | down name =>
    refine ⟨name, ?_⟩
    simp only [upTo]
    rw [List.take_succ_eq_append_getElem hlt, hs, Host.turns_append]
    rfl

theorem isChain_upTo (hp : p.Straight) {n : Nat} (hn : n ≠ 0) (hle : n ≤ p.moves.length) :
    List.IsChain Under
      (p.upTo n :: (((List.range n).reverse.filter (· ≠ 0)).map p.upTo)) := by
  induction n with
  | zero => exact absurd rfl hn
  | succ n ih =>
    by_cases hz : n = 0
    · subst hz
      simp
    · rw [List.range_succ, List.reverse_append, List.reverse_singleton, List.singleton_append,
        List.filter_cons_of_pos (by simpa using hz), List.map_cons, List.isChain_cons_cons]
      exact ⟨upTo_under hp hz hle, ih hz (Nat.le_of_succ_le hle)⟩

theorem ancestors_of_moves_ne_nil (hm : p.moves ≠ []) :
    p.ancestors = p :: ((List.range p.moves.length).reverse.filter (· ≠ 0)).map p.upTo := by
  unfold ancestors
  split
  next he => exact absurd he hm
  next => rfl

theorem isChain_ancestors (hp : p.Straight) : List.IsChain Under p.ancestors := by
  by_cases hm : p.moves = []
  · simp [ancestors, hm]
  · have hchain := isChain_upTo hp (fun he => hm (List.length_eq_zero_iff.mp he)) (Nat.le_refl _)
    rw [ancestors_of_moves_ne_nil hm]
    rw [List.isChain_cons] at hchain ⊢
    refine ⟨fun q hq => ?_, hchain.2⟩
    obtain ⟨habs, name, hturns⟩ := hchain.1 q hq
    refine ⟨habs, name, ?_⟩
    rw [← hturns, upTo, List.take_length, turns_moves]

end Path

namespace Host

variable {h h' h₁ : Host} {p q : Path} {place : Place} {above missing : List Path}

/-! ## Missing directories made -/

theorem leadsToDirectory_of_under (hu : p.Under q) (hf : h.find .follow q = .ok place)
    (hes : h.entries? place.ino = some ∅) : h.leadsToDirectory p = false := by
  rw [← Bool.not_eq_true]
  intro hl
  obtain ⟨there, hthere, hd⟩ := leadsToDirectory_iff.mp hl
  obtain ⟨-, -, hlead, -⟩ := find_follow_eq_ok_iff.mp hthere
  obtain ⟨-, -, hplace, -⟩ := find_follow_eq_ok_iff.mp hf
  obtain ⟨habs, name, hturns⟩ := hu
  have hdown : h.Leads p.absolute (Step.turns q.steps ++ [.down name]) there :=
    hlead.of_turns hd (by rw [← hturns]; simp [Step.turns])
  obtain ⟨dir, hdir, -, hlook⟩ := walk_lastFrom hdown
  obtain ⟨i, hi⟩ := hlook name rfl
  have hdir' : h.Leads q.absolute (Step.turns q.steps) place :=
    hplace.of_turns (by simp [isDirectory, hes]) (by simp [Step.turns])
  have he := (lookup_eq_ok_iff.mp hi).2.2
  rw [← habs] at hdir'
  rw [Leads.unique hdir hdir', child?, hes] at he
  simp at he

theorem makeEach_concat {ps : List Path} {h₂ : Host}
    (ho : makeEach (ps ++ [p]) h = (.ok (), h₂)) :
    ∃ h₁, makeEach ps h = (.ok (), h₁) ∧
      (h₁.makeDir p = .ok h₂ ∨
        (h₁.makeDir p = .error .alreadyExists ∧ h₁.leadsToDirectory p = true ∧ h₂ = h₁)) := by
  induction ps generalizing h with
  | nil =>
    refine ⟨h, rfl, ?_⟩
    rw [List.nil_append, makeEach] at ho
    split at ho
    next h₁ hmake =>
      cases ho
      exact .inl hmake
    next e hmake =>
      split_ifs at ho with hc
      · cases ho
        simp only [Bool.and_eq_true, decide_eq_true_eq] at hc
        exact .inr ⟨hc.1 ▸ hmake, hc.2, rfl⟩
      · cases ho
  | cons q ps ih =>
    rw [List.cons_append, makeEach] at ho
    rw [makeEach]
    split at ho
    next => exact ih ho
    next =>
      split_ifs at ho ⊢
      · exact ih ho
      · cases ho

/-- Of paths that lie one below the other, the lowest is a directory already, or new and empty. -/
theorem makeEach_of_makeFirst (hc : List.IsChain Path.Under (p :: above))
    (hf : makeFirst (p :: above) h = .ok (missing, h'))
    (he : makeEach missing h' = (.ok (), h₁)) :
    h₁ = h ∨ ∃ place, h₁.find .follow p = .ok place ∧ h₁.entries? place.ino = some ∅ := by
  induction above generalizing p missing h₁ with
  | nil =>
    rw [makeFirst] at hf
    split at hf
    next h₂ hmake =>
      cases hf
      cases he
      exact .inr (find_of_makeDir hmake)
    next hmake =>
      cases hf
      obtain ⟨h₂, he₂, hlast⟩ := makeEach_concat he
      cases he₂
      rw [hmake] at hlast
      obtain hlast | ⟨hlast, -, -⟩ := hlast
      · cases hlast
      · cases hlast
    next =>
      split_ifs at hf
      cases hf
      cases he
      exact .inl rfl
  | cons q above ih =>
    rw [makeFirst] at hf
    split at hf
    next h₂ hmake =>
      cases hf
      cases he
      exact .inr (find_of_makeDir hmake)
    next hmake =>
      obtain ⟨⟨missing', h₂⟩, hfirst, hf⟩ := Outcome.bind_eq_ok_iff.mp hf
      cases hf
      obtain ⟨hunder, hc⟩ := List.isChain_cons_cons.mp hc
      obtain ⟨h₃, he₃, hlast⟩ := makeEach_concat he
      obtain rfl | ⟨place, hplace, hes⟩ := ih hc hfirst he₃
      · -- nothing was made above, so the path is missing as it was before
        rw [hmake] at hlast
        obtain hlast | ⟨hlast, -, -⟩ := hlast
        · cases hlast
        · cases hlast
      · obtain hlast | ⟨-, hlast, -⟩ := hlast
        · exact .inr (find_of_makeDir hlast)
        · rw [leadsToDirectory_of_under hunder hplace hes] at hlast
          cases hlast
    next =>
      split_ifs at hf
      cases hf
      cases he
      exact .inl rfl

/-- **A straight path leads to a new, empty directory** if anything was made for it. -/
theorem makeDirs_eq_ok (hp : p.Straight) (hm : makeDirs p h = (.ok (), h₁)) :
    h₁ = h ∨ ∃ place, h₁.find .follow p = .ok place ∧ h₁.entries? place.ino = some ∅ := by
  have hchain := Path.isChain_ancestors hp
  unfold makeDirs at hm
  split at hm
  next missing h' hfirst =>
    by_cases hmoves : p.moves = []
    · rw [Path.ancestors, hmoves] at hfirst
      cases hfirst
      cases hm
      exact .inl rfl
    · rw [Path.ancestors_of_moves_ne_nil hmoves] at hchain hfirst
      exact makeEach_of_makeFirst hchain hfirst hm
  next => cases hm

theorem leadsToDirectory_of_mem_ancestors (hl : h.leadsToDirectory p = true)
    (hq : q ∈ p.ancestors) : h.leadsToDirectory q = true := by
  by_cases hmoves : p.moves = []
  · simp [Path.ancestors, hmoves] at hq
  rw [Path.ancestors_of_moves_ne_nil hmoves] at hq
  rcases List.mem_cons.mp hq with rfl | hq
  · exact hl
  obtain ⟨n, hn, rfl⟩ := List.mem_map.mp hq
  have hn : n ≠ 0 := by simpa using List.of_mem_filter hn
  obtain ⟨place, hf, hd⟩ := leadsToDirectory_iff.mp hl
  obtain ⟨-, hnul, hlead, -⟩ := find_follow_eq_ok_iff.mp hf
  have hmoves' : h.Leads p.absolute (p.moves.take n ++ p.moves.drop n) place := by
    rw [List.take_append_drop]
    exact hlead.of_turns hd Path.turns_moves
  obtain ⟨dir, hdir, hdd⟩ := hmoves'.of_append hd
  refine leadsToDirectory_iff.mpr
    ⟨dir, find_follow_eq_ok_iff.mpr ⟨?_, ?_, hdir, fun _ => hdd⟩, hdd⟩
  · have hne : p.moves.take n ≠ [] := by simp [hmoves, hn]
    simp [Path.isEmpty, Path.upTo, hne]
  · rw [List.any_eq_false] at hnul ⊢
    exact fun s hs => hnul s (Path.moves_subset (List.take_subset _ _ hs))

theorem makeEach_eq_error {ps : List Path} {e : HostError}
    (ho : makeEach ps h = (.error e, h₁)) :
    ∃ q ∈ ps, h₁.makeDir q = .error e ∧ ¬ (e = .alreadyExists ∧ h₁.leadsToDirectory q = true) := by
  induction ps generalizing h with
  | nil => cases ho
  | cons q ps ih =>
    rw [makeEach] at ho
    split at ho
    next =>
      obtain ⟨r, hr, hfail⟩ := ih ho
      exact ⟨r, List.mem_cons_of_mem _ hr, hfail⟩
    next e' hmake =>
      split_ifs at ho with hc
      · obtain ⟨r, hr, hfail⟩ := ih ho
        exact ⟨r, List.mem_cons_of_mem _ hr, hfail⟩
      · cases ho
        exact ⟨q, List.mem_cons_self, hmake, by simpa using hc⟩

/-- **Where making directories fails, the path leads to none**, unless nothing was made. -/
theorem makeDirs_eq_error {e : HostError} (hm : makeDirs p h = (.error e, h₁)) :
    h₁ = h ∨ h₁.leadsToDirectory p = false := by
  unfold makeDirs at hm
  split at hm
  next missing h' hfirst =>
    right
    rw [← Bool.not_eq_true]
    intro hl
    obtain ⟨q, hq, hmake, hfail⟩ := makeEach_eq_error hm
    have hlq := leadsToDirectory_of_mem_ancestors hl ((makeFirst_makes hfirst).2 hq)
    rw [makeDir_of_leadsToDirectory hlq] at hmake
    cases hmake
    exact hfail ⟨rfl, hlq⟩
  next =>
    cases hm
    exact .inl rfl

/-! ## Names that fit -/

section Names

variable {ns : List Name} {name : Name} {dir : Place}

theorem moves_ofNames : (Path.ofNames ns).moves = ns.map .down :=
  List.filter_eq_self.mpr fun s hs => by
    obtain ⟨n, -, rfl⟩ := List.mem_map.mp hs
    rfl

theorem upTo_ofNames {n : Nat} : (Path.ofNames ns).upTo n = Path.ofNames (ns.take n) := by
  rw [Path.upTo, moves_ofNames, ← List.map_take]
  rfl

theorem ancestors_ofNames_concat :
    (Path.ofNames (ns ++ [name])).ancestors =
      Path.ofNames (ns ++ [name]) :: (Path.ofNames ns).ancestors := by
  have hne : ∀ (front : List Name) last, (Path.ofNames (front ++ [last])).moves ≠ [] := by
    simp [moves_ofNames]
  rw [Path.ancestors_of_moves_ne_nil (hne ns name)]
  congr 1
  rcases List.eq_nil_or_concat' ns with rfl | ⟨front, last, rfl⟩
  · rfl
  · have hlast : (Path.ofNames (front ++ [last] ++ [name])).upTo (front.length + 1) =
        Path.ofNames (front ++ [last]) := by
      rw [upTo_ofNames, List.take_append_of_le_length (by simp), List.take_of_length_le (by simp)]
    simp only [Path.ancestors_of_moves_ne_nil (hne front last), moves_ofNames, List.length_map,
      List.length_append, List.length_singleton]
    rw [List.range_succ, List.reverse_append, List.reverse_singleton, List.singleton_append,
      List.filter_cons_of_pos (by simp), List.map_cons, hlast]
    congr 1
    refine List.map_congr_left fun n hn => ?_
    have hlt : n < front.length + 1 := by simpa using List.mem_of_mem_filter hn
    rw [upTo_ofNames, upTo_ofNames, List.take_append_of_le_length (by simp; omega)]

theorem makeDir_child_ne_notFound (hf : h.find .follow (Path.ofNames ns) = .ok dir)
    (hn : Fits name) : h.makeDir (Path.ofNames (ns ++ [name])) ≠ .error .notFound := by
  unfold makeDir vacancy
  rw [slot_child_of_find hf hn.1]
  simp only [enter, lookup, entriesAt]
  cases h.entries? dir.ino with
  | none => simp
  | some es =>
    have hlen : ¬ Name.maxLength < name.length := Nat.not_lt.mpr hn.2
    cases hes : es[name]? <;> simp [hlen, hes]

theorem makeDir_child_of_empty (hf : h.find .follow (Path.ofNames ns) = .ok dir)
    (hes : h.entries? dir.ino = some ∅) (hn : Fits name) :
    ∃ h', h.makeDir (Path.ofNames (ns ++ [name])) = .ok h' := by
  have hl : h.lookup dir name = .ok none :=
    lookup_eq_ok_iff.mpr ⟨by simp [isDirectory, hes], hn.2, by simp [child?, hes]⟩
  have hv : h.vacancy (Path.ofNames (ns ++ [name])) = .ok (dir.ino, name) :=
    vacancy_child_eq_ok_iff.mpr ⟨rfl, hn.1, dir, hf, hl, rfl⟩
  exact ⟨_, by rw [makeDir, hv]; rfl⟩

theorem makeEach_concat_of_eq_ok {ps : List Path} (he : makeEach ps h = (.ok (), h₁)) :
    makeEach (ps ++ [p]) h = makeEach [p] h₁ := by
  induction ps generalizing h with
  | nil =>
    cases he
    rfl
  | cons q ps ih =>
    rw [makeEach] at he
    rw [List.cons_append, makeEach]
    split at he
    next => exact ih he
    next =>
      split_ifs at he ⊢
      · exact ih he
      · cases he

theorem makeEach_of_makeFirst_ofNames (hfits : ∀ n ∈ ns, Fits n)
    (hf : makeFirst (Path.ofNames ns).ancestors h = .ok (missing, h')) :
    (missing = [] ∧ h' = h ∧ ∃ dir, h.find .follow (Path.ofNames ns) = .ok dir) ∨
      ∃ h₁ place, makeEach missing h' = (.ok (), h₁) ∧
        h₁.find .follow (Path.ofNames ns) = .ok place ∧ h₁.entries? place.ino = some ∅ := by
  induction ns using List.reverseRecOn generalizing missing with
  | nil =>
    cases hf
    exact .inl ⟨rfl, rfl, Place.root, rfl⟩
  | append_singleton ns name ih =>
    have hname : Fits name := hfits name (by simp)
    rw [ancestors_ofNames_concat, makeFirst] at hf
    split at hf
    next h₂ hmake =>
      cases hf
      exact .inr ⟨_, (find_of_makeDir hmake).imp fun _ hp => ⟨rfl, hp⟩⟩
    next hmake =>
      obtain ⟨⟨missing', h₂⟩, hfirst, hf⟩ := Outcome.bind_eq_ok_iff.mp hf
      cases hf
      obtain ⟨-, -, dir, hdir⟩ | ⟨h₁, place, he, hplace, hes⟩ :=
        ih (fun n hn => hfits n (by simp [hn])) hfirst
      · exact absurd hmake (makeDir_child_ne_notFound hdir hname)
      · obtain ⟨h₃, hmade⟩ := makeDir_child_of_empty hplace hes hname
        refine .inr ⟨h₃, (find_of_makeDir hmade).imp fun _ hp => ⟨?_, hp⟩⟩
        rw [makeEach_concat_of_eq_ok he, makeEach, hmade]
        rfl
    next =>
      split_ifs at hf with hc
      cases hf
      simp only [Bool.and_eq_true] at hc
      obtain ⟨place, hplace, -⟩ := leadsToDirectory_iff.mp hc.2
      exact .inl ⟨rfl, rfl, place, hplace⟩

/-- **For names that fit, nothing is made in vain.** -/
theorem makeDirs_ofNames_eq_error {e : HostError} (hfits : ∀ n ∈ ns, Fits n)
    (hm : makeDirs (Path.ofNames ns) h = (.error e, h₁)) : h₁ = h := by
  unfold makeDirs at hm
  split at hm
  next missing h' hfirst =>
    obtain ⟨rfl, rfl, -⟩ | ⟨h₂, -, he, -⟩ := makeEach_of_makeFirst_ofNames hfits hfirst
    · cases hm
    · rw [he] at hm
      cases hm
  next =>
    cases hm
    rfl

/-- A directory to which names lead is found as an entry, though it may be a link. -/
theorem exists_inspect_of_leadsToDirectory
    (hl : h.leadsToDirectory (Path.ofNames (ns ++ [name])) = true) :
    ∃ i n, h.inspect (Path.ofNames (ns ++ [name])) = .ok (i, n) := by
  obtain ⟨place, hf, hd⟩ := leadsToDirectory_iff.mp hl
  obtain ⟨hnul, hlead⟩ := find_ofNames_eq_ok_iff.mp hf
  rw [List.map_append] at hlead
  obtain ⟨dir, hdir, -, hlook⟩ := walk_lastFrom hlead
  obtain ⟨i, hi⟩ := hlook name rfl
  have hkeep : h.find .keep (Path.ofNames (ns ++ [name])) = .ok (dir.down name i) :=
    find_keep_child_eq_ok_iff.mpr ⟨hnul name (by simp), dir, i,
      find_ofNames_eq_ok_iff.mpr ⟨fun n hn => hnul n (by simp [hn]), hdir⟩, hi, rfl⟩
  have hbody : ∃ b, h.body? i = some b := by
    cases ht : h.target? i with
    | some t =>
      unfold target? at ht
      cases hb : h.body? i with
      | none => simp [hb] at ht
      | some b => exact ⟨b, rfl⟩
    | none =>
      -- the entry is no link, so it is the directory itself
      have hend : h.EndsAt .follow (.down name) (.ok (.node dir)) := by
        intro dir' m j hdir' hm hj
        cases hdir'
        cases hm
        rw [(lookup_eq_ok_iff.mp hi).2.2] at hj
        cases hj
        exact .inr ht
      have hwalk : h.walk .follow maxLinks Place.root (ns.map .down ++ [.down name]) =
          h.enter (.down name) (.node dir) := by
        have hdir' : h.walk .follow maxLinks Place.root (ns.map .down) = .ok (.node dir) := hdir
        rw [walk_concat (by rw [hdir']; exact hend), hdir']
        rfl
      have hplace : h.enter (.down name) (.node dir) = .ok (.node place) := hwalk.symm.trans hlead
      obtain ⟨-, he⟩ | ⟨j, hj, he⟩ := enter_down_eq_ok_iff.mp hplace
      · cases he
      · cases he
        rw [hi] at hj
        cases hj
        unfold isDirectory entries? at hd
        rw [Place.ino_down] at hd
        cases hb : h.body? i with
        | none => simp [hb] at hd
        | some b => exact ⟨b, rfl⟩
  obtain ⟨b, hb⟩ := hbody
  unfold body? at hb
  obtain ⟨n, hn, -⟩ := Option.map_eq_some_iff.mp hb
  refine ⟨i, n, ?_⟩
  rw [inspect, hkeep, Outcome.ok_bind]
  simp only [Place.ino_down, hn]
  rfl

end Names

end Host

end GuestShare
