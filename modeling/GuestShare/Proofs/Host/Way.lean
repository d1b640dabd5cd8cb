import GuestShare.Proofs.Host.Descent

/-!
# Where ways end

A way that ends at a node ends at a place of the host: all entries on its trail are there. The last
step of a way is taken from the directory to which the others lead.

* `Host.HasPlace`, `Host.HasSpot`: places and spots of the host.
* `Host.Leads`: where steps lead, links followed.
* **`walk_hasSpot`**: every way ends at a spot of the host.
* **`walk_concat`**: the last step is a step from where the others lead.
* `find_eq_ok_iff`, `slot_eq_ok_iff`, `vacancy_child_eq_ok_iff`, `occupant_child_eq_ok_iff`: what
  the operations on paths see.
* **`find_ofNames_eq_ok_iff_descend`**: where no link is met, names lead where descending leads.
-/

namespace GuestShare

/-! ## Places -/

namespace Place

variable {p : Place} {name : Name} {i : Ino}

@[simp] theorem ino_root : root.ino = 0 := rfl

@[simp] theorem names_root : root.names = [] := rfl

@[simp] theorem ino_down : (p.down name i).ino = i := rfl

@[simp] theorem up_down : (p.down name i).up = p := rfl

@[simp] theorem names_down : (p.down name i).names = p.names ++ [name] := by
  simp [names, down]

end Place

namespace Host

/-- Every entry on a trail is there. -/
def HasTrail (h : Host) : List (Name × Ino) → Prop
  | [] => True
  | (name, i) :: trail => h.child? (Place.mk trail).ino name = some i ∧ h.HasTrail trail

/-- A place of the host. -/
def HasPlace (h : Host) (p : Place) : Prop := h.HasTrail p.trail

/-- A spot of the host: a place, or a name that a directory at a place does not have. -/
def HasSpot (h : Host) : Spot → Prop
  | .node p => h.HasPlace p
  | .vacant dir name => h.HasPlace dir ∧ h.lookup dir name = .ok none

variable {h h' : Host} {p q dir place : Place} {name : Name} {i : Ino} {spot : Spot}
  {ns : List Name}

theorem hasPlace_root : h.HasPlace Place.root := trivial

theorem HasPlace.up (hp : h.HasPlace p) : h.HasPlace p.up := by
  obtain ⟨_ | ⟨⟨n, i⟩, trail⟩⟩ := p
  · exact hp
  · exact hp.2

theorem HasPlace.down (hp : h.HasPlace p) (he : h.child? p.ino name = some i) :
    h.HasPlace (p.down name i) :=
  ⟨he, hp⟩

theorem HasPlace.descend (hp : h.HasPlace p) : h.descend 0 p.names = some p.ino := by
  obtain ⟨trail⟩ := p
  induction trail with
  | nil => rfl
  | cons entry trail ih =>
    obtain ⟨n, i⟩ := entry
    obtain ⟨he, htrail⟩ := hp
    have hnames : (Place.mk ((n, i) :: trail)).names = (Place.mk trail).names ++ [n] :=
      Place.names_down (p := ⟨trail⟩)
    rw [hnames, descend_concat, ih htrail]
    exact he

theorem exists_place (hns : h.descend 0 ns = some i) :
    ∃ p, h.HasPlace p ∧ p.names = ns ∧ p.ino = i := by
  induction ns using List.reverseRecOn generalizing i with
  | nil =>
    cases hns
    exact ⟨Place.root, hasPlace_root, rfl, rfl⟩
  | append_singleton ns n ih =>
    obtain ⟨d, hd, he⟩ := descend_concat_eq_some_iff.mp hns
    obtain ⟨p, hp, hn, rfl⟩ := ih hd
    exact ⟨p.down n i, hp.down he, by rw [Place.names_down, hn], rfl⟩

theorem HasPlace.passes_of_prefix (hp : h.HasPlace p) (hns : ns <+: p.names)
    (hi : h.descend 0 ns = some i) : p.passes i = true := by
  obtain ⟨trail⟩ := p
  induction trail with
  | nil =>
    obtain rfl : ns = [] := List.prefix_nil.mp hns
    cases hi
    simp [Place.passes]
  | cons entry trail ih =>
    obtain ⟨n, j⟩ := entry
    have hnames : (Place.mk ((n, j) :: trail)).names = (Place.mk trail).names ++ [n] :=
      Place.names_down (p := ⟨trail⟩)
    rw [hnames, List.prefix_concat_iff] at hns
    obtain rfl | hns := hns
    · have hij := HasPlace.descend hp
      rw [hnames, hi] at hij
      cases hij
      simp [Place.passes, Place.ino]
    · have := ih hp.2 hns
      simp only [Place.passes, List.any_cons, Bool.or_eq_true] at this ⊢
      tauto

theorem HasPlace.eq_of_names (hp : h.HasPlace p) (hq : h.HasPlace q) (hn : p.names = q.names) :
    p = q := by
  obtain ⟨trail⟩ := p
  obtain ⟨trail'⟩ := q
  congr 1
  induction trail generalizing trail' with
  | nil =>
    cases trail' with
    | nil => rfl
    | cons entry trail' => simp [Place.names] at hn
  | cons entry trail ih =>
    cases trail' with
    | nil => simp [Place.names] at hn
    | cons entry' trail' =>
      obtain ⟨n, i⟩ := entry
      obtain ⟨n', i'⟩ := entry'
      obtain ⟨he, htrail⟩ := hp
      obtain ⟨he', htrail'⟩ := hq
      simp only [Place.names, List.map_cons, List.reverse_cons] at hn
      obtain ⟨hns, hlast⟩ := List.append_inj' hn rfl
      obtain rfl := ih htrail trail' htrail' hns
      obtain rfl : n = n' := by simpa using hlast
      rw [he] at he'
      cases he'
      rfl

/-! ## Ways -/

section Walk

variable {atEnd : AtEnd} {expand expand' : Place → List Step → Except HostError Spot} {s : Step}
  {steps : List Step} {links : Nat}

theorem entriesAt_eq_ok_iff {es : Entries} :
    h.entriesAt p = .ok es ↔ h.entries? p.ino = some es := by
  unfold entriesAt
  split <;> simp_all

theorem entriesAt_isOk_iff :
    (∃ es, h.entriesAt p = .ok es) ↔ h.isDirectory p.ino = true := by
  simp only [entriesAt_eq_ok_iff, isDirectory, Option.isSome_iff_exists]

theorem walkSteps_hasSpot
    (hx : ∀ p steps spot, h.HasPlace p → expand p steps = .ok spot → h.HasSpot spot)
    (hp : h.HasPlace p) (hw : h.walkSteps atEnd expand p steps = .ok spot) : h.HasSpot spot := by
  induction steps generalizing p with
  | nil =>
    cases hw
    exact hp
  | cons s rest ih =>
    cases s with
    | here =>
      obtain ⟨_, -, hw⟩ := Outcome.bind_eq_ok_iff.mp hw
      exact ih hp hw
    | up =>
      obtain ⟨_, -, hw⟩ := Outcome.bind_eq_ok_iff.mp hw
      exact ih hp.up hw
    | down n =>
      obtain ⟨o, ho, hw⟩ := Outcome.bind_eq_ok_iff.mp hw
      cases o with
      | none =>
        simp only at hw
        split_ifs at hw
        cases hw
        exact ⟨hp, ho⟩
      | some i =>
        have hdown := hp.down (lookup_eq_ok_iff.mp ho).2.2
        simp only at hw
        split at hw
        · exact ih hdown hw
        · split_ifs at hw with hend habs
          · cases hw
            exact hdown
          · exact hx _ _ _ hasPlace_root hw
          · exact hx _ _ _ hp hw

/-- **Every way ends at a spot of the host.** -/
theorem walk_hasSpot (hp : h.HasPlace p) (hw : h.walk atEnd links p steps = .ok spot) :
    h.HasSpot spot := by
  induction links generalizing p steps spot with
  | zero => exact walkSteps_hasSpot (fun _ _ _ _ he => by cases he) hp hw
  | succ links ih => exact walkSteps_hasSpot (fun _ _ _ hp he => ih hp he) hp hw

/-- Take one step from a spot, without following a link. -/
def enter (h : Host) (s : Step) : Spot → Except HostError Spot
  | .vacant .. => .error .notFound
  | .node p =>
    match s with
    | .here => do
      let _ ← h.entriesAt p
      return .node p
    | .up => do
      let _ ← h.entriesAt p
      return .node p.up
    | .down name => do
      match ← h.lookup p name with
      | none => return .vacant p name
      | some i => return .node (p.down name i)

/-- The step is not one to a link that has to be followed. -/
def EndsAt (h : Host) (atEnd : AtEnd) (s : Step) (spot : Except HostError Spot) : Prop :=
  ∀ dir name i, spot = .ok (.node dir) → s = .down name → h.child? dir.ino name = some i →
    atEnd = .keep ∨ h.target? i = none

theorem endsAt_keep {spot : Except HostError Spot} : h.EndsAt .keep s spot :=
  fun _ _ _ _ _ _ => .inl rfl

theorem endsAt_here {spot : Except HostError Spot} : h.EndsAt atEnd .here spot := by
  intro _ _ _ _ hs
  cases hs

theorem walkSteps_concat
    (hx : ∀ p steps, h.EndsAt atEnd s (expand p steps) →
      expand' p (steps ++ [s]) = expand p steps >>= h.enter s)
    (hl : h.EndsAt atEnd s (h.walkSteps .follow expand p steps)) :
    h.walkSteps atEnd expand' p (steps ++ [s]) =
      h.walkSteps .follow expand p steps >>= h.enter s := by
  induction steps generalizing p with
  | nil =>
    simp only [List.nil_append, walkSteps, Outcome.ok_bind, enter]
    cases s with
    | here => rfl
    | up => rfl
    | down n =>
      simp only [walkSteps]
      cases ho : h.lookup p n with
      | error e => rfl
      | ok o =>
        cases o with
        | none => rfl
        | some i =>
          simp only [Outcome.ok_bind]
          split
          · rfl
          next t ht =>
            have he := (lookup_eq_ok_iff.mp ho).2.2
            obtain rfl | hno := hl p n i rfl rfl he
            · simp
            · rw [hno] at ht
              cases ht
  | cons m rest ih =>
    cases m with
    | here =>
      simp only [List.cons_append, walkSteps] at hl ⊢
      cases hes : h.entriesAt p with
      | error e => rfl
      | ok es =>
        rw [hes] at hl
        exact ih hl
    | up =>
      simp only [List.cons_append, walkSteps] at hl ⊢
      cases hes : h.entriesAt p with
      | error e => rfl
      | ok es =>
        rw [hes] at hl
        exact ih hl
    | down n =>
      simp only [List.cons_append, walkSteps] at hl ⊢
      cases ho : h.lookup p n with
      | error e => rfl
      | ok o =>
        rw [ho] at hl
        cases o with
        | none =>
          cases rest <;> rfl
        | some i =>
          simp only [Outcome.ok_bind] at hl ⊢
          cases ht : h.target? i with
          | none =>
            rw [ht] at hl
            exact ih hl
          | some t =>
            rw [ht] at hl
            have hrest : (rest ++ [s]).isEmpty = false := by cases rest <;> rfl
            simp only [hrest, Bool.false_and, reduceCtorEq, decide_false, Bool.and_false,
              Bool.false_eq_true, if_false] at hl ⊢
            rw [← List.append_assoc]
            exact hx _ _ hl

/-- **The last step is a step from where the others lead.** -/
theorem walk_concat (hl : h.EndsAt atEnd s (h.walk .follow links p steps)) :
    h.walk atEnd links p (steps ++ [s]) = h.walk .follow links p steps >>= h.enter s := by
  induction links generalizing p steps with
  | zero => exact walkSteps_concat (fun _ _ _ => rfl) hl
  | succ links ih => exact walkSteps_concat (fun _ _ hl => ih hl) hl

/-- A way to a node passes the directory from which its last step is taken, and finds there what it
looks for. -/
def LastFrom (h : Host) (s : Step) (dir : Place) : Prop :=
  h.isDirectory dir.ino = true ∧ ∀ name, s = .down name → ∃ i, h.lookup dir name = .ok (some i)

theorem walkSteps_lastFrom
    (hx : ∀ p steps, expand' p (steps ++ [s]) = .ok (.node q) →
      ∃ dir, expand p steps = .ok (.node dir) ∧ h.LastFrom s dir)
    (hw : h.walkSteps atEnd expand' p (steps ++ [s]) = .ok (.node q)) :
    ∃ dir, h.walkSteps .follow expand p steps = .ok (.node dir) ∧ h.LastFrom s dir := by
  induction steps generalizing p with
  | nil =>
    refine ⟨p, rfl, ?_⟩
    cases s with
    | here =>
      obtain ⟨es, hes, -⟩ := Outcome.bind_eq_ok_iff.mp hw
      exact ⟨entriesAt_isOk_iff.mp ⟨es, hes⟩, fun _ hn => by cases hn⟩
    | up =>
      obtain ⟨es, hes, -⟩ := Outcome.bind_eq_ok_iff.mp hw
      exact ⟨entriesAt_isOk_iff.mp ⟨es, hes⟩, fun _ hn => by cases hn⟩
    | down n =>
      obtain ⟨o, ho, hw⟩ := Outcome.bind_eq_ok_iff.mp hw
      refine ⟨(lookup_eq_ok_iff.mp ho).1, ?_⟩
      rintro _ ⟨⟩
      cases o with
      | none => cases hw
      | some i => exact ⟨i, ho⟩
  | cons m rest ih =>
    cases m with
    | here =>
      obtain ⟨es, hes, hw⟩ := Outcome.bind_eq_ok_iff.mp hw
      rw [walkSteps, hes]
      exact ih hw
    | up =>
      obtain ⟨es, hes, hw⟩ := Outcome.bind_eq_ok_iff.mp hw
      rw [walkSteps, hes]
      exact ih hw
    | down n =>
      obtain ⟨o, ho, hw⟩ := Outcome.bind_eq_ok_iff.mp hw
      rw [walkSteps, ho, Outcome.ok_bind]
      have hrest : (rest ++ [s]).isEmpty = false := by cases rest <;> rfl
      cases o with
      | none =>
        simp only [List.append_eq, hrest, Bool.false_eq_true, if_false] at hw
        cases hw
      | some i =>
        simp only at hw ⊢
        cases ht : h.target? i with
        | none =>
          rw [ht] at hw
          exact ih hw
        | some t =>
          rw [ht] at hw
          simp only [List.append_eq, hrest, Bool.false_and, reduceCtorEq, decide_false,
            Bool.and_false, Bool.false_eq_true, if_false] at hw ⊢
          rw [← List.append_assoc] at hw
          exact hx _ _ hw

theorem walk_lastFrom (hw : h.walk atEnd links p (steps ++ [s]) = .ok (.node q)) :
    ∃ dir, h.walk .follow links p steps = .ok (.node dir) ∧ h.LastFrom s dir := by
  induction links generalizing p steps with
  | zero => exact walkSteps_lastFrom (fun _ _ he => by cases he) hw
  | succ links ih => exact walkSteps_lastFrom (fun _ _ he => ih he) hw

end Walk

/-! ## Paths -/

/-- Where a path starts. -/
def origin (h : Host) (absolute : Bool) : Place := if absolute then Place.root else h.workDir

/-- Where steps lead, links followed. -/
def Leads (h : Host) (absolute : Bool) (steps : List Step) (q : Place) : Prop :=
  h.walk .follow maxLinks (h.origin absolute) steps = .ok (.node q)

theorem Leads.unique {absolute : Bool} {steps : List Step} (hp : h.Leads absolute steps p)
    (hq : h.Leads absolute steps q) : p = q := by
  unfold Leads at hp hq
  rw [hp] at hq
  cases hq
  rfl

theorem Leads.hasPlace {absolute : Bool} {steps : List Step} (hw : h.HasPlace h.workDir)
    (hl : h.Leads absolute steps q) : h.HasPlace q := by
  have ho : h.HasPlace (h.origin absolute) := by
    unfold origin
    split_ifs
    · exact hasPlace_root
    · exact hw
  exact walk_hasSpot ho hl

section Paths

variable {path : Path} {atEnd : AtEnd} {front : List Step} {s : Step} {d : Ino}

theorem locate_eq_ok_iff :
    h.locate atEnd path = .ok spot ↔
      path.isEmpty = false ∧ path.steps.any Step.hasNul = false ∧
        h.walk atEnd maxLinks (h.origin path.absolute) path.toSteps = .ok spot := by
  unfold locate origin
  cases path.isEmpty <;> cases path.steps.any Step.hasNul <;> simp

theorem find_eq_ok_iff_locate :
    h.find atEnd path = .ok place ↔ h.locate atEnd path = .ok (.node place) := by
  unfold find
  cases h.locate atEnd path with
  | error e => simp
  | ok spot => cases spot <;> simp

theorem find_hasPlace (hw : h.HasPlace h.workDir) (hf : h.find atEnd path = .ok place) :
    h.HasPlace place := by
  obtain ⟨-, -, hwalk⟩ := locate_eq_ok_iff.mp (find_eq_ok_iff_locate.mp hf)
  have ho : h.HasPlace (h.origin path.absolute) := by
    unfold origin
    split_ifs
    · exact hasPlace_root
    · exact hw
  exact walk_hasSpot ho hwalk

theorem enter_here_eq_ok_iff :
    h.enter .here (.node p) = .ok spot ↔ h.isDirectory p.ino = true ∧ spot = .node p := by
  simp only [enter, Outcome.bind_eq_ok_iff, Outcome.pure_eq_ok, Except.ok.injEq,
    ← entriesAt_isOk_iff, exists_and_right, eq_comm (a := spot)]

theorem enter_down_eq_ok_iff :
    h.enter (.down name) (.node p) = .ok spot ↔
      (h.lookup p name = .ok none ∧ spot = .vacant p name) ∨
        ∃ i, h.lookup p name = .ok (some i) ∧ spot = .node (p.down name i) := by
  simp only [enter]
  cases h.lookup p name with
  | error e => simp
  | ok o => cases o <;> simp [eq_comm]

theorem bind_enter_eq_ok_iff {r : Except HostError Spot} :
    (r >>= h.enter s) = .ok spot ↔ ∃ p, r = .ok (.node p) ∧ h.enter s (.node p) = .ok spot := by
  rw [Outcome.bind_eq_ok_iff]
  constructor
  · rintro ⟨spot', rfl, he⟩
    cases spot' with
    | node p => exact ⟨p, rfl, he⟩
    | vacant d n => cases he
  · rintro ⟨p, rfl, he⟩
    exact ⟨.node p, rfl, he⟩

theorem find_follow_eq_ok_iff :
    h.find .follow path = .ok place ↔
      path.isEmpty = false ∧ path.steps.any Step.hasNul = false ∧
        h.Leads path.absolute path.steps place ∧
        (path.closed = true → h.isDirectory place.ino = true) := by
  rw [find_eq_ok_iff_locate, locate_eq_ok_iff, Path.toSteps, Leads]
  cases path.closed with
  | false => simp
  | true =>
    rw [if_pos rfl, walk_concat (endsAt_here (h := h)), bind_enter_eq_ok_iff]
    simp only [enter_here_eq_ok_iff, Spot.node.injEq]
    constructor
    · rintro ⟨he, hn, p, hp, hd, rfl⟩
      exact ⟨he, hn, hp, fun _ => hd⟩
    · rintro ⟨he, hn, hp, hd⟩
      exact ⟨he, hn, place, hp, hd trivial, rfl⟩

theorem slot_eq_ok_iff (hs : path.steps = front ++ [.down name]) :
    h.slot path = .ok spot ↔
      path.steps.any Step.hasNul = false ∧
        ∃ dir, h.Leads path.absolute front dir ∧
          h.enter (.down name) (.node dir) = .ok spot := by
  have hlast : path.steps.getLast? = some (.down name) := by rw [hs, List.getLast?_concat]
  have hempty : path.opened.isEmpty = false := by simp [Path.isEmpty, Path.opened, hs]
  have hsteps : path.opened.toSteps = front ++ [.down name] := by
    simp [Path.toSteps, Path.opened, hs]
  have hslot : h.slot path = h.locate .keep path.opened := by
    unfold slot
    rw [hlast]
  rw [hslot, locate_eq_ok_iff, hempty, hsteps, walk_concat endsAt_keep, bind_enter_eq_ok_iff]
  simp [Path.opened, Leads]

theorem slot_ne_ok (hs : ∀ name, path.steps.getLast? ≠ some (.down name)) :
    h.slot path ≠ .ok spot := by
  unfold slot
  split
  next n hn => exact absurd hn (hs n)
  next =>
    split_ifs
    · simp
    · simp only [Outcome.throw_eq_error, ne_eq, Outcome.bind_eq_ok_iff, reduceCtorEq, and_false,
        exists_false, not_false_eq_true]

theorem vacancy_eq_ok_iff {d : Ino} :
    h.vacancy path = .ok (d, name) ↔ ∃ dir, h.slot path = .ok (.vacant dir name) ∧ dir.ino = d := by
  unfold vacancy
  cases h.slot path with
  | error e => simp
  | ok spot => cases spot <;> simp [and_comm]

theorem occupant_eq_ok_iff :
    h.occupant path = .ok (place, name) ↔
      h.slot path = .ok (.node place) ∧ ∃ i trail, place.trail = (name, i) :: trail := by
  unfold occupant
  cases h.slot path with
  | error e => simp
  | ok spot =>
    cases spot with
    | vacant d n => simp
    | node p =>
      obtain ⟨_ | ⟨⟨n, i⟩, trail⟩⟩ := p
      · simp only [Outcome.ok_bind, Outcome.throw_eq_error, reduceCtorEq, Except.ok.injEq,
          Spot.node.injEq, false_iff, not_and]
        rintro rfl ⟨i, trail, ht⟩
        cases ht
      · simp only [Outcome.ok_bind, Outcome.pure_eq_ok, Except.ok.injEq, Prod.mk.injEq,
          Spot.node.injEq]
        constructor
        · rintro ⟨rfl, rfl⟩
          exact ⟨rfl, i, trail, rfl⟩
        · rintro ⟨rfl, j, trail', he⟩
          cases he
          exact ⟨rfl, rfl⟩

end Paths

/-! ## Absolute paths -/

section Names

variable {atEnd : AtEnd} {d : Ino} {m : Name}

theorem any_hasNul_ofNames :
    (Path.ofNames ns).steps.any Step.hasNul = false ↔ ∀ n ∈ ns, n.contains Name.nul = false := by
  simp [Path.ofNames, Step.hasNul]

theorem find_ofNames_eq_ok_iff :
    h.find .follow (Path.ofNames ns) = .ok place ↔
      (∀ n ∈ ns, n.contains Name.nul = false) ∧ h.Leads true (ns.map .down) place := by
  rw [find_follow_eq_ok_iff, any_hasNul_ofNames]
  simp [Path.ofNames, Path.isEmpty]

theorem find_ofNames_hasPlace (hf : h.find atEnd (Path.ofNames ns) = .ok place) :
    h.HasPlace place := by
  obtain ⟨-, -, hwalk⟩ := locate_eq_ok_iff.mp (find_eq_ok_iff_locate.mp hf)
  exact walk_hasSpot hasPlace_root hwalk

theorem slot_child_eq_ok_iff :
    h.slot (Path.ofNames (ns ++ [name])) = .ok spot ↔
      name.contains Name.nul = false ∧
        ∃ dir, h.find .follow (Path.ofNames ns) = .ok dir ∧
          h.enter (.down name) (.node dir) = .ok spot := by
  have hsteps : (Path.ofNames (ns ++ [name])).steps = ns.map .down ++ [.down name] := by
    simp [Path.ofNames]
  rw [slot_eq_ok_iff hsteps, any_hasNul_ofNames]
  simp only [find_ofNames_eq_ok_iff, List.mem_append, List.mem_singleton, or_imp, forall_and,
    forall_eq]
  constructor
  · rintro ⟨⟨hns, hn⟩, dir, hl, he⟩
    exact ⟨hn, dir, ⟨hns, hl⟩, he⟩
  · rintro ⟨hn, dir, ⟨hns, hl⟩, he⟩
    exact ⟨⟨hns, hn⟩, dir, hl, he⟩

theorem locate_keep_child :
    h.locate .keep (Path.ofNames (ns ++ [name])) = h.slot (Path.ofNames (ns ++ [name])) := by
  have hlast : (Path.ofNames (ns ++ [name])).steps.getLast? = some (.down name) := by
    simp [Path.ofNames]
  unfold slot
  rw [hlast]
  rfl

/-- Looking up an entry can only fail in the directory itself. -/
theorem slot_child_of_find {dir : Place} (hf : h.find .follow (Path.ofNames ns) = .ok dir)
    (hn : name.contains Name.nul = false) :
    h.slot (Path.ofNames (ns ++ [name])) = h.enter (.down name) (.node dir) := by
  obtain ⟨hns, hlead⟩ := find_ofNames_eq_ok_iff.mp hf
  have hnul : (Path.ofNames (ns ++ [name])).steps.any Step.hasNul = false := by
    rw [any_hasNul_ofNames]
    simp only [List.mem_append, List.mem_singleton, or_imp, forall_and, forall_eq]
    exact ⟨hns, hn⟩
  have hsteps : (Path.ofNames (ns ++ [name])).toSteps = ns.map .down ++ [.down name] := by
    simp [Path.ofNames, Path.toSteps]
  rw [← locate_keep_child, locate, hnul, hsteps, walk_concat endsAt_keep]
  have hwalk : h.walk .follow maxLinks Place.root (ns.map .down) = .ok (.node dir) := hlead
  simp [Path.ofNames, Path.isEmpty, hwalk]

theorem vacancy_child_eq_ok_iff :
    h.vacancy (Path.ofNames (ns ++ [name])) = .ok (d, m) ↔
      m = name ∧ name.contains Name.nul = false ∧
        ∃ dir, h.find .follow (Path.ofNames ns) = .ok dir ∧ h.lookup dir name = .ok none ∧
          dir.ino = d := by
  simp only [vacancy_eq_ok_iff, slot_child_eq_ok_iff, enter_down_eq_ok_iff]
  constructor
  · rintro ⟨dir, ⟨hn, dir', hf, ⟨ho, he⟩ | ⟨i, -, he⟩⟩, rfl⟩
    · cases he
      exact ⟨rfl, hn, _, hf, ho, rfl⟩
    · cases he
  · rintro ⟨rfl, hn, dir, hf, ho, rfl⟩
    exact ⟨dir, ⟨hn, dir, hf, .inl ⟨ho, rfl⟩⟩, rfl⟩

theorem occupant_child_eq_ok_iff :
    h.occupant (Path.ofNames (ns ++ [name])) = .ok (place, m) ↔
      m = name ∧ name.contains Name.nul = false ∧
        ∃ dir i, h.find .follow (Path.ofNames ns) = .ok dir ∧ h.lookup dir name = .ok (some i) ∧
          place = dir.down name i := by
  simp only [occupant_eq_ok_iff, slot_child_eq_ok_iff, enter_down_eq_ok_iff]
  constructor
  · rintro ⟨⟨hn, dir, hf, ⟨-, he⟩ | ⟨i, ho, he⟩⟩, j, trail, ht⟩
    · cases he
    · cases he
      cases ht
      exact ⟨rfl, hn, dir, i, hf, ho, rfl⟩
  · rintro ⟨rfl, hn, dir, i, hf, ho, rfl⟩
    exact ⟨⟨hn, dir, hf, .inr ⟨i, ho, rfl⟩⟩, i, dir.trail, rfl⟩

theorem find_keep_child_eq_ok_iff :
    h.find .keep (Path.ofNames (ns ++ [name])) = .ok place ↔
      name.contains Name.nul = false ∧
        ∃ dir i, h.find .follow (Path.ofNames ns) = .ok dir ∧ h.lookup dir name = .ok (some i) ∧
          place = dir.down name i := by
  rw [find_eq_ok_iff_locate, locate_keep_child, slot_child_eq_ok_iff]
  simp only [enter_down_eq_ok_iff]
  constructor
  · rintro ⟨hn, dir, hf, ⟨-, he⟩ | ⟨i, ho, he⟩⟩
    · cases he
    · cases he
      exact ⟨hn, dir, i, hf, ho, rfl⟩
  · rintro ⟨hn, dir, i, hf, ho, rfl⟩
    exact ⟨hn, dir, hf, .inr ⟨i, ho, rfl⟩⟩

end Names

/-! ## Ways without links -/

section NoLinks

variable {atEnd : AtEnd} {expand : Place → List Step → Except HostError Spot} {links : Nat}

theorem walkSteps_names (atEnd : AtEnd) (expand : Place → List Step → Except HostError Spot)
    (hlen : ∀ n ∈ ns, n.length ≤ Name.maxLength)
    (hl : ∀ front j, front <+: ns → h.descend p.ino front = some j → h.target? j = none)
    (hd : h.descend p.ino ns = some i) :
    ∃ q, h.walkSteps atEnd expand p (ns.map .down) = .ok (.node q) ∧ q.ino = i ∧
      q.names = p.names ++ ns := by
  induction ns generalizing p with
  | nil =>
    cases hd
    exact ⟨p, rfl, rfl, (List.append_nil _).symm⟩
  | cons n ns ih =>
    obtain ⟨j, hj, hd⟩ := Option.bind_eq_some_iff.mp hd
    have ho : h.lookup p n = .ok (some j) :=
      lookup_eq_ok_iff.mpr ⟨isDirectory_of_child? hj, hlen n List.mem_cons_self, hj⟩
    have hnone : h.target? j = none :=
      hl [n] j (List.prefix_append [n] ns) (descend_singleton.trans hj)
    obtain ⟨q, hq, hi, hnames⟩ := ih (p := p.down n j)
      (fun m hm => hlen m (List.mem_cons_of_mem _ hm))
      (fun front k hf hk => hl (n :: front) k (List.cons_prefix_cons.mpr ⟨rfl, hf⟩)
        (by rw [descend_cons, hj]; exact hk)) hd
    refine ⟨q, ?_, hi, by rw [hnames, Place.names_down, List.append_assoc]; rfl⟩
    rw [List.map_cons, walkSteps, ho, Outcome.ok_bind]
    simp only [hnone]
    exact hq

theorem descend_of_walkSteps_names
    (hl : ∀ front j, front <+: ns → h.descend p.ino front = some j → h.target? j = none)
    (hw : h.walkSteps atEnd expand p (ns.map .down) = .ok (.node q)) :
    h.descend p.ino ns = some q.ino ∧ q.names = p.names ++ ns := by
  induction ns generalizing p with
  | nil =>
    cases hw
    exact ⟨rfl, (List.append_nil _).symm⟩
  | cons n ns ih =>
    rw [List.map_cons, walkSteps] at hw
    obtain ⟨o, ho, hw⟩ := Outcome.bind_eq_ok_iff.mp hw
    have he := (lookup_eq_ok_iff.mp ho).2.2
    cases o with
    | none =>
      simp only at hw
      split_ifs at hw
      cases hw
    | some j =>
      have hnone : h.target? j = none :=
        hl [n] j (List.prefix_append [n] ns) (descend_singleton.trans he)
      simp only [hnone] at hw
      obtain ⟨hd, hnames⟩ := ih (p := p.down n j)
        (fun front k hf hk => hl (n :: front) k (List.cons_prefix_cons.mpr ⟨rfl, hf⟩)
          (by rw [descend_cons, he]; exact hk)) hw
      refine ⟨by rw [descend_cons, he]; exact hd, ?_⟩
      rw [hnames, Place.names_down, List.append_assoc]
      rfl

theorem walk_eq_walkSteps (h : Host) (atEnd : AtEnd) (links : Nat) (p : Place) :
    ∃ expand, h.walk atEnd links p = h.walkSteps atEnd expand p := by
  cases links <;> exact ⟨_, rfl⟩

/-- **Where no link is met, names lead where descending leads.** -/
theorem find_ofNames_eq_ok_iff_descend (ht : h.IsTree)
    (hl : ∀ front j, front <+: ns → h.descend 0 front = some j → h.target? j = none) :
    h.find atEnd (Path.ofNames ns) = .ok place ↔
      h.descend 0 ns = some place.ino ∧ place.names = ns ∧ h.HasPlace place := by
  obtain ⟨expand, hwalk⟩ := walk_eq_walkSteps h atEnd maxLinks Place.root
  have hfind : h.find atEnd (Path.ofNames ns) = .ok place ↔
      (∀ n ∈ ns, n.contains Name.nul = false) ∧
        h.walkSteps atEnd expand Place.root (ns.map .down) = .ok (.node place) := by
    rw [find_eq_ok_iff_locate, locate_eq_ok_iff, any_hasNul_ofNames, ← hwalk]
    simp [Path.ofNames, Path.isEmpty, Path.toSteps, origin]
  rw [hfind]
  constructor
  · rintro ⟨hnul, hw⟩
    obtain ⟨hd, hnames⟩ := descend_of_walkSteps_names (p := Place.root) hl hw
    rw [← hwalk] at hw
    exact ⟨hd, hnames, walk_hasSpot hasPlace_root hw⟩
  · rintro ⟨hd, hnames, hp⟩
    have hfits := ht.descend_fits hd
    refine ⟨fun n hn => (hfits n hn).1, ?_⟩
    obtain ⟨q, hq, hi, hqn⟩ := walkSteps_names atEnd expand
      (p := Place.root) (fun n hn => (hfits n hn).2) hl hd
    have hqp : h.HasPlace q := by
      rw [← hwalk] at hq
      exact walk_hasSpot hasPlace_root hq
    rw [hq, hqp.eq_of_names hp (by rw [hqn, hnames]; rfl)]

end NoLinks

/-! ## Growth -/

/-- One host has every directory and every link of the other, under the same names. Other nodes may
be new, and may have lost their names to others. -/
structure Grows (h h' : Host) : Prop where
  workDir_eq : h'.workDir = h.workDir
  isDirectory : ∀ {i}, h.isDirectory i = true → h'.isDirectory i = true
  target? : ∀ {i t}, h.target? i = some t → h'.target? i = some t
  child? : ∀ {d name i}, h.child? d name = some i →
    (h.isDirectory i = true ∨ (h.target? i).isSome = true) → h'.child? d name = some i

namespace Grows

variable {atEnd : AtEnd} {expand expand' : Place → List Step → Except HostError Spot}
  {steps : List Step} {links : Nat} {h'' : Host}

theorem refl (h : Host) : Grows h h := ⟨rfl, id, id, fun he _ => he⟩

theorem trans (h₁ : Grows h h') (h₂ : Grows h' h'') : Grows h h'' where
  workDir_eq := h₂.workDir_eq.trans h₁.workDir_eq
  isDirectory hi := h₂.isDirectory (h₁.isDirectory hi)
  target? ht := h₂.target? (h₁.target? ht)
  child? he hi := by
    refine h₂.child? (h₁.child? he hi) ?_
    rcases hi with hi | hi
    · exact .inl (h₁.isDirectory hi)
    · obtain ⟨t, ht⟩ := Option.isSome_iff_exists.mp hi
      exact .inr (by rw [h₁.target? ht]; rfl)

theorem isDirectory_of_walkSteps {s : Step}
    (hw : h.walkSteps atEnd expand p (s :: steps) = .ok spot) : h.isDirectory p.ino = true := by
  cases s with
  | here =>
    obtain ⟨es, hes, -⟩ := Outcome.bind_eq_ok_iff.mp hw
    exact entriesAt_isOk_iff.mp ⟨es, hes⟩
  | up =>
    obtain ⟨es, hes, -⟩ := Outcome.bind_eq_ok_iff.mp hw
    exact entriesAt_isOk_iff.mp ⟨es, hes⟩
  | down n =>
    obtain ⟨o, ho, -⟩ := Outcome.bind_eq_ok_iff.mp hw
    exact (lookup_eq_ok_iff.mp ho).1

theorem entriesAt (hg : Grows h h') (hp : h.isDirectory p.ino = true) :
    ∃ es, h'.entriesAt p = .ok es := entriesAt_isOk_iff.mpr (hg.isDirectory hp)

theorem walkSteps (hg : Grows h h')
    (hx : ∀ p steps, expand p steps = .ok (.node q) → expand' p steps = .ok (.node q))
    (hq : h.isDirectory q.ino = true)
    (hw : h.walkSteps atEnd expand p steps = .ok (.node q)) :
    h'.walkSteps atEnd expand' p steps = .ok (.node q) := by
  induction steps generalizing p with
  | nil => exact hw
  | cons s rest ih =>
    cases s with
    | here =>
      obtain ⟨es', hes'⟩ := hg.entriesAt (isDirectory_of_walkSteps hw)
      obtain ⟨es, -, hw⟩ := Outcome.bind_eq_ok_iff.mp hw
      rw [Host.walkSteps, hes']
      exact ih hw
    | up =>
      obtain ⟨es', hes'⟩ := hg.entriesAt (isDirectory_of_walkSteps hw)
      obtain ⟨es, -, hw⟩ := Outcome.bind_eq_ok_iff.mp hw
      rw [Host.walkSteps, hes']
      exact ih hw
    | down n =>
      obtain ⟨o, ho, hw⟩ := Outcome.bind_eq_ok_iff.mp hw
      obtain ⟨hp, hlen, he⟩ := lookup_eq_ok_iff.mp ho
      cases o with
      | none =>
        simp only at hw
        split_ifs at hw
        cases hw
      | some i =>
        have lookup_eq : (h.isDirectory i = true ∨ (h.target? i).isSome = true) →
            h'.lookup p n = .ok (some i) := fun hi =>
          lookup_eq_ok_iff.mpr ⟨hg.isDirectory hp, hlen, hg.child? he hi⟩
        simp only at hw
        cases ht : h.target? i with
        | none =>
          rw [ht] at hw
          have hi : h.isDirectory i = true := by
            cases rest with
            | nil =>
              cases hw
              exact hq
            | cons s rest => exact isDirectory_of_walkSteps (p := p.down n i) hw
          rw [Host.walkSteps, lookup_eq (.inl hi), Outcome.ok_bind]
          simp only [target?_of_isDirectory (hg.isDirectory hi)]
          exact ih hw
        | some t =>
          rw [ht] at hw
          rw [Host.walkSteps, lookup_eq (.inr (by rw [ht]; rfl)), Outcome.ok_bind]
          simp only [hg.target? ht]
          simp only at hw
          split_ifs at hw ⊢ with hend habs
          · cases hw
            rw [Place.ino_down] at hq
            rw [target?_of_isDirectory hq] at ht
            cases ht
          · exact hx _ _ hw
          · exact hx _ _ hw

/-- **A way to a directory leads to it in every host that has grown.** -/
theorem walk (hg : Grows h h') (hq : h.isDirectory q.ino = true)
    (hw : h.walk atEnd links p steps = .ok (.node q)) :
    h'.walk atEnd links p steps = .ok (.node q) := by
  induction links generalizing p steps with
  | zero => exact hg.walkSteps (fun _ _ he => by cases he) hq hw
  | succ links ih => exact hg.walkSteps (fun _ _ he => ih he) hq hw

theorem leads (hg : Grows h h') {absolute : Bool} (hq : h.isDirectory q.ino = true)
    (hl : h.Leads absolute steps q) : h'.Leads absolute steps q := by
  have ho : h'.origin absolute = h.origin absolute := by
    unfold origin
    rw [hg.workDir_eq]
  unfold Leads at hl ⊢
  rw [ho]
  exact hg.walk hq hl

theorem find (hg : Grows h h') {path : Path} (hq : h.isDirectory q.ino = true)
    (hf : h.find .follow path = .ok q) : h'.find .follow path = .ok q := by
  obtain ⟨hempty, hnul, hl, -⟩ := find_follow_eq_ok_iff.mp hf
  exact find_follow_eq_ok_iff.mpr ⟨hempty, hnul, hg.leads hq hl, fun _ => hg.isDirectory hq⟩

end Grows

/-! ## Hosts with the same tree -/

namespace SameTree

variable {atEnd : AtEnd} {expand expand' : Place → List Step → Except HostError Spot}
  {steps : List Step} {links : Nat} {path : Path}

theorem entriesAt (hs : SameTree h h') (p : Place) : h'.entriesAt p = h.entriesAt p := by
  unfold Host.entriesAt
  rw [hs.entries?]

theorem lookup (hs : SameTree h h') (p : Place) (name : Name) :
    h'.lookup p name = h.lookup p name := by
  unfold Host.lookup
  rw [hs.entriesAt]

theorem walkSteps (hs : SameTree h h') (hx : ∀ p steps, expand' p steps = expand p steps) :
    h'.walkSteps atEnd expand' p steps = h.walkSteps atEnd expand p steps := by
  induction steps generalizing p with
  | nil => rfl
  | cons s rest ih =>
    cases s with
    | here =>
      simp only [Host.walkSteps, hs.entriesAt, ih]
    | up =>
      simp only [Host.walkSteps, hs.entriesAt, ih]
    | down n =>
      simp only [Host.walkSteps, hs.lookup, hs.target?, ih, hx]

theorem walk (hs : SameTree h h') :
    h'.walk atEnd links p steps = h.walk atEnd links p steps := by
  induction links generalizing p steps with
  | zero => exact hs.walkSteps fun _ _ => rfl
  | succ links ih => exact hs.walkSteps fun _ _ => ih

theorem find (hs : SameTree h h') : h'.find atEnd path = h.find atEnd path := by
  unfold Host.find Host.locate
  rw [hs.workDir_eq]
  simp only [hs.walk]

end SameTree

theorem SameTree.grows (hs : SameTree h h') : Grows h h' where
  workDir_eq := hs.workDir_eq
  isDirectory {i} hi := by rwa [hs.isDirectory i]
  target? {i t} ht := by rwa [hs.target? i]
  child? {d n i} he _ := by rwa [hs.child? d n]

end Host

end GuestShare
