import GuestShare.Proofs.Host.Change

/-!
# Nodes put into directories

Making directories and writing files beside others only puts new nodes into directories, under names
that are free or that belong to no directory. Whatever had a name before still has it, but for the
files that were replaced.

* `Host.Puts`: new nodes put into some directories.
* `Host.OnWay`: the directories that a path passes.
* **`Puts.descend`**, **`Puts.descend_old`**: names lead where they led.
* **`makeDirs_puts`**: making directories puts directories into those on the way.
* **`leadsToDirectory_makeDirs`**: directories that were made are there.
-/

namespace GuestShare

namespace Host

variable {h h' h'' : Host} {I J : Ino → Prop} {d i j : Ino} {name : Name} {ns : List Name}
  {b : Body} {mode : UInt32}

/-- What has the name, if anything, is no directory, and neither is what takes its place. -/
def Replaceable (h : Host) (d : Ino) (name : Name) (b : Body) : Prop :=
  ∀ i, h.child? d name = some i → h.isDirectory i = false ∧ b.isDirectory = false

/-- New nodes are put into directories of `I`. A directory may also be touched without a change. -/
inductive Puts (I : Ino → Prop) (h : Host) : Host → Prop
  | refl : Puts I h h
  | touch {h' : Host} {d : Ino} : Puts I h h' → I d → Puts I h (h'.modifyEntries d id)
  | put {h' : Host} {d : Ino} {name : Name} {b : Body} {mode : UInt32} : Puts I h h' → I d →
      h'.isDirectory d = true → Fits name → h'.Replaceable d name b → b.Bare →
      Puts I h (h'.create d name b mode).2

theorem entries?_modifyEntries_id : (h.modifyEntries d id).entries? j = h.entries? j := by
  rw [entries?_modifyEntries]
  split_ifs with hj
  · rw [hj, Option.map_id, id]
  · rfl

theorem child?_modifyEntries_id : (h.modifyEntries d id).child? j name = h.child? j name := by
  rw [child?, entries?_modifyEntries_id, child?]

namespace Puts

theorem mono (hp : Puts I h h') (hIJ : ∀ i, I i → J i) : Puts J h h' := by
  induction hp with
  | refl => exact .refl
  | touch _ hd ih => exact ih.touch (hIJ _ hd)
  | put _ hd hdir hn hr hb ih => exact ih.put (hIJ _ hd) hdir hn hr hb

theorem trans (h₁ : Puts I h h') (h₂ : Puts I h' h'') : Puts I h h'' := by
  induction h₂ with
  | refl => exact h₁
  | touch _ hd ih => exact ih.touch hd
  | put _ hd hdir hn hr hb ih => exact ih.put hd hdir hn hr hb

theorem size_le (hp : Puts I h h') : h.nodes.size ≤ h'.nodes.size := by
  induction hp with
  | refl => exact Nat.le_refl _
  | touch _ _ ih => rwa [size_modifyEntries]
  | put _ _ _ _ _ _ ih =>
    rw [size_create]
    omega

theorem clock_eq (hp : Puts I h h') : h'.clock = h.clock := by
  induction hp with
  | refl => rfl
  | touch _ _ ih => rwa [clock_modifyEntries]
  | put _ _ _ _ _ _ ih => rwa [clock_create]

theorem workDir_eq (hp : Puts I h h') : h'.workDir = h.workDir := by
  induction hp with
  | refl => rfl
  | touch _ _ ih => rwa [workDir_modifyEntries]
  | put _ _ _ _ _ _ ih => rwa [workDir_create]

theorem target?_eq (hp : Puts I h h') (j : Ino) : h'.target? j = h.target? j := by
  induction hp with
  | refl => rfl
  | touch _ _ ih => rw [target?_modifyEntries, ih]
  | put _ _ _ _ _ hb ih => rw [target?_create hb, ih]

theorem isDirectory_eq (hp : Puts I h h') (hj : j < h.nodes.size) :
    h'.isDirectory j = h.isDirectory j := by
  induction hp with
  | refl => rfl
  | touch _ _ ih => rw [isDirectory_modifyEntries, ih]
  | put hp _ _ _ _ _ ih =>
    rw [isDirectory_create_of_ne (Nat.ne_of_lt (Nat.lt_of_lt_of_le hj hp.size_le)), ih]

/-- **Nodes that are not in these directories stay as they are.** -/
theorem node?_eq (hp : Puts I h h') (hj : j < h.nodes.size) (hI : ¬ I j) :
    h'.node? j = h.node? j := by
  induction hp with
  | refl => rfl
  | @touch h' d _ hd ih =>
    have hne : j ≠ d := fun he => hI (he ▸ hd)
    rw [node?_modifyEntries_ne hne, ih]
  | @put h' d _ _ _ hp hd _ _ _ _ ih =>
    have hne : j ≠ d := fun he => hI (he ▸ hd)
    rw [node?_create_ne hne (Nat.ne_of_lt (Nat.lt_of_lt_of_le hj hp.size_le)), ih]

theorem isTree (hp : Puts I h h') (ht : h.IsTree) : h'.IsTree := by
  induction hp with
  | refl => exact ht
  | touch _ _ ih => exact ih.modifyEntries_id
  | put _ _ _ hn _ hb ih => exact ih.create hn hb

theorem child?_or (hp : Puts I h h') (he : h'.child? d name = some i) :
    h.child? d name = some i ∨ I d := by
  induction hp with
  | refl => exact .inl he
  | touch _ _ ih =>
    rw [child?_modifyEntries_id] at he
    exact ih he
  | put _ hd hdir _ _ hb ih =>
    rw [child?_create hb hdir] at he
    split_ifs at he with hc
    · exact .inr (hc.1 ▸ hd)
    · exact ih he

theorem child?_old (hp : Puts I h h') (hi : i < h.nodes.size) (he : h'.child? d name = some i) :
    h.child? d name = some i := by
  induction hp with
  | refl => exact he
  | touch _ _ ih =>
    rw [child?_modifyEntries_id] at he
    exact ih he
  | put hp _ hdir _ _ hb ih =>
    rw [child?_create hb hdir] at he
    split_ifs at he
    · cases he
      exact absurd hi (Nat.not_lt.mpr hp.size_le)
    · exact ih he

/-- **Names that lead to an old node led there before.** -/
theorem descend_old (hp : Puts I h h') (hi : i < h.nodes.size)
    (hns : h'.descend 0 ns = some i) : h.descend 0 ns = some i := by
  induction ns using List.reverseRecOn generalizing i with
  | nil => exact hns
  | append_singleton ns n ih =>
    obtain ⟨d, hd, he⟩ := descend_concat_eq_some_iff.mp hns
    have he' := hp.child?_old hi he
    have hdlt := lt_size_of_isDirectory (isDirectory_of_child? he')
    exact descend_concat_eq_some_iff.mpr ⟨d, ih hdlt hd, he'⟩

theorem child?_of_isDirectory (hp : Puts I h h') (hi : h.isDirectory i = true)
    (he : h.child? d name = some i) : h'.child? d name = some i := by
  induction hp with
  | refl => exact he
  | touch _ _ ih =>
    rw [child?_modifyEntries_id]
    exact ih
  | put hp _ hdir _ hr hb ih =>
    rw [child?_create hb hdir, if_neg]
    · exact ih
    · rintro ⟨rfl, rfl⟩
      have := (hr i ih).1
      rw [hp.isDirectory_eq (lt_size_of_isDirectory hi), hi] at this
      cases this

theorem descend_of_isDirectory (hp : Puts I h h') (hi : h.isDirectory i = true)
    (hns : h.descend 0 ns = some i) : h'.descend 0 ns = some i := by
  induction ns using List.reverseRecOn generalizing i with
  | nil => exact hns
  | append_singleton ns n ih =>
    obtain ⟨d, hd, he⟩ := descend_concat_eq_some_iff.mp hns
    exact descend_concat_eq_some_iff.mpr
      ⟨d, ih (isDirectory_of_child? he) hd, hp.child?_of_isDirectory hi he⟩

theorem exists_child? (hp : Puts I h h') (ht : h.IsTree) (he : h.child? d name = some i) :
    ∃ i', h'.child? d name = some i' ∧ h'.isDirectory i' = h.isDirectory i := by
  induction hp with
  | refl => exact ⟨i, he, rfl⟩
  | touch _ _ ih =>
    obtain ⟨i', he', hi'⟩ := ih
    exact ⟨i', by rw [child?_modifyEntries_id, he'], by rw [isDirectory_modifyEntries, hi']⟩
  | @put h' e n b mode hp _ hdir _ hr hb ih =>
    obtain ⟨i', he', hi'⟩ := ih
    by_cases hen : d = e ∧ name = n
    · obtain ⟨rfl, rfl⟩ := hen
      refine ⟨h'.nodes.size, by rw [child?_create hb hdir, if_pos ⟨rfl, rfl⟩], ?_⟩
      rw [isDirectory_create_size, ← hi', (hr i' he').1, (hr i' he').2]
    · refine ⟨i', by rw [child?_create hb hdir, if_neg hen, he'], ?_⟩
      rw [isDirectory_create_of_ne (Nat.ne_of_lt ((hp.isTree ht).entry_lt he')), hi']

/-- **Names that led somewhere still do**, and a directory is at their end if there was one. -/
theorem exists_descend (hp : Puts I h h') (ht : h.IsTree) (hns : h.descend 0 ns = some i) :
    ∃ i', h'.descend 0 ns = some i' ∧ h'.isDirectory i' = h.isDirectory i := by
  rcases List.eq_nil_or_concat' ns with rfl | ⟨ns, n, rfl⟩
  · cases hns
    exact ⟨0, rfl, hp.isDirectory_eq (lt_size_of_isDirectory ht.root)⟩
  · obtain ⟨d, hd, he⟩ := descend_concat_eq_some_iff.mp hns
    obtain ⟨i', he', hi'⟩ := hp.exists_child? ht he
    exact ⟨i', descend_concat_eq_some_iff.mpr
      ⟨d, hp.descend_of_isDirectory (isDirectory_of_child? he) hd, he'⟩, hi'⟩

end Puts

/-! ## Making directories -/

/-- Directories made one after the other, at some of the paths. -/
inductive Makes (ps : List Path) (h : Host) : Host → Prop
  | refl : Makes ps h h
  | step {h' h'' : Host} {p : Path} : Makes ps h h' → p ∈ ps → h'.makeDir p = .ok h'' →
      Makes ps h h''

section Making

variable {p : Path} {ps qs missing : List Path}

namespace Makes

theorem mono (hm : Makes ps h h') (hs : ps ⊆ qs) : Makes qs h h' := by
  induction hm with
  | refl => exact .refl
  | step _ hp ho ih => exact ih.step (hs hp) ho

theorem trans (h₁ : Makes ps h h') (h₂ : Makes ps h' h'') : Makes ps h h'' := by
  induction h₂ with
  | refl => exact h₁
  | step _ hp ho ih => exact ih.step hp ho

end Makes

theorem makeFirst_makes (ho : makeFirst ps h = .ok (missing, h')) :
    Makes ps h h' ∧ missing ⊆ ps := by
  induction ps generalizing missing with
  | nil =>
    cases ho
    exact ⟨.refl, List.Subset.refl _⟩
  | cons p above ih =>
    rw [makeFirst] at ho
    split at ho
    next h₁ hmake =>
      cases ho
      exact ⟨Makes.refl.step List.mem_cons_self hmake, List.nil_subset _⟩
    next hmake =>
      obtain ⟨⟨missing', h₁⟩, hfirst, ho⟩ := Outcome.bind_eq_ok_iff.mp ho
      cases ho
      obtain ⟨hm, hs⟩ := ih hfirst
      refine ⟨hm.mono (List.subset_cons_self _ _), ?_⟩
      rw [List.append_subset]
      exact ⟨fun _ hq => List.mem_cons_of_mem _ (hs hq),
        fun _ hq => List.mem_singleton.mp hq ▸ List.mem_cons_self⟩
    next e hmake =>
      split_ifs at ho
      cases ho
      exact ⟨.refl, List.nil_subset _⟩

theorem makeEach_makes : Makes ps h (makeEach ps h).2 := by
  induction ps generalizing h with
  | nil => exact .refl
  | cons p rest ih =>
    rw [makeEach]
    split
    next h₁ hmake =>
      exact (Makes.refl.step List.mem_cons_self hmake).trans
        (ih.mono (List.subset_cons_self _ _))
    next =>
      split_ifs
      · exact ih.mono (List.subset_cons_self _ _)
      · exact .refl

theorem makeDirs_makes : Makes p.ancestors h (makeDirs p h).2 := by
  unfold makeDirs
  split
  next missing h₁ hfirst =>
    obtain ⟨hm, hs⟩ := makeFirst_makes hfirst
    exact hm.trans (makeEach_makes.mono hs)
  next => exact .refl

theorem makeDir_eq_ok (ho : h.makeDir p = .ok h') :
    ∃ front name dir, p.steps = front ++ [.down name] ∧ p.steps.any Step.hasNul = false ∧
      h.Leads p.absolute front dir ∧ h.lookup dir name = .ok none ∧
      h' = (h.create dir.ino name (.directory ∅) dirMode).2 := by
  obtain ⟨⟨d, name⟩, hv, ho⟩ := Outcome.bind_eq_ok_iff.mp ho
  obtain ⟨dir, hslot, rfl⟩ := vacancy_eq_ok_iff.mp hv
  cases ho
  cases hlast : p.steps.getLast? with
  | none =>
    refine absurd hslot (slot_ne_ok fun n hn => ?_)
    rw [hlast] at hn
    cases hn
  | some s =>
    cases s with
    | down n =>
      obtain ⟨front, hfront⟩ := List.getLast?_eq_some_iff.mp hlast
      obtain ⟨hnul, dir', hlead, he⟩ := (slot_eq_ok_iff hfront).mp hslot
      obtain ⟨hl, he⟩ | ⟨i, -, he⟩ := enter_down_eq_ok_iff.mp he
      · cases he
        exact ⟨front, name, dir, hfront, hnul, hlead, hl, rfl⟩
      · cases he
    | here =>
      refine absurd hslot (slot_ne_ok fun n hn => ?_)
      rw [hlast] at hn
      cases hn
    | up =>
      refine absurd hslot (slot_ne_ok fun n hn => ?_)
      rw [hlast] at hn
      cases hn

theorem create_grows (hd : h.isDirectory d = true) (hb : b.Bare)
    (hfree : ∀ i, h.child? d name = some i → h.isDirectory i = false ∧ h.target? i = none) :
    Grows h (h.create d name b mode).2 where
  workDir_eq := workDir_create
  isDirectory := isDirectory_create
  target? ht := by rwa [target?_create hb]
  child? {e n i} he hi := by
    rw [child?_create hb hd, if_neg]
    · exact he
    · rintro ⟨rfl, rfl⟩
      obtain ⟨h₁, h₂⟩ := hfree i he
      rw [h₁, h₂] at hi
      simp at hi

theorem makeDir_grows (ho : h.makeDir p = .ok h') : Grows h h' := by
  obtain ⟨front, name, dir, -, -, -, hl, rfl⟩ := makeDir_eq_ok ho
  obtain ⟨hd, -, hnone⟩ := lookup_eq_ok_iff.mp hl
  refine create_grows hd Body.bare_directory fun i he => ?_
  rw [hnone] at he
  cases he

theorem Makes.grows (hm : Makes ps h h') : Grows h h' := by
  induction hm with
  | refl => exact .refl _
  | step _ _ ho ih => exact ih.trans (makeDir_grows ho)

theorem Makes.child? (hm : Makes ps h h') (he : h.child? d name = some i) :
    h'.child? d name = some i := by
  induction hm with
  | refl => exact he
  | step _ _ ho ih =>
    obtain ⟨front, n, dir, -, -, -, hl, rfl⟩ := makeDir_eq_ok ho
    obtain ⟨hd, -, hnone⟩ := lookup_eq_ok_iff.mp hl
    rw [child?_create Body.bare_directory hd, if_neg]
    · exact ih
    · rintro ⟨rfl, rfl⟩
      rw [ih] at hnone
      cases hnone

theorem Makes.hasPlace {q : Place} (hm : Makes ps h h') (hq : h.HasPlace q) : h'.HasPlace q := by
  obtain ⟨trail⟩ := q
  induction trail with
  | nil => trivial
  | cons entry trail ih => exact ⟨hm.child? hq.1, ih hq.2⟩

/-- A directory to which the beginning of some path leads. -/
def Passes (h : Host) (ps : List Path) (i : Ino) : Prop :=
  ∃ p ∈ ps, ∃ steps q, steps <+: p.steps ∧ h.Leads p.absolute steps q ∧ q.ino = i ∧
    h.isDirectory i = true

theorem Passes.grows {i : Ino} (hg : Grows h h') (hi : h.Passes ps i) : h'.Passes ps i := by
  obtain ⟨p, hp, steps, q, hs, hl, rfl, hd⟩ := hi
  exact ⟨p, hp, steps, q, hs, hg.leads hd hl, rfl, hg.isDirectory hd⟩

/-- **Making directories puts directories into those that the paths pass.** -/
theorem Makes.puts (hm : Makes ps h h') : Puts (h'.Passes ps) h h' := by
  induction hm with
  | refl => exact .refl
  | @step h₁ h₂ p _ hp ho ih =>
    have hg := makeDir_grows ho
    obtain ⟨front, name, dir, hs, hnul, hlead, hl, rfl⟩ := makeDir_eq_ok ho
    obtain ⟨hd, hlen, hnone⟩ := lookup_eq_ok_iff.mp hl
    have hfits : Fits name := by
      rw [hs, List.any_append, Bool.or_eq_false_iff] at hnul
      exact ⟨by simpa [Step.hasNul] using hnul.2, hlen⟩
    have hpass : h₁.Passes ps dir.ino :=
      ⟨p, hp, front, dir, hs ▸ List.prefix_append _ _, hlead, rfl, hd⟩
    refine (ih.mono fun i hi => hi.grows hg).put (hpass.grows hg) hd hfits ?_
      Body.bare_directory
    intro i he
    rw [hnone] at he
    cases he

/-! ### The directories that are there then -/

theorem leadsToDirectory_iff :
    h.leadsToDirectory p = true ↔
      ∃ place, h.find .follow p = .ok place ∧ h.isDirectory place.ino = true := by
  unfold leadsToDirectory
  cases h.find .follow p <;> simp

theorem find_of_makeDir (ho : h.makeDir p = .ok h') :
    ∃ place, h'.find .follow p = .ok place ∧ h'.entries? place.ino = some ∅ := by
  have hg := makeDir_grows ho
  obtain ⟨front, name, dir, hs, hnul, hlead, hl, rfl⟩ := makeDir_eq_ok ho
  obtain ⟨hd, hlen, hnone⟩ := lookup_eq_ok_iff.mp hl
  have hlt := lt_size_of_isDirectory hd
  set h' := (h.create dir.ino name (.directory ∅) dirMode).2 with hh'
  have hes : h'.entries? h.nodes.size = some ∅ := by
    rw [entries?_eq_some_iff]
    unfold body?
    rw [hh', node?_create_size (Nat.ne_of_lt hlt)]
    rfl
  have hdir : h'.isDirectory h.nodes.size = true := by
    unfold isDirectory
    rw [hes]
    rfl
  have hentry : h'.child? dir.ino name = some h.nodes.size := by
    rw [hh', child?_create Body.bare_directory hd, if_pos ⟨rfl, rfl⟩]
  have hlookup : h'.lookup dir name = .ok (some h.nodes.size) :=
    lookup_eq_ok_iff.mpr ⟨hg.isDirectory hd, hlen, hentry⟩
  have hleads : h'.Leads p.absolute p.steps (dir.down name h.nodes.size) := by
    have hfront := hg.leads hd hlead
    unfold Leads at hfront ⊢
    rw [hs, walk_concat, hfront]
    · exact enter_down_eq_ok_iff.mpr (.inr ⟨_, hlookup, rfl⟩)
    · intro dir' name' i hdir' hname' he
      rw [hfront] at hdir'
      cases hdir'
      cases hname'
      rw [hentry] at he
      cases he
      exact .inr (target?_of_isDirectory hdir)
  have hempty : p.isEmpty = false := by simp [Path.isEmpty, hs]
  exact ⟨dir.down name h.nodes.size,
    find_follow_eq_ok_iff.mpr ⟨hempty, hnul, hleads, fun _ => hdir⟩, hes⟩

theorem leadsToDirectory_of_makeDir (ho : h.makeDir p = .ok h') :
    h'.leadsToDirectory p = true := by
  obtain ⟨place, hf, hes⟩ := find_of_makeDir ho
  exact leadsToDirectory_iff.mpr ⟨place, hf, by simp [isDirectory, hes]⟩

theorem leadsToDirectory_makeFirst {above : List Path}
    (ho : makeFirst (p :: above) h = .ok (missing, h')) :
    (missing = [] ∧ h'.leadsToDirectory p = true) ∨ ∃ qs, missing = qs ++ [p] := by
  rw [makeFirst] at ho
  split at ho
  next h₁ hmake =>
    cases ho
    exact .inl ⟨rfl, leadsToDirectory_of_makeDir hmake⟩
  next =>
    obtain ⟨⟨qs, h₁⟩, -, ho⟩ := Outcome.bind_eq_ok_iff.mp ho
    cases ho
    exact .inr ⟨qs, rfl⟩
  next =>
    split_ifs at ho with hc
    cases ho
    simp only [Bool.and_eq_true] at hc
    exact .inl ⟨rfl, hc.2⟩

theorem leadsToDirectory_makeEach (ho : makeEach (qs ++ [p]) h = (.ok (), h')) :
    h'.leadsToDirectory p = true := by
  induction qs generalizing h with
  | nil =>
    rw [List.nil_append, makeEach] at ho
    split at ho
    next h₁ hmake =>
      cases ho
      exact leadsToDirectory_of_makeDir hmake
    next =>
      split_ifs at ho with hc
      · cases ho
        simp only [Bool.and_eq_true] at hc
        exact hc.2
      · cases ho
  | cons q qs ih =>
    rw [List.cons_append, makeEach] at ho
    split at ho
    next => exact ih ho
    next =>
      split_ifs at ho
      · exact ih ho
      · cases ho

/-- **Directories that were made are there.** -/
theorem leadsToDirectory_makeDirs (hp : p.moves ≠ []) (ho : makeDirs p h = (.ok (), h')) :
    h'.leadsToDirectory p = true := by
  have hcons : ∃ above, p.ancestors = p :: above := by
    unfold Path.ancestors
    split
    next he => exact absurd he hp
    next => exact ⟨_, rfl⟩
  obtain ⟨above, habove⟩ := hcons
  unfold makeDirs at ho
  split at ho
  next missing h₁ hfirst =>
    rw [habove] at hfirst
    obtain ⟨rfl, hl⟩ | ⟨qs, rfl⟩ := leadsToDirectory_makeFirst hfirst
    · cases ho
      exact hl
    · exact leadsToDirectory_makeEach ho
  next => cases ho

theorem makeDir_of_leadsToDirectory (hl : h.leadsToDirectory p = true) :
    h.makeDir p = .error .alreadyExists := by
  obtain ⟨place, hf, hd⟩ := leadsToDirectory_iff.mp hl
  obtain ⟨hempty, hnul, hlead, -⟩ := find_follow_eq_ok_iff.mp hf
  have hslot : (∃ there, h.slot p = .ok (.node there)) ∨ h.slot p = .error .alreadyExists := by
    have hbefore : (∀ n, p.steps.getLast? ≠ some (.down n)) →
        ∀ dir, h.Leads p.absolute p.steps.dropLast dir → h.isDirectory dir.ino = true →
          h.slot p = .error .alreadyExists := by
      intro hlast dir hdir hdd
      have hfind : h.find .follow p.before = .ok dir := by
        refine find_follow_eq_ok_iff.mpr ⟨by simp [Path.isEmpty, Path.before], ?_, hdir,
          fun _ => hdd⟩
        rw [List.any_eq_false] at hnul ⊢
        exact fun s hs => hnul s (List.dropLast_subset _ hs)
      unfold slot
      split
      next n hn => exact absurd hn (hlast n)
      next => simp [hempty, hfind]
    rcases List.eq_nil_or_concat' p.steps with hs | ⟨front, s, hs⟩
    · refine .inr (hbefore (by simp [hs]) place ?_ hd)
      rwa [hs] at hlead ⊢
    · rw [hs] at hlead
      obtain ⟨dir, hdir, hdd, hlook⟩ := walk_lastFrom hlead
      by_cases hdown : ∃ n, s = .down n
      · obtain ⟨n, rfl⟩ := hdown
        obtain ⟨i, hi⟩ := hlook n rfl
        exact .inl ⟨_, (slot_eq_ok_iff hs).mpr ⟨hnul, dir, hdir,
          enter_down_eq_ok_iff.mpr (.inr ⟨i, hi, rfl⟩)⟩⟩
      · refine .inr (hbefore ?_ dir ?_ hdd)
        · intro n hn
          rw [hs, List.getLast?_concat] at hn
          exact hdown ⟨n, Option.some.inj hn⟩
        · rw [hs, List.dropLast_concat]
          exact hdir
  unfold makeDir vacancy
  obtain ⟨there, hslot⟩ | hslot := hslot
  · rw [hslot]
    rfl
  · rw [hslot]
    rfl

/-- **Where a directory is already, nothing is made.** -/
theorem makeDirs_of_leadsToDirectory (hl : h.leadsToDirectory p = true) :
    makeDirs p h = (.ok (), h) := by
  unfold makeDirs Path.ancestors
  split
  next missing h' hfirst =>
    split at hfirst
    · cases hfirst
      rfl
    · rw [makeFirst, makeDir_of_leadsToDirectory hl] at hfirst
      simp only [hl, decide_true, Bool.and_self, if_true] at hfirst
      cases hfirst
      rfl
  next e hfirst =>
    split at hfirst
    · cases hfirst
    · rw [makeFirst, makeDir_of_leadsToDirectory hl] at hfirst
      simp only [hl, decide_true, Bool.and_self, if_true] at hfirst
      cases hfirst

theorem isDirectory_of_moves_eq_nil (ht : h.IsTree) (hp : p.moves = []) {place : Place}
    (hf : h.find .follow p = .ok place) : h.isDirectory place.ino = true := by
  obtain ⟨hempty, -, hl, hclosed⟩ := find_follow_eq_ok_iff.mp hf
  have hhere : ∀ s ∈ p.steps, s = .here := by
    intro s hs
    by_contra hne
    have hmem : s ∈ p.steps.filter (· ≠ .here) := List.mem_filter.mpr ⟨hs, by simpa using hne⟩
    unfold Path.moves at hp
    split at hp
    · cases hp
    · rw [hp] at hmem
      cases hmem
  cases habs : p.absolute with
  | true =>
    have hstay : ∀ (links : Nat) (q r : Place) (steps : List Step), (∀ s ∈ steps, s = .here) →
        h.walk .follow links q steps = .ok (.node r) → r = q := by
      intro links q r steps hsteps hw
      obtain ⟨expand, hwalk⟩ := walk_eq_walkSteps h .follow links q
      rw [hwalk] at hw
      clear hwalk
      induction steps with
      | nil =>
        cases hw
        rfl
      | cons s rest ih =>
        obtain rfl := hsteps s List.mem_cons_self
        obtain ⟨_, -, hw⟩ := Outcome.bind_eq_ok_iff.mp hw
        exact ih (fun s hs => hsteps s (List.mem_cons_of_mem _ hs)) hw
    rw [hstay maxLinks (h.origin p.absolute) place p.steps hhere hl, habs]
    exact ht.root
  | false =>
    cases hsteps : p.steps with
    | nil =>
      refine hclosed ?_
      simpa [Path.isEmpty, habs, hsteps] using hempty
    | cons s rest =>
      obtain rfl := hhere s (hsteps ▸ List.mem_cons_self)
      simp [Path.moves, habs, hsteps] at hp

end Making

end Host

end GuestShare
