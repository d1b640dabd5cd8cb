import GuestShare.Proofs.Share.Birth
import GuestShare.Proofs.Share.Durability
import GuestShare.Proofs.Share.Renaming

/-!
# What is recorded of a node lasts

As long as nobody touches a node, its records stay, in memory and in the files that a new server
reads. This needs the metadata path to lead to the same directory outside the export, whatever
becomes of the export.

* `Share.LeavesAlone`: a request that does nothing at a path.
* `Share.Later`: what becomes of a server, and of new ones in its place, as a path is left alone.
* `Share.RecordsAt`: where the records are, outside the export.
* `Share.Lasts`: a node with its records, in memory and in their files.
* **`Lasts.perform`**, **`Lasts.flushRecords`**, **`Lasts.restart`**: they last.
* **`Later.lasts`**: they last for as long as the path is left alone.
-/

namespace GuestShare

namespace Share

variable {s t t' : Share} {r : Request} {p q : GuestPath} {i m : Ino} {o : ShareOptions}
  {v : Overlay} {frame : Bytes}

/-! ## Paths left alone -/

/-- A request that neither removes, moves, replaces or makes what is at a path nor sets attributes
there, and moves nothing above it. -/
structure LeavesAlone (s : Share) (r : Request) (q : GuestPath) : Prop extends s.NotAt r q where
  made : s.Does r → s.madePath r ≠ some q
  permitted : s.permittedPath r ≠ some q

theorem permittedPath_valid (hv : s.ValidPaths) (hp : s.permittedPath r = some p) : p.Valid := by
  cases r with
  | setattr id attr =>
    obtain ⟨fid, hid, rfl⟩ := Option.map_eq_some_iff.mp hp
    exact hv id fid hid
  | _ => cases hp

/-- **A request changes no records at a path that it leaves alone.** -/
theorem Plain.overlay_perform (hp : s.Plain) (hq : q.Valid) (hi : s.Has q i)
    (hr : s.LeavesAlone r q) : (s.perform r).2.store.overlay q.key = s.store.overlay q.key := by
  have apart : ∀ {p : GuestPath}, p.Valid → p ≠ q → q.key ≠ p.key := fun hv hne hkey =>
    hne (hv.eq_of_key_eq hq hkey.symm)
  cases perform_deed s r with
  | keep paths tree records => exact records _
  | permit path tree records =>
    rw [records, if_neg]
    exact apart (permittedPath_valid hp.validPaths path) fun h => hr.permitted (h ▸ path)
  | record path does tree records valid =>
    rw [records, if_neg (apart (valid hp.validPaths) fun h => hr.made does (h ▸ path))]
  | remove path does found entry nothing tree records valid =>
    rw [records, if_neg (apart (valid hp.validPaths) fun h => hr.removed does (h ▸ path))]
  | @move old new name name' dir dir' k paths does names found entry found' tree records =>
    obtain ⟨hold, -⟩ := hr.moved _ _ does paths
    obtain ⟨_, -, -, -, hvold, hvnew, -⟩ := hp.renameat paths does
    have hk : s.Has (old ++ [name]) k := has_concat_iff.mpr
      ⟨dir.ino, hp.linkFree.has_of_find hp.sound found, (Host.lookup_eq_ok_iff.mp entry).2.2⟩
    have hnew : ¬ new ++ [name'] <+: q := hr.not_below_new hp.linkFree hp.sound does paths hk found'
      (tree.imp And.left And.left) hi
    by_cases hkey : (old ++ [name]).key = (new ++ [name']).key
    · rw [records, hkey, Store.rename_self]
    have hcold : ¬ covers (old ++ [name]).key q.key = true := by
      rwa [hvold.1.covers_key_iff hq hvold.2]
    have hcnew : suffix? (new ++ [name']).key q.key = none := by
      rw [← Option.not_isSome_iff_eq_none]
      exact (hvnew.1.covers_key_iff hq hvnew.2).not.mpr hnew
    rw [records, Store.overlay_rename_of_none hkey hcnew, if_neg hcold]

/-! ## What becomes of a server -/

/-- A server, or a new one of the same directory in its place, after clients have come and gone that
left a path alone. -/
inductive Later (o : ShareOptions) (p : GuestPath) (s : Share) : Share → Prop
  | refl : Later o p s s
  | respond {t : Share} (frame : Bytes) : Later o p s t →
      (∀ m, Frame.toRequest frame = .ok m → t.LeavesAlone m.body p) →
      Later o p s (t.respond frame).2.2
  | reset {t : Share} : Later o p s t → Later o p s t.reset
  | restart {t t' : Share} : Later o p s t → (start o t.host).1 = .ok t' → t'.root = t.root →
      Later o p s t'

/-- Entries of the export, and entries of category files in a directory. -/
def Loose (s : Share) (m d : Ino) (name : Name) : Prop :=
  s.Inside d ∨ Store.IsCategoryEntry m d name

/-- Whatever becomes of the export and of the category files, the metadata path leads to the same
directory outside the export. -/
structure RecordsAt (s : Share) (m : Ino) : Prop where
  not_inside : ¬ s.Inside m
  leads : ∀ h, h.IsTree → s.host.GrowsBut (s.Loose m) h →
    ∃ place, h.HasDir (Store.dirPath s.store.dir) place ∧ place.ino = m

/-- Every node that is held open exists. -/
def HoldsNodes (s : Share) : Prop := ∀ i, s.Holds i → i < s.host.nodes.size

theorem Plain.perform_holdsNodes (hp : s.Plain) (hs : s.HoldsNodes) :
    (s.perform r).2.HoldsNodes := by
  have hc := hp.confined r
  exact fun i hi => (hc.holds hi).elim (fun h => Nat.lt_of_lt_of_le (hs i h) hc.changes.size_le)
    fun h => h.lt_size (hp.perform r).sound

theorem HoldsNodes.flushRecords (hs : s.HoldsNodes) : s.flushRecords.2.HoldsNodes :=
  fun i hi => Nat.lt_of_lt_of_le (hs i hi) Store.flush_puts.size_le

theorem not_holds (hs : s.fids = ∅) : ¬ s.Holds i := fun ⟨_, _, _, hid, _⟩ => by
  rw [hs] at hid
  cases hid

theorem inside_of_restart (ht : (start o t.host).1 = .ok t') (hroot : t'.root = t.root)
    (hi : i < t.host.nodes.size) (hin : t'.Inside i) : t.Inside i := by
  obtain ⟨-, hhost, -⟩ := start_eq_ok ht
  obtain ⟨ns, hns⟩ := hin
  rw [hroot, hhost] at hns
  exact ⟨ns, Host.makeDirs_makes.puts.descend_old hi hns⟩

/-- **A new server keeps an export without links.** -/
theorem Plain.restart (hp : t.Plain) (ht : (start o t.host).1 = .ok t')
    (hroot : t'.root = t.root) : t'.Plain := by
  obtain ⟨-, hhost, -, -, hfids⟩ := start_eq_ok ht
  have hputs : Host.Puts _ t.host t'.host := hhost ▸ Host.makeDirs_makes.puts
  refine ⟨(hp.sound.puts hputs).congr hroot rfl, fun i hi => ?_, fun _ _ hid => ?_⟩
  · rw [hputs.target?_eq]
    by_cases hlt : i < t.host.nodes.size
    · exact hp.linkFree i (inside_of_restart ht hroot hlt hi)
    · unfold Host.target? Host.body?
      rw [Option.not_isSome_iff_eq_none.mp fun h => hlt (Host.node?_isSome_iff.mp h)]
      rfl
  · rw [hfids] at hid
    cases hid

/-- A node with its records, in memory and in files that only the metadata directory has. -/
structure Lasts (s : Share) (m : Ino) (p : GuestPath) (v : Overlay) (t : Share) : Prop where
  plain : t.Plain
  root_eq : t.root = s.root
  dir_eq : t.store.dir = s.store.dir
  has : ∃ i, t.Has p i
  holds : t.HoldsNodes
  size_le : s.host.nodes.size ≤ t.host.nodes.size
  outside : ∀ i, i < s.host.nodes.size → t.Inside i → s.Inside i
  grows : s.host.GrowsBut (s.Loose m) t.host
  memory : v.Le (t.store.overlay p.key)
  files : ∀ c, v.Has c →
    ∃ i, Store.Filed v p.key t.host m c i ∧ ¬ t.Inside i ∧ ¬ t.Holds i

theorem RecordsAt.isDirectory (hm : s.RecordsAt m) (hs : s.Sound) :
    s.host.isDirectory m = true := by
  obtain ⟨place, hplace, rfl⟩ := hm.leads s.host hs.isTree (.refl _ _)
  exact hplace.2

theorem Sound.not_inside_of_names (hs : s.Sound) (hi : s.host.isDirectory i = false)
    (hn : ∀ d name, s.host.child? d name = some i → ¬ s.Inside d) : ¬ s.Inside i := by
  rintro ⟨ns, hns⟩
  obtain rfl | ⟨front, name, rfl⟩ := List.eq_nil_or_concat' ns
  · obtain ⟨root, hroot, hdir⟩ := hs.root
    rw [List.append_nil, hroot] at hns
    cases hns
    rw [hdir] at hi
    cases hi
  · rw [← List.append_assoc] at hns
    obtain ⟨d, hd, hchild⟩ := Host.descend_concat_eq_some_iff.mp hns
    exact hn d name hchild ⟨front, hd⟩

namespace Lasts

theorem not_inside (hl : s.Lasts m p v t) (hs : s.Sound) (hm : s.RecordsAt m) : ¬ t.Inside m :=
  fun hin => hm.not_inside (hl.outside m (Host.lt_size_of_isDirectory (hm.isDirectory hs)) hin)

theorem hasDir (hl : s.Lasts m p v t) (hm : s.RecordsAt m) :
    ∃ place, t.host.HasDir (Store.dirPath t.store.dir) place ∧ place.ino = m := by
  rw [hl.dir_eq]
  exact hm.leads t.host hl.plain.sound.isTree hl.grows

theorem loose (hl : s.Lasts m p v t) {d j : Ino} {name : Name}
    (he : s.host.child? d name = some j) (hd : t.Inside d) : s.Loose m d name :=
  .inl (hl.outside d (Host.lt_size_of_isDirectory (Host.isDirectory_of_child? he)) hd)

/-- **Requests that leave the path alone keep the records.** -/
theorem perform (hl : s.Lasts m p v t) (hs : s.Sound) (hm : s.RecordsAt m) (hp : p.Valid)
    (hr : t.LeavesAlone r p) : s.Lasts m p v (t.perform r).2 := by
  have hdeed := perform_deed t r
  have hc := hl.plain.confined r
  have hlinkFree := hl.plain.linkFree
  have hsound := hl.plain.sound
  obtain ⟨i, hi⟩ := hl.has
  have hin : ∀ j, j < t.host.nodes.size → (t.perform r).2.Inside j → t.Inside j := fun j hj hjin =>
    hc.changes.outside j hj ((inside_on_iff hc.root_eq).mpr hjin)
  have hgrows : t.host.GrowsBut (fun d _ => t.Inside d) (t.perform r).2.host :=
    { workDir_eq := hdeed.workDir_eq
      isDirectory := fun hj => by rwa [hdeed.isDirectory (Host.lt_size_of_isDirectory hj)]
      target? := fun ht => by rwa [hc.changes.target?_eq]
      child? := fun hd he _ => hdeed.child? hlinkFree hsound hd he }
  exact {
    plain := hl.plain.perform r
    root_eq := hc.root_eq.trans hl.root_eq
    dir_eq := (perform_kept t r).dir.trans hl.dir_eq
    has := ⟨i, hdeed.has hlinkFree hsound hc.root_eq hr.toNotAt hi⟩
    holds := hl.plain.perform_holdsNodes hl.holds
    size_le := Nat.le_trans hl.size_le hc.changes.size_le
    outside := fun j hj hjin => hl.outside j hj (hin j (Nat.lt_of_lt_of_le hj hl.size_le) hjin)
    grows := hl.grows.trans hgrows fun d name j he hd => hl.loose he hd
    memory := by
      rw [hl.plain.overlay_perform hp hi hr]
      exact hl.memory
    files := fun c hcat => by
      obtain ⟨j, hj, hjin, hjheld⟩ := hl.files c hcat
      refine ⟨j, hj.congr (hdeed.child? hlinkFree hsound (hl.not_inside hs hm) hj.1)
        (hc.changes.untouched j hj.lt_size hjin hjheld), fun h => hjin (hin j hj.lt_size h),
        fun h => ?_⟩
      exact (hc.holds h).elim hjheld fun h => hjin (hin j hj.lt_size h) }

/-- **Writing the records keeps them.** -/
theorem flushRecords (hl : s.Lasts m p v t) (hs : s.Sound) (hm : s.RecordsAt m) :
    s.Lasts m p v t.flushRecords.2 := by
  have hsound := hl.plain.sound
  have hputs := Store.flush_puts (s := t.store) (h := t.host)
  have hwrites := flushRecords_writesRecords hsound
  obtain ⟨place, hplace, rfl⟩ := hl.hasDir hm
  obtain ⟨i, hi⟩ := hl.has
  obtain ⟨i', hi', -⟩ := hputs.exists_descend hsound.isTree hi
  have hnot : ¬ t.flushRecords.2.Inside place.ino := fun h => hl.not_inside hs hm
    (hwrites.outside _ (Host.lt_size_of_isDirectory hplace.2) h)
  exact {
    plain := hl.plain.flushRecords
    root_eq := hl.root_eq
    dir_eq := Store.flush_sameRecords.dir.trans hl.dir_eq
    has := ⟨i', hi'⟩
    holds := hl.holds.flushRecords
    size_le := Nat.le_trans hl.size_le hputs.size_le
    outside := fun j hj hjin =>
      hl.outside j hj (hwrites.outside j (Nat.lt_of_lt_of_le hj hl.size_le) hjin)
    grows := hl.grows.trans (Store.flush_growsBut hplace) fun _ _ _ _ h => .inr h
    memory := by
      rw [overlay_flushRecords]
      exact hl.memory
    files := fun c hcat => by
      obtain ⟨j, hj, hjin, hjheld⟩ := hl.files c hcat
      obtain ⟨j', hj', rfl | ⟨hnew, hnames⟩⟩ := hj.flush hsound.isTree hl.memory hplace
      · exact ⟨j', hj', fun h => hjin (hwrites.outside j' hj.lt_size h), hjheld⟩
      · refine ⟨j', hj', ?_, fun h => Nat.not_lt.mpr hnew (hl.holds j' h)⟩
        exact hwrites.sound.not_inside_of_names hj'.not_isDirectory fun d name he =>
          hnames d name he ▸ hnot }

theorem respond (hl : s.Lasts m p v t) (hs : s.Sound) (hm : s.RecordsAt m) (hp : p.Valid)
    (hr : ∀ r, Frame.toRequest frame = .ok r → t.LeavesAlone r.body p) :
    s.Lasts m p v (t.respond frame).2.2 := by
  obtain ⟨-, -, hafter, -⟩ | ⟨r, hframe, hafter, -⟩ := t.respond_cases frame
  · rw [hafter]
    exact hl
  · rw [hafter]
    exact (hl.perform hs hm hp (hr r hframe)).flushRecords hs hm

theorem reset (hl : s.Lasts m p v t) : s.Lasts m p v t.reset where
  plain := hl.plain.reset
  root_eq := hl.root_eq
  dir_eq := hl.dir_eq
  has := hl.has
  holds := fun _ hi => (not_holds rfl hi).elim
  size_le := hl.size_le
  outside := hl.outside
  grows := hl.grows
  memory := hl.memory
  files c hc := by
    obtain ⟨i, hi, hin, -⟩ := hl.files c hc
    exact ⟨i, hi, hin, not_holds rfl⟩

/-- **A new server of the same directories finds the records.** -/
theorem restart (hl : s.Lasts m p v t) (hm : s.RecordsAt m)
    (hdir : s.store.dir = o.metadataDir) (ht : (start o t.host).1 = .ok t')
    (hroot : t'.root = t.root) : s.Lasts m p v t' := by
  obtain ⟨-, hhost, -, hstore, hfids⟩ := start_eq_ok ht
  have hmakes : Host.Makes _ t.host t'.host := hhost ▸ Host.makeDirs_makes
  have hputs := hmakes.puts
  have hplain := hl.plain.restart ht hroot
  obtain ⟨i, hi⟩ := hl.has
  obtain ⟨i', hi', -⟩ := hputs.exists_descend hl.plain.sound.isTree hi
  have hgrows : s.host.GrowsBut (s.Loose m) t'.host :=
    hl.grows.trans hmakes.grows.but (G := fun _ _ => False) fun _ _ _ _ h => h.elim
  have hfiles : ∀ c, v.Has c →
      ∃ i, Store.Filed v p.key t'.host m c i ∧ ¬ t'.Inside i ∧ ¬ t'.Holds i := by
    intro c hcat
    obtain ⟨j, hj, hjin, -⟩ := hl.files c hcat
    refine ⟨j, hj.congr (hmakes.child? hj.1) (hputs.node?_eq hj.lt_size ?_),
      fun h => hjin (inside_of_restart ht hroot hj.lt_size h), not_holds hfids⟩
    -- directories are made in directories only
    rintro ⟨_, -, _, _, -, -, -, hd⟩
    rw [hputs.isDirectory_eq hj.lt_size, hj.not_isDirectory] at hd
    cases hd
  exact {
    plain := hplain
    root_eq := hroot.trans hl.root_eq
    dir_eq := by
      rw [hstore, hdir]
      rfl
    has := ⟨i', (has_of_root_eq hroot).mpr hi'⟩
    holds := fun _ hj => (not_holds hfids hj).elim
    size_le := Nat.le_trans hl.size_le hputs.size_le
    outside := fun j hj hjin =>
      hl.outside j hj (inside_of_restart ht hroot (Nat.lt_of_lt_of_le hj hl.size_le) hjin)
    grows := hgrows
    memory := by
      obtain ⟨place, hplace, rfl⟩ := hm.leads t'.host hplain.sound.isTree hgrows
      rw [hdir] at hplace
      rw [hstore]
      exact Store.load_le fun c hcat => by
        obtain ⟨j, hj, -⟩ := hfiles c hcat
        exact hj.fileBytes hplace
    files := hfiles }

end Lasts

/-- **The records last for as long as the path is left alone.** -/
theorem Later.lasts (ht : Later o p s t) (hl : s.Lasts m p v s) (hm : s.RecordsAt m)
    (hdir : s.store.dir = o.metadataDir) (hp : p.Valid) : s.Lasts m p v t := by
  have hs := hl.plain.sound
  induction ht with
  | refl => exact hl
  | respond frame _ hr ih => exact ih.respond hs hm hp hr
  | reset _ ih => exact ih.reset
  | restart _ ht hroot ih => exact ih.restart hm hdir ht hroot

end Share

end GuestShare
