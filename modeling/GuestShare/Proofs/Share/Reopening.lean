import GuestShare.Proofs.Host.Steady
import GuestShare.Proofs.Share.Reading
import GuestShare.Proofs.Share.Undisturbed

/-!
# Creating a file and opening it again

A file that is created is open for reading and for writing at any offset, whatever access its flags
ask for. To open it again by the same flags makes no difference to a client that keeps to this
access, and it does make one to a client that does not.

* `Access.Allows`: reads and writes that keep to an access.
* `Share.answers`, `Share.KeepsTo`: requests one after the other, and all of them keeping to it.
* `Share.Twins`: two shares that have the same file open, as it was created and by an access.
* **`Twins.answer`**, **`Twins.answers`**: such shares answer alike and stay so.
* **`lcreate_reopens`**: a file that was created can be opened again, which makes no difference.
* **`exists_not_reopens`**: it does to who does not keep to the access.
-/

namespace GuestShare

/-! ## Open files -/

namespace Host

variable {h h' : Host} {path : Path} {how : OpenHow} {d : Descriptor} {place : Place} {i : Ino}
  {c : Contents}

theorem openAt_descriptor (ho : h.openAt path how = .ok (d, h')) : d = how.descriptor d.ino := by
  rcases openAt_eq_ok ho with ⟨place, -, -, hnode⟩ | ⟨dir, name, -, -, rfl, -⟩
  · obtain ⟨rfl, -⟩ := openNode_eq_ok hnode
    rfl
  · rfl

theorem openAt_of_find (hf : h.find how.atEnd path = .ok place) (hnever : how.creation = .never)
    (hc : h.body? place.ino = some (.file c)) :
    h.openAt path how = .ok (how.descriptor place.ino,
      if how.truncate then h.setBody place.ino (.file .empty) else h) := by
  unfold openAt
  simp only [hnever, ne_eq, not_true_eq_false, decide_false, Bool.false_and, Bool.false_eq_true,
    if_false, reduceCtorEq, find_eq_ok_iff_locate.mp hf, Outcome.ok_bind, openNode, hc]

end Host

namespace Descriptor

variable {d : Descriptor} {h h' : Host} {i : Ino} {c : Contents} {a : Access} {offset count : Nat}
  {bs : Bytes}

theorem write_of_file (hd : d.writable = true) (hc : h.body? d.ino = some (.file c)) :
    d.write offset bs h =
      if bs.isEmpty then .ok h
      else if Host.limit ≤ offset + bs.length then .error .invalid
      else .ok (h.setBody d.ino
        (.file (c.overwrite (if d.append then c.length else offset) bs))) := by
  simp only [write, hd, hc, Bool.not_true, Bool.false_eq_true, if_false]

/-- The descriptor of a file that was created: everything can be done with it. -/
def ofCreated (i : Ino) : Descriptor := ⟨i, true, true, false⟩

theorem read_alike (hc : h.body? i = some (.file c)) (hc' : h'.body? i = some (.file c))
    (hr : a.read = true ∨ count = 0) :
    (a.how.descriptor i).read offset count h' = (ofCreated i).read offset count h := by
  rcases hr with hr | rfl
  · have hread : (a.how.descriptor i).readable = true := hr
    rw [read_of_file hread hc', read_of_file (d := ofCreated i) rfl hc]
  · rfl

theorem write_alike (hc : h.body? i = some (.file c)) (hc' : h'.body? i = some (.file c))
    (hw : bs = [] ∨ a.write = true ∧ (a.append = true → offset = c.length)) :
    (∃ e, (ofCreated i).write offset bs h = .error e ∧
        (a.how.descriptor i).write offset bs h' = .error e) ∨
      ∃ k k' c', (ofCreated i).write offset bs h = .ok k ∧
        (a.how.descriptor i).write offset bs h' = .ok k' ∧
        k.body? i = some (.file c') ∧ k'.body? i = some (.file c') := by
  rcases hw with rfl | ⟨hw, happend⟩
  · exact .inr ⟨h, h', c, rfl, rfl, hc, hc'⟩
  have hwritable : (a.how.descriptor i).writable = true := by
    cases ha : a.append <;> simp [OpenHow.descriptor, Access.how, hw, ha]
  have hplace : (if (a.how.descriptor i).append then c.length else offset) = offset := by
    split_ifs with ha
    · have : a.append = true := by simpa [OpenHow.descriptor, Access.how, hw] using ha
      exact (happend this).symm
    · rfl
  rw [write_of_file hwritable hc', write_of_file (d := ofCreated i) rfl hc, hplace]
  split_ifs with hempty hfar hno
  · exact .inr ⟨h, h', c, rfl, rfl, hc, hc'⟩
  · exact .inl ⟨_, rfl, rfl⟩
  · cases hno
  · refine .inr ⟨_, _, c.overwrite offset bs, rfl, rfl, ?_, ?_⟩
    · exact (Host.body?_setBody (Host.lt_size_of_body? hc)).trans (if_pos rfl)
    · exact (Host.body?_setBody (Host.lt_size_of_body? hc')).trans (if_pos rfl)

end Descriptor

/-! ## Keeping to an access -/

/-- A read or a write through a fid. -/
def Request.Transfers (id : FidId) : Request → Prop
  | .read fid _ _ | .write fid _ _ => fid = id
  | _ => False

/-- A read or a write that keeps to an access to a file of some length. Nothing is done that was not
asked for, and who asked for writes to the end writes there. -/
def Access.Allows (a : Access) (id : FidId) (length : Nat) : Request → Prop
  | .read fid _ count => fid = id ∧ (a.read = true ∨ count = 0)
  | .write fid offset data => fid = id ∧
      (data = [] ∨ a.write = true ∧ (a.append = true → offset.toNat = length))
  | _ => False

namespace Share

variable {s s' t : Share} {a : Access} {id : FidId} {i : Ino} {c : Contents} {r : Request}
  {rs : List Request} {name : String} {flags mode gid : UInt32} {reply : Reply} {fid : Fid}
  {n : Inode}

/-- The replies to requests one after the other, and the share after them. -/
def answers (s : Share) : List Request → List (Except ShareError Reply) × Share
  | [] => ([], s)
  | r :: rs =>
    ((s.answer r).1 :: ((s.answer r).2.2.answers rs).1, ((s.answer r).2.2.answers rs).2)

/-- Requests that keep to an access to a file, each to the file as it is then. -/
def KeepsTo (a : Access) (id : FidId) (i : Ino) : Share → List Request → Prop
  | _, [] => True
  | s, r :: rs =>
    (∀ c, s.host.body? i = some (.file c) → a.Allows id c.length r) ∧
      KeepsTo a id i (s.answer r).2.2 rs

/-- Two shares with nothing to write hold the same file open through a fid: one for everything, the
other one by an access. -/
structure Twins (s t : Share) (a : Access) (id : FidId) (i : Ino) : Prop where
  settled : s.store.hasPending = false ∧ t.store.hasPending = false
  msize : t.msize = s.msize
  created : ∃ f, s.fids[id]? = some f ∧ f.handle = .file (.ofCreated i)
  opened : ∃ f, t.fids[id]? = some f ∧ f.handle = .file (a.how.descriptor i)
  contents : ∃ c, s.host.body? i = some (.file c) ∧ t.host.body? i = some (.file c)

theorem perform_write_file {d : Descriptor} {offset : UInt64} {data : Bytes}
    (hid : s.fids[id]? = some fid) (hh : fid.handle = .file d) :
    s.perform (.write id offset data) =
      match d.write offset.toNat data s.host with
      | .error e => (.error (.host e), s)
      | .ok h =>
        (if UInt32.size ≤ data.length then .error (.refused .longWrite)
          else .ok (.write (UInt32.ofNat data.length)), s.on h) := by
  change s.settleThen (s.writeFile id offset data) _ = _
  unfold writeFile
  rw [fids_find_eq_ok_iff.mpr hid]
  simp only [Outcome.ok_bind, hh]
  cases d.write offset.toNat data s.host with
  | error e => rfl
  | ok h =>
    change (s.on h).settle (if UInt32.size ≤ data.length then _ else _) = _
    split_ifs <;> rfl

/-- **Shares that hold the same file open answer alike** to what keeps to the access, and then they
hold the same file open as before. -/
theorem Twins.answer (ht : Twins s t a id i)
    (hr : ∀ c, s.host.body? i = some (.file c) → a.Allows id c.length r) :
    (t.answer r).1 = (s.answer r).1 ∧ Twins (s.answer r).2.2 (t.answer r).2.2 a id i := by
  obtain ⟨⟨hp, hp'⟩, hmsize, ⟨f, hid, hf⟩, ⟨g, hid', hg⟩, c, hc, hc'⟩ := ht
  have hallowed := hr c hc
  cases r with
  | read fid offset count =>
    obtain ⟨rfl, hread⟩ := hallowed
    have hbudget : t.budget count = s.budget count := by unfold budget; rw [hmsize]
    have hcount : a.read = true ∨ s.budget count = 0 :=
      hread.imp_right fun hzero => by simp [budget, hzero]
    have hs : s.perform (.read _ offset count) = _ := perform_read_file hid hf
    have ht : t.perform (.read _ offset count) = _ := perform_read_file hid' hg
    rw [hbudget, Descriptor.read_alike hc hc' hcount] at ht
    rw [answer_of_perform hs hp, answer_of_perform ht hp']
    exact ⟨rfl, ⟨hp, hp'⟩, hmsize, ⟨f, hid, hf⟩, ⟨g, hid', hg⟩, c, hc, hc'⟩
  | write fid offset data =>
    obtain ⟨rfl, hwrite⟩ := hallowed
    have hs : s.perform (.write _ offset data) = _ := perform_write_file hid hf
    have ht : t.perform (.write _ offset data) = _ := perform_write_file hid' hg
    obtain ⟨e, hw, hw'⟩ | ⟨k, k', c', hw, hw', hk, hk'⟩ :=
      Descriptor.write_alike hc hc' hwrite
    · rw [hw] at hs
      rw [hw'] at ht
      rw [answer_of_perform hs hp, answer_of_perform ht hp']
      exact ⟨rfl, ⟨hp, hp'⟩, hmsize, ⟨f, hid, hf⟩, ⟨g, hid', hg⟩, c, hc, hc'⟩
    · rw [hw] at hs
      rw [hw'] at ht
      rw [answer_of_perform hs hp, answer_of_perform ht hp']
      exact ⟨rfl, ⟨hp, hp'⟩, hmsize, ⟨f, hid, hf⟩, ⟨g, hid', hg⟩, c', hk, hk'⟩
  | _ => exact hallowed.elim

/-- **However many requests there are.** -/
theorem Twins.answers (ht : Twins s t a id i) (hk : KeepsTo a id i s rs) :
    (t.answers rs).1 = (s.answers rs).1 ∧ Twins (s.answers rs).2 (t.answers rs).2 a id i := by
  induction rs generalizing s t with
  | nil => exact ⟨rfl, ht⟩
  | cons r rs ih =>
    obtain ⟨hr, hk⟩ := hk
    obtain ⟨hreply, ht⟩ := ht.answer hr
    obtain ⟨hreplies, ht⟩ := ih ht hk
    exact ⟨by rw [Share.answers, Share.answers, hreply, hreplies], ht⟩

theorem keepsTo_of_transfers (ha : a.read = true ∧ a.write = true ∧ a.append = false)
    (hr : ∀ r ∈ rs, r.Transfers id) : KeepsTo a id i s rs := by
  induction rs generalizing s with
  | nil => trivial
  | cons r rs ih =>
    refine ⟨fun c _ => ?_, ih fun r hr' => hr r (List.mem_cons_of_mem _ hr')⟩
    have hfirst := hr r List.mem_cons_self
    cases r with
    | read fid offset count => exact ⟨hfirst, .inl ha.1⟩
    | write fid offset data =>
      exact ⟨hfirst, .inr ⟨ha.2.1, fun happend => by rw [ha.2.2] at happend; cases happend⟩⟩
    | _ => exact hfirst.elim

/-! ## Creating and opening -/

theorem newFile_openAt {u : Share} {fid' : Fid}
    (ho : s.newFile id name flags mode gid = .ok (fid', u)) :
    ∃ dir d h, s.fids[id]? = some dir ∧
      s.host.openAt (s.hostPath (dir.path ++ [name]))
        ((Access.ofFlags flags).howToCreate (flags &&& exclusiveFlag ≠ 0)) = .ok (d, h) ∧
      fid' = { dir with path := dir.path ++ [name], handle := .file d } ∧
      u = { s with
        host := h
        store := recordNew s.store (dir.path ++ [name]).key .file mode dir.uid gid h.clock } := by
  obtain ⟨dir, hid, ho⟩ := Outcome.bind_eq_ok_iff.mp ho
  obtain ⟨path, hpath, ho⟩ := Outcome.bind_eq_ok_iff.mp ho
  obtain ⟨-, rfl⟩ := entryPath_eq_ok_iff.mp hpath
  by_cases hlink : s.isHostLink (dir.path ++ [name]) = true
  · simp only [hlink, if_true] at ho
    cases ho
  · simp only [hlink, Bool.false_eq_true, if_false] at ho
    obtain ⟨⟨d, h⟩, hopen, ho⟩ := Outcome.bind_eq_ok_iff.mp ho
    cases ho
    exact ⟨dir, d, h, (directory_eq_ok_iff.mp hid).1, Outcome.mapError_eq_ok_iff.mp hopen, rfl,
      rfl⟩

theorem lcreate_fresh {s' : Share}
    (ho : s.lcreate id name flags mode gid = (.ok reply, s'))
    (hid : s.fids[id]? = some fid) (hfresh : ∀ x, s.inspect (fid.path ++ [name]) ≠ .ok x) :
    ∃ i, s'.fids[id]? =
        some { fid with path := fid.path ++ [name], handle := .file (.ofCreated i) } ∧
      s'.host.body? i = some (.file .empty) ∧
      (s'.store.overlay (fid.path ++ [name]).key).kind = some .file := by
  obtain ⟨fid', u, hnew, ho⟩ := settleThen_eq_ok_iff.mp ho
  obtain ⟨dir, d, h, hdir, hopen, rfl, rfl⟩ := newFile_openAt hnew
  cases hid.symm.trans hdir
  obtain ⟨n, -, ho⟩ := Outcome.bind_eq_ok_iff.mp ho
  cases ho
  have hkeep : ((Access.ofFlags flags).howToCreate (flags &&& exclusiveFlag ≠ 0)).whenLink =
      .keep := by
    unfold OpenHow.whenLink Access.howToCreate
    split_ifs <;> rfl
  have hd : d = .ofCreated d.ino := Host.openAt_descriptor hopen
  refine ⟨d.ino, ?_, ?_, ?_⟩
  · rw [← hd]
    exact Std.ExtTreeMap.getElem?_insert_self
  · obtain ⟨_, n, hi, -⟩ | ⟨hino, place, m, -, -, hlook, rfl⟩ := openAt_entry_eq_ok hkeep hopen
    · exact absurd hi (hfresh _)
    · have hne : place.ino ≠ s.host.nodes.size :=
        Nat.ne_of_lt (Host.lt_size_of_isDirectory (Host.lookup_eq_ok_iff.mp hlook).1)
      rw [hino]
      exact Host.body?_of_node? (Host.node?_create_size hne)
  · exact congrArg Overlay.kind (Store.overlay_recordNew.trans (if_pos rfl))

/-- **Writing its records leaves it so**, and then nothing is to be written. -/
theorem answer_lcreate_fresh
    (ha : (s.answer (.lcreate id name flags mode gid)).1 = .ok reply)
    (hid : s.fids[id]? = some fid) (hfresh : ∀ x, s.inspect (fid.path ++ [name]) ≠ .ok x) :
    ∃ i, (s.answer (.lcreate id name flags mode gid)).2.2.fids[id]? =
        some { fid with path := fid.path ++ [name], handle := .file (.ofCreated i) } ∧
      (s.answer (.lcreate id name flags mode gid)).2.2.host.body? i = some (.file .empty) ∧
      (s.answer (.lcreate id name flags mode gid)).2.2.store.kind (fid.path ++ [name]).key =
        some .file ∧
      (s.answer (.lcreate id name flags mode gid)).2.2.store.hasPending = false := by
  obtain ⟨hperf, hflush⟩ := answer_eq_ok_iff.mp ha
  obtain ⟨i, hfid, hbody, hkind⟩ := lcreate_fresh (Prod.ext hperf rfl) hid hfresh
  rw [answer_snd]
  refine ⟨i, hfid, Store.flush_puts.steady.file hbody, ?_, Store.hasPending_flush hflush⟩
  exact (congrArg Overlay.kind (overlay_flushRecords _)).trans hkind

theorem openAt_empty {h : Host} {path : Path} {place : Place} (a : Access)
    (hf : h.find .follow path = .ok place) (hc : h.body? place.ino = some (.file .empty)) :
    ∃ h₁ h₂, h.openAt path a.how = .ok (a.how.descriptor place.ino, h₁) ∧
      a.emptyOpened (.file (a.how.descriptor place.ino)) h₁ = .ok h₂ ∧
      h₂.body? place.ino = some (.file .empty) := by
  have hopen : h.openAt path a.how = _ := Host.openAt_of_find hf rfl hc
  set h₁ := if a.how.truncate then h.setBody place.ino (.file .empty) else h with hh₁
  have hbody : h₁.body? place.ino = some (.file .empty) := by
    rw [hh₁]
    split_ifs
    · exact (Host.body?_setBody (Host.lt_size_of_body? hc)).trans (if_pos rfl)
    · exact hc
  by_cases hempty : (a.write && a.truncate && a.append) = true
  · have hwritable : (a.how.descriptor place.ino).writable = true := by
      cases ha : a.append <;> simp_all [OpenHow.descriptor, Access.how]
    refine ⟨h₁, h₁.setBody place.ino (.file .empty), hopen, ?_,
      (Host.body?_setBody (Host.lt_size_of_body? hbody)).trans (if_pos rfl)⟩
    have hino : (a.how.descriptor place.ino).ino = place.ino := rfl
    simp only [Access.emptyOpened, hempty, if_true, Descriptor.setLength, hwritable, hino, hbody]
    rfl
  · exact ⟨h₁, h₁, hopen, by simp [Access.emptyOpened, hempty], hbody⟩

/-- **A file that is empty can be opened** by any flags, if it has nothing but a name. -/
theorem answer_lopen_empty (hid : s.fids[id]? = some fid) (hi : s.inspect fid.path = .ok (i, n))
    (hc : s.host.body? i = some (.file .empty)) (hk : s.store.kind fid.path.key = some .file)
    (hp : s.store.hasPending = false) (flags : UInt32) :
    ∃ h, s.answer (.lopen id flags) =
        (.ok (.lopen (s.nodeOf fid.path i n).qid s.iounit), [],
          (s.on h).bindFid id
            { fid with handle := .file ((Access.ofFlags flags).how.descriptor i) }) ∧
      h.body? i = some (.file .empty) := by
  obtain ⟨place, hf, rfl, hnode⟩ := inspect_eq_ok_iff.mp hi
  have hbody : n.body = .file .empty :=
    Option.some.inj ((Host.body?_of_node? hnode).symm.trans hc)
  have hfollow : s.host.find .follow (s.hostPath fid.path) = .ok place :=
    Host.find_follow_of_keep hf (by simp [Host.target?, hc])
  obtain ⟨h₁, h₂, hopen, hempty, hh₂⟩ := openAt_empty (.ofFlags flags) hfollow hc
  refine ⟨h₂, answer_of_perform ?_ hp, hh₂⟩
  have hnodeOf : s.openNode id (.ofFlags flags) =
      .ok (({ fid with handle := .file ((Access.ofFlags flags).how.descriptor place.ino) },
        s.nodeOf fid.path place.ino n), s.on h₁) := by
    have hkind : (s.nodeOf fid.path place.ino n).kind = .file := by simp [nodeOf, hk]
    have hfile : (s.nodeOf fid.path place.ino n).inode.body.isFile = true := by
      simp [nodeOf, hbody, Body.isFile]
    unfold openNode
    rw [fids_find_eq_ok_iff.mpr hid, Outcome.ok_bind, node_of_inspect hi, Outcome.ok_bind]
    simp only [hkind, hfile, if_true, hopen]
    rfl
  change s.openFor id (.ofFlags flags) .lopen = _
  unfold openFor
  rw [hnodeOf]
  simp only [settleThen, show (s.on h₁).host = h₁ from rfl, hempty]
  rfl

/-- Opening the file of a fid again, by some flags, makes no difference to reads and writes that
keep to the access of these flags: neither to what they are answered, nor to the file after them. -/
structure Reopens (s : Share) (id : FidId) (i : Ino) (flags : UInt32) : Prop where
  opens : ∃ q u, (s.answer (.lopen id flags)).1 = .ok (.lopen q u)
  replies : ∀ rs, KeepsTo (.ofFlags flags) id i s rs →
    ((s.answer (.lopen id flags)).2.2.answers rs).1 = (s.answers rs).1
  contents : ∀ rs, KeepsTo (.ofFlags flags) id i s rs →
    ∃ c, (s.answers rs).2.host.body? i = some (.file c) ∧
      ((s.answer (.lopen id flags)).2.2.answers rs).2.host.body? i = some (.file c)

theorem reopens_of_empty (hid : s.fids[id]? = some fid) (hf : fid.handle = .file (.ofCreated i))
    (hi : s.inspect fid.path = .ok (i, n)) (hc : s.host.body? i = some (.file .empty))
    (hk : s.store.kind fid.path.key = some .file) (hp : s.store.hasPending = false) :
    s.Reopens id i flags := by
  obtain ⟨h, ha, hh⟩ := answer_lopen_empty hid hi hc hk hp flags
  have htwins : Twins s (s.answer (.lopen id flags)).2.2 (.ofFlags flags) id i := by
    rw [ha]
    exact ⟨⟨hp, hp⟩, rfl, ⟨fid, hid, hf⟩, ⟨_, Std.ExtTreeMap.getElem?_insert_self, rfl⟩, _, hc, hh⟩
  exact ⟨⟨_, _, congrArg Prod.fst ha⟩, fun rs hk => (htwins.answers hk).1,
    fun rs hk => (htwins.answers hk).2.contents⟩

/-- **A file that was created is open for everything, whatever access its flags ask for.** As long
as its path leads to it, it can be opened again. That makes no difference to a client that keeps to
the access it then asks for, and everything keeps to that of reading and writing. -/
theorem lcreate_reopens (ha : (s.answer (.lcreate id name flags mode gid)).1 = .ok reply)
    (hid : s.fids[id]? = some fid) (hfresh : ∀ x, s.inspect (fid.path ++ [name]) ≠ .ok x) :
    ∃ i, (s.answer (.lcreate id name flags mode gid)).2.2.fids[id]? =
        some { fid with path := fid.path ++ [name], handle := .file (.ofCreated i) } ∧
      ∀ n, (s.answer (.lcreate id name flags mode gid)).2.2.inspect (fid.path ++ [name]) =
          .ok (i, n) →
        (∀ again, (s.answer (.lcreate id name flags mode gid)).2.2.Reopens id i again) ∧
        ∀ rs, (∀ r ∈ rs, r.Transfers id) →
          KeepsTo (.ofFlags 0o2) id i (s.answer (.lcreate id name flags mode gid)).2.2 rs := by
  obtain ⟨i, hfid, hbody, hkind, hp⟩ := answer_lcreate_fresh ha hid hfresh
  exact ⟨i, hfid, fun n hn => ⟨fun again => reopens_of_empty hfid rfl hn hbody hkind hp,
    fun rs hr => keepsTo_of_transfers (by decide) hr⟩⟩

/-! ## Writing at the end -/

/-- The bytes of a file. -/
def bytesAt (s : Share) (i : Ino) : Option Bytes :=
  match s.host.body? i with
  | some (.file c) => some c.toList
  | _ => none

/-- The request to create a file, by some flags. -/
def createNew (flags : UInt32) : Request := .lcreate 0 "n" flags 0o644 0

/-- Two writes, both at the beginning or the second one where the first has ended. -/
def twoWrites (second : UInt64) : List Request :=
  [.write 0 0 (Bytes.ofText "ab"), .write 0 second (Bytes.ofText "cd")]

theorem run_createNew_append :
    ((start ⟨"/export", "/meta", defaultIounit⟩ noteHost).1.map fun s₀ =>
      let s := s₀.run [attachFrame]
      let s₁ := (s.answer (createNew 0o2001)).2.2
      let s₂ := (s₁.answer (.lopen 0 0o2001)).2.2
      (s.fids[(0 : FidId)]?, (s.inspect ["n"]).isOk, (s.answer (createNew 0o2001)).1,
        (s₁.inspect ["n"]).map Prod.fst, s₁.fids[(0 : FidId)]?, s₁.host.body? 3,
        (s₁.answers [.write 0 0 (Bytes.ofText "ab")]).2.host.body? 3,
        (s₁.answers (twoWrites 0)).2.bytesAt 3, (s₂.answers (twoWrites 0)).2.bytesAt 3)) = .ok
      (some ⟨[], 0, .unopened⟩, false, .ok (.lcreate ⟨0, 0, 3⟩ 8192), .ok 3,
        some ⟨["n"], 0, .file (.ofCreated 3)⟩, some (.file .empty),
        some (.file (.ofBytes (Bytes.ofText "ab"))),
        some (Bytes.ofText "cd"), some (Bytes.ofText "abcd")) := by
  cbv

theorem run_createNew_reading :
    ((start ⟨"/export", "/meta", defaultIounit⟩ noteHost).1.map fun s₀ =>
      let s := s₀.run [attachFrame]
      let s₁ := (s.answer (createNew 0)).2.2
      let s₂ := (s₁.answer (.lopen 0 0)).2.2
      ((s.answer (createNew 0)).1, (s₁.answer (.write 0 0 (Bytes.ofText "ab"))).1,
        (s₂.answer (.write 0 0 (Bytes.ofText "ab"))).1)) = .ok
      (.ok (.lcreate ⟨0, 0, 3⟩ 8192), .ok (.write 2), .error (.host .badDescriptor)) := by
  cbv

/-- Who writes at the end of a new file, where its end is, may open it again or not. -/
theorem lcreate_reopens_append :
    ∃ s₀ s reply, (start ⟨"/export", "/meta", defaultIounit⟩ noteHost).1 = .ok s₀ ∧
      s = s₀.run [attachFrame] ∧ (s.answer (createNew 0o2001)).1 = .ok reply ∧
      s.fids[(0 : FidId)]? = some ⟨[], 0, .unopened⟩ ∧ (∀ x, s.inspect ["n"] ≠ .ok x) ∧
      (∃ n, (s.answer (createNew 0o2001)).2.2.inspect ["n"] = .ok (3, n)) ∧
      (s.answer (createNew 0o2001)).2.2.Reopens 0 3 0o2001 ∧
      KeepsTo (.ofFlags 0o2001) 0 3 (s.answer (createNew 0o2001)).2.2 (twoWrites 2) ∧
      ∀ r ∈ twoWrites 2, r.Transfers 0 := by
  obtain ⟨s₀, hs⟩ : ∃ s₀, (start ⟨"/export", "/meta", defaultIounit⟩ noteHost).1 = .ok s₀ :=
    ⟨_, rfl⟩
  have hrun := run_createNew_append
  rw [hs] at hrun
  simp only [Except.map, Except.ok.injEq, Prod.mk.injEq] at hrun
  obtain ⟨hid, hno, ha, hino, hfid, hempty, hfirst, -⟩ := hrun
  have hfresh : ∀ x, (s₀.run [attachFrame]).inspect ["n"] ≠ .ok x := fun x hx => by
    rw [hx] at hno
    cases hno
  obtain ⟨⟨i, n⟩, hn, rfl⟩ := Outcome.map_eq_ok_iff.mp hino
  obtain ⟨i', hfid', hall⟩ := lcreate_reopens ha hid hfresh
  obtain rfl : (3 : Ino) = i' := by
    cases hfid.symm.trans hfid'
    rfl
  have hkeeps : KeepsTo (.ofFlags 0o2001) 0 3
      ((s₀.run [attachFrame]).answer (createNew 0o2001)).2.2 (twoWrites 2) := by
    refine ⟨fun c hc => ?_, fun c hc => ?_, trivial⟩
    · cases hempty.symm.trans hc
      exact ⟨rfl, .inr ⟨by decide, fun _ => rfl⟩⟩
    · cases hfirst.symm.trans hc
      exact ⟨rfl, .inr ⟨by decide, fun _ => rfl⟩⟩
  refine ⟨s₀, _, _, hs, rfl, ha, hid, hfresh, ⟨n, hn⟩, (hall n hn).1 _, hkeeps, ?_⟩
  intro r hr
  simp only [twoWrites, List.mem_cons, List.not_mem_nil, or_false] at hr
  rcases hr with rfl | rfl <;> rfl

/-- **A client that does not keep to its access notices.** What was to be written at the end is
written over what is there, and what was to be read only can be written. -/
theorem exists_not_reopens :
    ∃ s₀ s, (start ⟨"/export", "/meta", defaultIounit⟩ noteHost).1 = .ok s₀ ∧
      s₀.Reachable s ∧ s.fids[(0 : FidId)]? = some ⟨[], 0, .unopened⟩ ∧
      (∀ x, s.inspect ["n"] ≠ .ok x) ∧
      (let s₁ := (s.answer (createNew 0o2001)).2.2
        let s₂ := (s₁.answer (.lopen 0 0o2001)).2.2
        (s₁.answers (twoWrites 0)).2.bytesAt 3 = some (Bytes.ofText "cd") ∧
        (s₂.answers (twoWrites 0)).2.bytesAt 3 = some (Bytes.ofText "abcd")) ∧
      (let s₁ := (s.answer (createNew 0)).2.2
        let s₂ := (s₁.answer (.lopen 0 0)).2.2
        (s₁.answer (.write 0 0 (Bytes.ofText "ab"))).1 = .ok (.write 2) ∧
        (s₂.answer (.write 0 0 (Bytes.ofText "ab"))).1 = .error (.host .badDescriptor)) := by
  obtain ⟨s₀, hs⟩ : ∃ s₀, (start ⟨"/export", "/meta", defaultIounit⟩ noteHost).1 = .ok s₀ :=
    ⟨_, rfl⟩
  have happend := run_createNew_append
  have hreading := run_createNew_reading
  rw [hs] at happend hreading
  simp only [Except.map, Except.ok.injEq, Prod.mk.injEq] at happend hreading
  obtain ⟨hid, hno, -, -, -, -, -, hover, hend⟩ := happend
  refine ⟨s₀, _, hs, Reachable.refl.run, hid, fun x hx => ?_, ⟨hover, hend⟩, hreading.2⟩
  rw [hx] at hno
  cases hno

end Share

end GuestShare
