import GuestShare.Proofs.Share.Answer
import GuestShare.Proofs.Share.Whereabouts

/-!
# Listing a directory while it changes

A fid that is opened on a directory keeps the names that the directory has at that moment. A client
lists them by calls, each of which goes on behind the last entry of the one before, until one lists
nothing. What requests do in between never makes a name come twice or get lost.

* `Share.OpensDirectory`: a request that opens a fid on a directory.
* `ListCall`, `Share.Lists`: the calls of a listing, with any requests in between.
* `Listed`: what the calls have listed, in terms of the names that the fid keeps.
* **`Lists.listed`**: what all listings have in common.
* **`reachable_lists`**: a listing is complete and does not repeat itself.
-/

namespace GuestShare

/-- The most bytes that an entry takes up in a reply. -/
def DirEntry.maxSize : Nat := Qid.size + 8 + 1 + 2 + Name.maxLength

namespace Share

variable {s t : Share} {p : GuestPath} {names : List String} {budget position : Nat} {id : FidId}
  {fid : Fid} {r : Request} {i : Ino} {name : String}

/-! ## One call -/

/-- There is a node at the path of an entry. -/
def Shows (s : Share) (p : GuestPath) (name : String) : Prop :=
  ∃ i n, s.inspect (p ++ [name]) = .ok (i, n)

theorem size_le_maxSize {n : Node} {e : DirEntry} (hn : s.node (p ++ [e.name]) = .ok n) :
    e.size ≤ DirEntry.maxSize := by
  obtain ⟨-, dir, -, hl, -⟩ := inspect_concat_eq_ok_iff.mp (node_eq_ok_iff.mp hn).1
  exact Nat.add_le_add_left (Host.lookup_eq_ok_iff.mp hl).2.1 _

/-- The entries of a call come from the first `n` of the names, from each that is still there, and
the last one tells where the others begin. -/
structure Front (s : Share) (p : GuestPath) (position : Nat) (names : List String)
    (es : List DirEntry) (n : Nat) : Prop where
  le : n ≤ names.length
  sublist : (es.map DirEntry.name).Sublist (names.take n)
  complete : ∀ name ∈ names.take n, s.Shows p name → name ∈ es.map DirEntry.name
  offset : ∀ e ∈ es, ∃ k, names[k]? = some e.name ∧ e.offset = UInt64.ofNat (position + k + 1)
  last : ∀ e, es.getLast? = some e → 0 < n ∧ e.offset = UInt64.ofNat (position + n)

namespace Front

variable {es : List DirEntry} {e : DirEntry} {m : Node} {n : Nat}

theorem nil (s : Share) (p : GuestPath) (position : Nat) (names : List String) :
    s.Front p position names [] 0 where
  le := Nat.zero_le _
  sublist := .slnil
  complete name hname := by simp at hname
  offset e he := absurd he List.not_mem_nil
  last e he := by cases he

theorem skip (hf : s.Front p (position + 1) names es n) (hgone : ¬ s.Shows p name) :
    s.Front p position (name :: names) es (n + 1) where
  le := Nat.succ_le_succ hf.le
  sublist := hf.sublist.cons _
  complete := by
    intro m hm hshows
    obtain rfl | hm := List.mem_cons.mp hm
    · exact absurd hshows hgone
    · exact hf.complete m hm hshows
  offset := by
    intro e he
    obtain ⟨k, hk, ho⟩ := hf.offset e he
    exact ⟨k + 1, hk, by rw [ho, Nat.add_right_comm position 1 k, Nat.add_assoc position k 1]⟩
  last := by
    intro e he
    obtain ⟨-, ho⟩ := hf.last e he
    exact ⟨Nat.succ_pos n, by rw [ho, Nat.add_assoc, Nat.add_comm 1 n]⟩

theorem cons (hf : s.Front p (position + 1) names es n) (hlast : es = [] → n = 0)
    (hname : e.name = name) (ho : e.offset = UInt64.ofNat (position + 1)) :
    s.Front p position (name :: names) (e :: es) (n + 1) where
  le := Nat.succ_le_succ hf.le
  sublist := by
    rw [List.map_cons, hname]
    exact hf.sublist.cons_cons _
  complete := by
    intro m hm hshows
    rw [List.map_cons, hname]
    obtain rfl | hm := List.mem_cons.mp hm
    · exact List.mem_cons_self
    · exact List.mem_cons_of_mem _ (hf.complete m hm hshows)
  offset := by
    intro e' he'
    obtain rfl | he' := List.mem_cons.mp he'
    · exact ⟨0, congrArg some hname.symm, ho⟩
    · obtain ⟨k, hk, ho'⟩ := hf.offset e' he'
      exact ⟨k + 1, hk, by rw [ho', Nat.add_right_comm position 1 k, Nat.add_assoc position k 1]⟩
  last := by
    intro e' he'
    refine ⟨Nat.succ_pos n, ?_⟩
    obtain rfl | ⟨x, xs, rfl⟩ : es = [] ∨ ∃ x xs, es = x :: xs := by
      cases es with
      | nil => exact .inl rfl
      | cons x xs => exact .inr ⟨x, xs, rfl⟩
    · obtain rfl : e = e' := Option.some.inj he'
      rw [ho, hlast rfl]
    · obtain ⟨-, ho'⟩ := hf.last e' he'
      rw [ho', Nat.add_assoc, Nat.add_comm 1 n]

end Front

/-- **The entries of a call come from the front of the names.** With room for any entry, no entries
means that none of the names is left. -/
theorem exists_front (s : Share) (p : GuestPath) (names : List String) (budget position : Nat) :
    ∃ n, s.Front p position names (s.entriesFrom p budget position names) n ∧
      (s.entriesFrom p budget position names = [] → DirEntry.maxSize ≤ budget →
        n = names.length) := by
  induction names generalizing budget position with
  | nil => exact ⟨0, .nil s p position [], fun _ _ => rfl⟩
  | cons name names ih =>
    cases hn : s.node (p ++ [name]) with
    | error e =>
      obtain ⟨n, hf, hall⟩ := ih budget (position + 1)
      have hes : s.entriesFrom p budget position (name :: names) =
          s.entriesFrom p budget (position + 1) names := by
        rw [entriesFrom, hn]
      have hgone : ¬ s.Shows p name := by
        rintro ⟨i, m, hi⟩
        rw [node_of_inspect hi] at hn
        cases hn
      rw [hes]
      exact ⟨n + 1, hf.skip hgone, fun h hb => congrArg (· + 1) (hall h hb)⟩
    | ok m =>
      let e : DirEntry := ⟨m.qid, UInt64.ofNat (position + 1), m.entryType, name⟩
      by_cases hfits : budget < e.size
      · -- the entry does not fit
        have hes : s.entriesFrom p budget position (name :: names) = [] := by
          rw [entriesFrom, hn]
          exact if_pos hfits
        rw [hes]
        exact ⟨0, .nil _ _ _ _, fun _ hb => absurd (size_le_maxSize (e := e) hn)
          (Nat.not_le.mpr (Nat.lt_of_le_of_lt hb hfits))⟩
      · have hes : s.entriesFrom p budget position (name :: names) =
            e :: s.entriesFrom p (budget - e.size) (position + 1) names := by
          rw [entriesFrom, hn]
          exact if_neg hfits
        rw [hes]
        obtain ⟨n, hf, -⟩ := ih (budget - e.size) (position + 1)
        by_cases hnil : s.entriesFrom p (budget - e.size) (position + 1) names = []
        · rw [hnil]
          exact ⟨1, (Front.nil s p (position + 1) names).cons (fun _ => rfl) rfl rfl,
            fun h => absurd h (List.cons_ne_nil _ _)⟩
        · exact ⟨n + 1, hf.cons (fun h => absurd h hnil) rfl rfl,
            fun h => absurd h (List.cons_ne_nil _ _)⟩

/-! ## Many calls -/

end Share

/-- A call of a listing: the share that is asked, for how many bytes, and the entries that it
lists. -/
structure ListCall where
  share : Share
  count : UInt32
  entries : List DirEntry

namespace ListCall

/-- The names that a call lists. -/
def names (c : ListCall) : List String := c.entries.map DirEntry.name

/-- At the call, there is a node of a name in the directory to which the fid leads. -/
def Shows (c : ListCall) (id : FidId) (name : String) : Prop :=
  ∃ fid, c.share.fids[id]? = some fid ∧ c.share.Shows fid.path name

end ListCall

namespace Share

/-- The calls of a listing by a fid from a share on, where the next one goes on, if the last one has
listed something, and the share at last. In between any requests may come that leave the fid
alone. -/
inductive Lists (id : FidId) (s : Share) : List ListCall → Option UInt64 → Share → Prop
  | start : Lists id s [] (some 0) s
  | request {calls : List ListCall} {next : Option UInt64} {t : Share} (frame : Bytes) :
      Lists id s calls next t → (∀ m, Frame.toRequest frame = .ok m → t.Spares id m.body) →
        Lists id s calls next (t.respond frame).2.2
  | call {calls : List ListCall} {offset : UInt64} {t : Share} {count : UInt32}
      {es : List DirEntry} : Lists id s calls (some offset) t →
      DirEntry.maxSize ≤ t.budget count →
      (t.answer (.readdir id offset count)).1 = .ok (.readdir es) →
        Lists id s (calls ++ [⟨t, count, es⟩]) (es.getLast?.map DirEntry.offset)
          (t.answer (.readdir id offset count)).2.2

end Share

/-- What calls have listed that have come as far as the `n`-th of some names. -/
structure ListedTo (id : FidId) (S : List String) (calls : List ListCall) (n : Nat) : Prop where
  le : n ≤ S.length
  names : (calls.flatMap ListCall.names).Sublist (S.take n)
  complete : ∀ name ∈ S.take n, (∀ c ∈ calls, c.Shows id name) → name ∈ calls.flatMap ListCall.names
  offsets : ∀ c ∈ calls, ∀ e ∈ c.entries, ∃ k, S[k]? = some e.name ∧ e.offset = UInt64.ofNat (k + 1)
  sizes : ∀ c ∈ calls, totalSize DirEntry.size c.entries ≤ c.share.budget c.count

/-- Where a listing goes on: behind the `n`-th name after calls that all have listed something, or
nowhere after one that has listed nothing. -/
inductive GoesOn (S : List String) : List ListCall → Nat → Option UInt64 → Prop
  | behind {calls : List ListCall} {n : Nat} (nonempty : ∀ c ∈ calls, c.entries ≠ [])
      (length : calls.length ≤ n) : GoesOn S calls n (some (UInt64.ofNat n))
  | nowhere {calls : List ListCall} {c : ListCall} (nonempty : ∀ c ∈ calls, c.entries ≠ [])
      (length : calls.length ≤ S.length) (last : c.entries = []) :
      GoesOn S (calls ++ [c]) S.length none

theorem Share.Front.goesOn {S : List String} {calls : List ListCall} {n m : Nat} {s : Share}
    {p : GuestPath} {count : UInt32} {es : List DirEntry} (hf : s.Front p n (S.drop n) es m)
    (hn : n ≤ S.length) (hcalls : ∀ c ∈ calls, c.entries ≠ []) (hlen : calls.length ≤ n)
    (hall : es = [] → m = (S.drop n).length) :
    GoesOn S (calls ++ [⟨s, count, es⟩]) (n + m) (es.getLast?.map DirEntry.offset) := by
  cases hlast : es.getLast? with
  | none =>
    have hnil : es = [] := List.getLast?_eq_none_iff.mp hlast
    have hm : n + m = S.length := by
      rw [hall hnil, List.length_drop]
      omega
    rw [hm]
    exact .nowhere hcalls (Nat.le_trans hlen hn) hnil
  | some e =>
    obtain ⟨hpos, ho⟩ := hf.last e hlast
    rw [Option.map_some, ho]
    have hlength : (calls ++ [(⟨s, count, es⟩ : ListCall)]).length ≤ n + m := by
      simp only [List.length_append, List.length_singleton]
      omega
    refine .behind (fun c hc => ?_) hlength
    obtain hc | hc := List.mem_append.mp hc
    · exact hcalls c hc
    · obtain rfl := List.mem_singleton.mp hc
      intro hnil
      rw [show es = [] from hnil] at hlast
      cases hlast

namespace ListedTo

variable {id : FidId} {S : List String} {calls : List ListCall} {n m : Nat} {s : Share}
  {fid : Fid} {count : UInt32} {es : List DirEntry}

theorem zero (id : FidId) (S : List String) : ListedTo id S [] 0 where
  le := Nat.zero_le _
  names := .slnil
  complete name hname := by simp at hname
  offsets c hc := absurd hc List.not_mem_nil
  sizes c hc := absurd hc List.not_mem_nil

theorem call (hl : ListedTo id S calls n) (hid : s.fids[id]? = some fid)
    (hf : s.Front fid.path n (S.drop n) es m)
    (hsize : totalSize DirEntry.size es ≤ s.budget count) :
    ListedTo id S (calls ++ [⟨s, count, es⟩]) (n + m) where
  le := by
    have := hf.le
    have := hl.le
    rw [List.length_drop] at *
    omega
  names := by
    rw [List.flatMap_append, List.flatMap_singleton, List.take_add]
    exact hl.names.append hf.sublist
  complete name hname hshows := by
    rw [List.flatMap_append, List.flatMap_singleton]
    rw [List.take_add] at hname
    obtain hname | hname := List.mem_append.mp hname
    · exact List.mem_append_left _ (hl.complete name hname fun c hc =>
        hshows c (List.mem_append_left _ hc))
    · obtain ⟨fid', hid', hshow⟩ := hshows ⟨s, count, es⟩ (by simp)
      obtain rfl : fid = fid' := Option.some.inj (hid.symm.trans hid')
      exact List.mem_append_right _ (hf.complete name hname hshow)
  offsets c hc e he := by
    obtain hc | hc := List.mem_append.mp hc
    · exact hl.offsets c hc e he
    · obtain rfl := List.mem_singleton.mp hc
      obtain ⟨k, hk, ho⟩ := hf.offset e he
      exact ⟨n + k, by rw [← List.getElem?_drop]; exact hk, ho⟩
  sizes c hc := by
    obtain hc | hc := List.mem_append.mp hc
    · exact hl.sizes c hc
    · obtain rfl := List.mem_singleton.mp hc
      exact hsize

end ListedTo

namespace Share

variable {s t : Share} {id : FidId} {fid : Fid} {calls : List ListCall} {next : Option UInt64}
  {S : List String}

theorem perform_readdir (offset : UInt64) (count : UInt32) (hid : s.fids[id]? = some fid)
    (hS : fid.handle = .dir S) :
    s.perform (.readdir id offset count) =
      (.ok (.readdir (s.entriesFrom fid.path (s.budget count) offset.toNat
        (S.drop offset.toNat))), s) := by
  refine settle_eq_ok_iff.mpr ?_
  unfold readdir
  rw [fids_find_eq_ok_iff.mpr hid]
  simp only [Outcome.ok_bind, hS]
  rfl

/-- **What all listings have in common**: the fid keeps its names, the calls have listed what they
show up to some name, and go on there. -/
theorem Lists.listedTo (hl : Lists id s calls next t) (hid : s.fids[id]? = some fid)
    (hS : fid.handle = .dir S) (hlen : S.length < UInt64.size) :
    ∃ f n, t.fids[id]? = some f ∧ f.handle = .dir S ∧ ListedTo id S calls n ∧
      GoesOn S calls n next := by
  induction hl with
  | start =>
    exact ⟨fid, 0, hid, hS, .zero id S,
      .behind (fun c hc => absurd hc List.not_mem_nil) (Nat.le_refl _)⟩
  | @request calls next t frame _ hspares ih =>
    obtain ⟨f, n, hf, hfS, hlisted, hnext⟩ := ih
    obtain ⟨-, -, hs, -⟩ | ⟨m, hm, hs, -⟩ := t.respond_cases frame
    · rw [hs]
      exact ⟨f, n, hf, hfS, hlisted, hnext⟩
    · rw [hs]
      refine ⟨{ f with path := t.carried m.body f.path }, n, ?_, hfS, hlisted, hnext⟩
      show (t.perform m.body).2.fids[id]? = _
      rw [(hspares m hm).perform_fid, hf]
      rfl
  | @call calls offset t count es _ hroom ho ih =>
    obtain ⟨f, n, hf, hfS, hlisted, hnext⟩ := ih
    obtain ⟨hnonempty, hcalls⟩ : (∀ c ∈ calls, c.entries ≠ []) ∧ calls.length ≤ n ∧
        offset.toNat = n := by
      cases hnext with
      | behind hnonempty hcalls =>
        exact ⟨hnonempty, hcalls, UInt64.toNat_ofNat_of_lt' (Nat.lt_of_le_of_lt hlisted.le hlen)⟩
    obtain ⟨hcalls, hoffset⟩ := hcalls
    have hperform := perform_readdir offset count hf hfS
    rw [hoffset] at hperform
    obtain rfl : t.entriesFrom f.path (t.budget count) n (S.drop n) = es := by
      have h := (answer_eq_ok_iff.mp ho).1
      rw [hperform] at h
      exact Reply.readdir.inj (Except.ok.inj h)
    obtain ⟨m, hfront, hall⟩ := exists_front t f.path (S.drop n) (t.budget count) n
    refine ⟨f, n + m, ?_, hfS, hlisted.call hf hfront totalSize_entriesFrom_le,
      hfront.goesOn hlisted.le hnonempty hcalls fun hnil => hall hnil hroom⟩
    rw [answer_snd, hperform]
    exact hf

/-! ## Opening -/

/-- A request opens a fid on a directory. -/
def OpensDirectory (s : Share) (id : FidId) (r : Request) : Prop :=
  ∃ q unit, q.kind = Qid.directory ∧
    ((∃ flags, r = .lopen id flags ∧ (s.perform r).1 = .ok (.lopen q unit)) ∨
      ∃ mode, r = .open id mode ∧ (s.perform r).1 = .ok (.open q unit))

/-- The names of a directory that are texts, sorted by bytes. -/
structure NamesOf (h : Host) (d : Ino) (S : List String) : Prop where
  isDirectory : h.isDirectory d = true
  sorted : S.Pairwise fun a b => compare (Bytes.ofText a) (Bytes.ofText b) = .lt
  mem_iff : ∀ name, name ∈ S ↔ ∃ i, h.child? d (Name.ofText name) = some i

theorem listing_eq_ok {p : GuestPath} (hl : s.listing p = .ok S) :
    ∃ dir, s.host.find .follow (s.hostPath p) = .ok dir ∧ NamesOf s.host dir.ino S := by
  obtain ⟨names, hnames, hS⟩ := Outcome.bind_eq_ok_iff.mp hl
  obtain rfl : names.filterMap Bytes.toText? = S := Except.ok.inj hS
  obtain ⟨dir, hf, hdir⟩ := Outcome.bind_eq_ok_iff.mp (Outcome.mapError_eq_ok_iff.mp hnames)
  obtain ⟨es, hes, hkeys⟩ := Outcome.bind_eq_ok_iff.mp hdir
  obtain rfl : es.keys = names := Except.ok.inj hkeys
  have hes := Host.entriesAt_eq_ok_iff.mp hes
  refine ⟨dir, hf, by simp [Host.isDirectory, hes], ?_, fun name => ?_⟩
  · refine Std.ExtTreeMap.ordered_keys.filterMap _ fun a a' hlt b hb b' hb' => ?_
    rw [← Bytes.toText?_eq_some_iff.mp hb, ← Bytes.toText?_eq_some_iff.mp hb']
    exact hlt
  · have htext : name ∈ es.keys.filterMap Bytes.toText? ↔ Name.ofText name ∈ es.keys := by
      simp only [List.mem_filterMap, Bytes.toText?_eq_some_iff]
      constructor
      · rintro ⟨_, ha, rfl⟩
        exact ha
      · exact fun h => ⟨_, h, rfl⟩
    rw [htext, Std.ExtTreeMap.mem_keys, Std.ExtTreeMap.mem_iff_isSome_getElem?,
      Option.isSome_iff_exists]
    simp only [Host.child?, hes, Option.bind_some]

theorem openFor_directory {acc : Access} {make : Qid → UInt32 → Reply} {reply : Reply} {n : Node}
    (ho : s.openFor id acc make = (.ok reply, t)) (hid : s.fids[id]? = some fid)
    (hn : s.node fid.path = .ok n) (hk : n.kind = .directory) :
    ∃ S, s.listing fid.path = .ok S ∧ t = s.bindFid id { fid with handle := .dir S } := by
  obtain ⟨⟨f, m⟩, u, hopen, hrest⟩ := settleThen_eq_ok_iff.mp ho
  unfold openNode at hopen
  rw [fids_find_eq_ok_iff.mpr hid] at hopen
  simp only [Outcome.ok_bind, hn, hk] at hopen
  obtain ⟨S, hS, hopen⟩ := Outcome.bind_eq_ok_iff.mp hopen
  cases hopen
  cases hrest
  exact ⟨S, hS, rfl⟩

/-- **A fid that is opened on a directory keeps its names.** -/
theorem OpensDirectory.exists_names (ho : s.OpensDirectory id r) :
    ∃ fid dir S, s.fids[id]? = some fid ∧ s.host.find .follow (s.hostPath fid.path) = .ok dir ∧
      NamesOf s.host dir.ino S ∧
      (s.perform r).2 = s.bindFid id { fid with handle := .dir S } := by
  obtain ⟨q, unit, hq, ho⟩ := ho
  suffices h : ∀ acc (make : Qid → UInt32 → Reply), (∀ q' u, make q' u = make q unit → q' = q) →
      (s.openFor id acc make).1 = .ok (make q unit) →
        ∃ fid dir S, s.fids[id]? = some fid ∧
          s.host.find .follow (s.hostPath fid.path) = .ok dir ∧ NamesOf s.host dir.ino S ∧
          (s.openFor id acc make).2 = s.bindFid id { fid with handle := .dir S } by
    obtain ⟨flags, rfl, ho⟩ | ⟨mode, rfl, ho⟩ := ho
    · exact h (.ofFlags flags) .lopen (fun _ _ he => (Reply.lopen.inj he).1) ho
    · exact h (.ofMode mode) .open (fun _ _ he => (Reply.open.inj he).1) ho
  intro acc make hmake ho
  have ho : s.openFor id acc make = (.ok (make q unit), (s.openFor id acc make).2) :=
    Prod.ext ho rfl
  obtain ⟨fid, n, hid, hn, hreply, -⟩ := openFor_eq_ok ho
  have hk : n.kind = .directory := by
    rw [← qidKind_eq_directory_iff, ← hq, ← hmake _ _ hreply.symm]
    rfl
  obtain ⟨S, hS, hafter⟩ := openFor_directory ho hid hn hk
  obtain ⟨dir, hf, hnames⟩ := listing_eq_ok hS
  exact ⟨fid, dir, S, hid, hf, hnames, hafter⟩

/-! ## Listings -/

end Share

/-- What a listing of the names `S` has listed by its calls, and whether it goes on. -/
structure Listed (id : FidId) (S : List String) (calls : List ListCall) (next : Option UInt64) :
    Prop where
  names : (calls.flatMap ListCall.names).Sublist S
  complete : next = none → ∀ name ∈ S, (∀ c ∈ calls, c.Shows id name) →
    name ∈ calls.flatMap ListCall.names
  offsets : ∀ c ∈ calls, ∀ e ∈ c.entries, ∃ k, S[k]? = some e.name ∧ e.offset.toNat = k + 1
  nonempty : ∀ c ∈ calls.dropLast, c.entries ≠ []
  length : (calls.filter fun c => !c.entries.isEmpty).length ≤ S.length
  sizes : ∀ c ∈ calls, totalSize DirEntry.size c.entries ≤ c.share.budget c.count

theorem GoesOn.nonempty_dropLast {S : List String} {calls : List ListCall} {n : Nat}
    {next : Option UInt64} (hg : GoesOn S calls n next) : ∀ c ∈ calls.dropLast, c.entries ≠ [] := by
  cases hg with
  | behind nonempty length => exact fun c hc => nonempty c ((List.dropLast_sublist _).mem hc)
  | nowhere nonempty length last =>
    rw [List.dropLast_concat]
    exact nonempty

theorem GoesOn.length_le {S : List String} {calls : List ListCall} {n : Nat}
    {next : Option UInt64} (hg : GoesOn S calls n next) (hn : n ≤ S.length) :
    (calls.filter fun c => !c.entries.isEmpty).length ≤ S.length := by
  cases hg with
  | behind nonempty length =>
    exact Nat.le_trans (List.length_filter_le _ _) (Nat.le_trans length hn)
  | nowhere nonempty length last =>
    rw [List.filter_append, List.length_append]
    simp only [List.filter_singleton, last]
    exact Nat.le_trans (List.length_filter_le _ _) length

theorem GoesOn.eq_length {S : List String} {calls : List ListCall} {n : Nat}
    (hg : GoesOn S calls n none) : n = S.length := by
  cases hg
  rfl

theorem ListedTo.listed {id : FidId} {S : List String} {calls : List ListCall} {n : Nat}
    {next : Option UInt64} (hl : ListedTo id S calls n) (hg : GoesOn S calls n next)
    (hlen : S.length < UInt64.size) : Listed id S calls next where
  names := hl.names.trans (List.take_sublist n S)
  complete hnext name hname := by
    subst hnext
    obtain rfl := hg.eq_length
    exact hl.complete name (List.take_length.symm ▸ hname)
  offsets c hc e he := by
    obtain ⟨k, hk, ho⟩ := hl.offsets c hc e he
    have hlt : k + 1 < UInt64.size :=
      Nat.lt_of_le_of_lt (List.getElem?_eq_some_iff.mp hk).1 hlen
    exact ⟨k, hk, by rw [ho, UInt64.toNat_ofNat_of_lt' hlt]⟩
  nonempty := hg.nonempty_dropLast
  length := hg.length_le hl.le
  sizes := hl.sizes

namespace Share

variable {s s₀ t : Share} {id : FidId} {r : Request} {calls : List ListCall}
  {next : Option UInt64} {name : String} {i : Ino} {o : ShareOptions} {h : Host}

theorem Lists.leadsTo (hl : Lists id s calls next t) (hp : s.Plain) (hi : s.LeadsTo id i) :
    t.Plain ∧ t.LeadsTo id i ∧
      ∀ c ∈ calls, c.share.Plain ∧ c.share.LeadsTo id i ∧ (c.share.fids[id]?).isSome = true := by
  induction hl with
  | start => exact ⟨hp, hi, fun c hc => absurd hc List.not_mem_nil⟩
  | @request calls next t frame _ hspares ih =>
    obtain ⟨htp, hti, hcalls⟩ := ih
    refine ⟨htp.respond, ?_, hcalls⟩
    obtain ⟨-, -, hs, -⟩ | ⟨m, hm, hs, -⟩ := t.respond_cases frame
    · rw [hs]
      exact hti
    · rw [hs]
      exact (htp.perform_leadsTo (hspares m hm) hti).flushRecords (htp.perform m.body).sound
  | @call calls offset t count es _ hroom ho ih =>
    obtain ⟨htp, hti, hcalls⟩ := ih
    rw [answer_snd]
    have hspares : t.Spares id (.readdir id offset count) := fun hb => absurd hb not_false
    refine ⟨(htp.perform _).flushRecords,
      (htp.perform_leadsTo hspares hti).flushRecords (htp.perform _).sound, fun c hc => ?_⟩
    obtain hc | hc := List.mem_append.mp hc
    · exact hcalls c hc
    · obtain rfl := List.mem_singleton.mp hc
      refine ⟨htp, hti, ?_⟩
      have hperform : t.perform (.readdir id offset count) =
          (.ok (.readdir es), (t.perform (.readdir id offset count)).2) :=
        Prod.ext (answer_eq_ok_iff.mp ho).1 rfl
      obtain ⟨f, names, hf, -⟩ := readdir_eq_ok (settle_eq_ok_iff.mp hperform)
      rw [hf]
      rfl

theorem LeadsTo.shows {c : ListCall} (hp : c.share.Plain) (hi : c.share.LeadsTo id i)
    (hid : (c.share.fids[id]?).isSome = true) (hin : c.share.Inside i)
    (he : ∃ j, c.share.host.child? i (Name.ofText name) = some j) : c.Shows id name := by
  obtain ⟨f, hf⟩ := Option.isSome_iff_exists.mp hid
  obtain ⟨j, hj⟩ := he
  have hhas : c.share.Has (f.path ++ [name]) j := has_concat_iff.mpr ⟨i, hi.2 f hf hin, hj⟩
  obtain ⟨n, hn⟩ := hhas.exists_inspect hp.linkFree hp.sound
  exact ⟨f, hf, j, n, hn⟩

/-- **A fresh listing is complete and does not repeat itself**, whatever happens meanwhile. It goes
on as long as records can be written. In an export without links, the names that it does not miss
are those of the directory that was opened, as long as this is in the export. -/
theorem reachable_lists (hh : h.WellFormed) (hs : (start o h).1 = .ok s₀) (hr : s₀.Reachable s)
    (ho : s.OpensDirectory id r) (hl : Lists id (s.answer r).2.2 calls next t) :
    ∃ fid dir S, s.fids[id]? = some fid ∧ s.host.find .follow (s.hostPath fid.path) = .ok dir ∧
      NamesOf s.host dir.ino S ∧
      (s.answer r).2.2.fids[id]? = some { fid with handle := .dir S } ∧
      (S.length < UInt64.size → Listed id S calls next ∧
        (s₀.LinkFree → next = none → ∀ name ∈ S, (∀ c ∈ calls, c.share.Inside dir.ino ∧
            ∃ i, c.share.host.child? dir.ino (Name.ofText name) = some i) →
          name ∈ calls.flatMap ListCall.names) ∧
        ∀ offset count, next = some offset → t.flushRecords.1 = .ok () →
          ∃ es, (t.answer (.readdir id offset count)).1 = .ok (.readdir es)) := by
  obtain ⟨fid, dir, S, hid, hf, hnames, hperform⟩ := ho.exists_names
  have hopened : (s.answer r).2.2.fids[id]? = some { fid with handle := .dir S } := by
    rw [answer_snd, hperform]
    exact Std.ExtTreeMap.getElem?_insert_self
  refine ⟨fid, dir, S, hid, hf, hnames, hopened, fun hlen => ?_⟩
  obtain ⟨f, n, htf, hfS, hlisted, hgoes⟩ := hl.listedTo hopened rfl hlen
  have hall := hlisted.listed hgoes hlen
  refine ⟨hall, fun hfree hnext name hname hin => ?_, fun offset count _ hflush => ?_⟩
  · have hp : s.Plain := (start_plain hh hs hfree).of_reachable hr
    have hhas : s.Has fid.path dir.ino := hp.linkFree.has_of_find hp.sound hf
    have hleads : (s.perform r).2.LeadsTo id dir.ino := by
      rw [hperform]
      refine ⟨hnames.isDirectory, fun f hf _ => ?_⟩
      obtain rfl : _ = f := Option.some.inj (Std.ExtTreeMap.getElem?_insert_self.symm.trans hf)
      exact hhas
    have hafter := hl.leadsTo (answer_snd s r ▸ (hp.perform r).flushRecords)
      (answer_snd s r ▸ hleads.flushRecords (hp.perform r).sound)
    refine hall.complete hnext name hname fun c hc => ?_
    obtain ⟨hcp, hci, hcid⟩ := hafter.2.2 c hc
    obtain ⟨hinside, hchild⟩ := hin c hc
    exact hci.shows hcp hcid hinside hchild
  · have hp := perform_readdir offset count htf hfS
    refine ⟨_, answer_eq_ok_iff.mpr ⟨congrArg Prod.fst hp, ?_⟩⟩
    rw [hp]
    exact hflush

/-- A host with an empty directory in the export. -/
def smallHost : Host :=
  ((Chore.dir 0o755).perform (Path.ofText "/export/a") (.empty ⟨0, 0⟩)).2

/-- Two calls list the one name of an export, and that there is no more. -/
theorem reachable_lists_small :
    ∃ s₀ s t calls fid S, (start ⟨"/export", "/meta", defaultIounit⟩ smallHost).1 = .ok s₀ ∧
      s₀.LinkFree ∧ s₀.Reachable s ∧ s.OpensDirectory 0 (.lopen 0 0) ∧
      Lists 0 (s.answer (.lopen 0 0)).2.2 calls none t ∧ s.fids[(0 : FidId)]? = some fid ∧
      S.length < UInt64.size ∧ Listed 0 S calls none := by
  have hh : smallHost.WellFormed := ⟨by decide, Host.hasPlace_root⟩
  obtain ⟨s₀, hs, hlinks, ho, hkept, hroom, es, hfirst, hnext, hroom', hsecond⟩ : ∃ s₀ : Share,
      (start ⟨"/export", "/meta", defaultIounit⟩ smallHost).1 = .ok s₀ ∧
      (∀ i, smallHost.target? i = none) ∧
      let s := (s₀.respond attachFrame).2.2
      let t := (s.answer (.lopen 0 0)).2.2
      let t' := (t.answer (.readdir 0 0 8192)).2.2
      s.OpensDirectory 0 (.lopen 0 0) ∧ t.fids[(0 : FidId)]? = some ⟨[], 0, .dir ["a"]⟩ ∧
        DirEntry.maxSize ≤ t.budget 8192 ∧
        ∃ es, (t.answer (.readdir 0 0 8192)).1 = .ok (.readdir es) ∧
          es.getLast?.map DirEntry.offset = some 1 ∧ DirEntry.maxSize ≤ t'.budget 8192 ∧
          (t'.answer (.readdir 0 1 8192)).1 = .ok (.readdir []) :=
    ⟨_, rfl, fun i => by rcases i with _ | _ | _ | i <;> rfl, ⟨_, _, rfl, .inl ⟨0, rfl, rfl⟩⟩,
      rfl, Nat.le_of_ble_eq_true rfl, _, rfl, rfl, Nat.le_of_ble_eq_true rfl, rfl⟩
  have hl := hnext ▸ Lists.call .start hroom hfirst
  have hl := Lists.call hl hroom' hsecond
  have hr : s₀.Reachable (s₀.respond attachFrame).2.2 := .respond _ .refl
  obtain ⟨fid, dir, S, hid, hf, hnames, hopened, hall⟩ := reachable_lists hh hs hr ho hl
  obtain rfl : S = ["a"] := by
    rw [hkept] at hopened
    exact (FidHandle.dir.inj (congrArg Fid.handle (Option.some.inj hopened))).symm
  have hS : ["a"].length < UInt64.size := by decide
  exact ⟨s₀, _, _, _, fid, ["a"], hs, start_linkFree hs hlinks, hr, ho, hl, hid, hS, (hall hS).1⟩

end Share

end GuestShare
