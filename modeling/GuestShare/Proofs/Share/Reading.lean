import GuestShare.Proofs.Share.MessageSize
import GuestShare.Proofs.Share.Setting

/-!
# Reading a file piece by piece

A client reads a file, or the text of a link, by calls, each of which goes on where the one before
has ended. Neither how much it asks for at a time nor the size of messages changes what it gets.

* `Descriptor.Filling`: how the host fills a buffer, as much at a time as it likes.
* **`Filling.agrees`**: however that goes, the buffer holds what one read gives, and no offset on
  the way is too large for its type.
* `Share.Gives`, `Share.TooFar`: what there is to read through a fid, and what the host refuses.
* `Pieces`, `Share.readOn`: the pieces of a whole in order, and the calls of a client.
* **`run_readsExactly`**: every read gives the part it asks for, and all together give the whole.
-/

namespace GuestShare

/-! ## Filling a buffer -/

theorem part_eq_append {bs got : Bytes} {offset count : Nat}
    (hg : got <+: (bs.drop offset).take count) :
    (bs.drop offset).take count =
      got ++ (bs.drop (offset + got.length)).take (count - got.length) := by
  rw [← List.drop_drop, ← List.drop_take]
  exact (List.prefix_iff_eq_append.mp hg).symm

namespace Descriptor

variable {d : Descriptor} {h : Host} {offset count : Nat} {got : Bytes} {c : Contents}

/-- What a loop has in its buffer that has `count` bytes to read from `offset` on. It goes on as
long as there is room, and each time it may be given less than it asks for. -/
inductive Filling (d : Descriptor) (h : Host) (offset count : Nat) : Bytes → Prop
  | start : Filling d h offset count []
  | more {got piece rest : Bytes} : Filling d h offset count got → got.length < count →
      d.read (offset + got.length) (count - got.length) h = .ok (piece ++ rest) → piece ≠ [] →
      Filling d h offset count (got ++ piece)

theorem read_of_file (hd : d.readable = true) (hc : h.body? d.ino = some (.file c)) :
    d.read offset count h =
      if count ≠ 0 ∧ Host.limit ≤ offset + count then .error .invalid
      else .ok ((c.toList.drop offset).take count) := by
  unfold read
  by_cases hzero : count = 0
  · simp [hzero]
  · simp only [hzero, if_false, hd, hc, Contents.slice_eq, ne_eq, not_false_eq_true, true_and,
      Bool.not_true, Bool.false_eq_true]

/-- What is in the buffer begins what is to be read, of which nothing is refused once there is
something. -/
theorem Filling.front (hf : d.Filling h offset count got) (hd : d.readable = true)
    (hc : h.body? d.ino = some (.file c)) :
    got <+: (c.toList.drop offset).take count ∧ (got ≠ [] → offset + count < Host.limit) := by
  induction hf with
  | start => exact ⟨List.nil_prefix, fun hnil => absurd rfl hnil⟩
  | @more got piece rest _ hlt hread _ ih =>
    rw [read_of_file hd hc] at hread
    split_ifs at hread with hfar
    refine ⟨?_, fun _ => by omega⟩
    rw [part_eq_append ih.1, List.prefix_append_right_inj]
    exact ⟨rest, (Except.ok.inj hread).symm⟩

/-- How a loop that fills a buffer goes on with what it has. -/
structure FillsExactly (d : Descriptor) (h : Host) (offset count : Nat) (got : Bytes) : Prop where
  /-- The offset that it reads from next can be told. -/
  next_lt : got.length < count → offset + got.length < UInt64.size
  /-- When it is done it has what one read gives. -/
  done : got.length = count ∨ d.read (offset + got.length) (count - got.length) h = .ok [] →
    d.read offset count h = .ok got
  /-- When it is refused something, so is one read. -/
  refused : ∀ e, d.read (offset + got.length) (count - got.length) h = .error e →
    d.read offset count h = .error e

/-- **Filling a buffer is one read**, however little the host gives at a time. -/
theorem Filling.agrees (hf : d.Filling h offset count got) (hd : d.readable = true)
    (hc : h.body? d.ino = some (.file c)) (ho : offset < UInt64.size) :
    d.FillsExactly h offset count got := by
  obtain ⟨hfront, hnear⟩ := hf.front hd hc
  have hlen : got.length ≤ count :=
    Nat.le_trans hfront.length_le (List.length_take_le _ _)
  have hlimit : Host.limit ≤ UInt64.size := by decide
  refine ⟨fun hlt => ?_, fun hdone => ?_, fun e he => ?_⟩
  · by_cases hnil : got = []
    · rw [hnil]
      exact ho
    · have := hnear hnil
      omega
  · have hrest : (c.toList.drop (offset + got.length)).take (count - got.length) = [] := by
      rcases hdone with hfull | hend
      · rw [hfull, Nat.sub_self, List.take_zero]
      · rw [read_of_file hd hc] at hend
        split_ifs at hend
        exact Except.ok.inj hend
    have hpart := part_eq_append hfront
    rw [hrest, List.append_nil] at hpart
    rw [read_of_file hd hc, hpart, if_neg]
    rintro ⟨hcount, hfar⟩
    by_cases hnil : got = []
    · -- Nothing was read, so what is read next is what was asked for.
      subst hnil
      rcases hdone with hfull | hend
      · exact hcount hfull.symm
      · rw [List.length_nil, Nat.add_zero, Nat.sub_zero, read_of_file hd hc,
          if_pos ⟨hcount, hfar⟩] at hend
        cases hend
    · have := hnear hnil
      omega
  · rw [read_of_file hd hc] at he ⊢
    split_ifs at he with hfar
    rw [if_pos ⟨by omega, by omega⟩]
    exact he

end Descriptor

/-! ## Pieces of a whole -/

/-- Pieces of `bs` from its beginning on, each where the one before it ends. -/
structure Pieces (bs : Bytes) (pieces : List Bytes) : Prop where
  flatten_prefix : pieces.flatten <+: bs
  /-- A piece is empty just if those before it make up the whole. -/
  nil_iff : ∀ i, i < pieces.length → (pieces[i]? = some [] ↔ (pieces.take i).flatten = bs)
  /-- As many pieces as there are bytes make up the whole. -/
  whole : bs.length ≤ pieces.length → pieces.flatten = bs

namespace Pieces

variable {bs : Bytes} {pieces : List Bytes} {k : Nat}

theorem nil (bs : Bytes) : Pieces bs [] where
  flatten_prefix := List.nil_prefix
  nil_iff i hi := absurd hi (Nat.not_lt_zero i)
  whole hle := (List.eq_nil_of_length_eq_zero (Nat.le_zero.mp hle)).symm

theorem cons (hk : 0 < k) (hp : Pieces (bs.drop k) pieces) : Pieces bs (bs.take k :: pieces) where
  flatten_prefix := by
    obtain ⟨rest, hrest⟩ := hp.flatten_prefix
    refine ⟨rest, ?_⟩
    rw [List.flatten_cons, List.append_assoc, hrest, List.take_append_drop]
  nil_iff i hi := by
    cases i with
    | zero =>
      simp only [List.getElem?_cons_zero, Option.some.injEq, List.take_eq_nil_iff, List.take_zero,
        List.flatten_nil, Nat.ne_of_gt hk, false_or]
      exact eq_comm
    | succ i =>
      rw [List.getElem?_cons_succ, hp.nil_iff i (Nat.lt_of_succ_lt_succ hi), List.take_succ_cons,
        List.flatten_cons]
      conv_rhs => rhs; rw [← List.take_append_drop k bs]
      exact (List.append_right_inj _).symm
  whole hle := by
    rw [List.flatten_cons, hp.whole, List.take_append_drop]
    rw [List.length_drop]
    rw [List.length_cons] at hle
    omega

end Pieces

namespace Share

variable {s s₀ t : Share} {id : FidId} {o : ShareOptions} {h : Host} {log : List Moment}
  {bs : Bytes} {byHost : Bool} {offset : UInt64} {count : UInt32}

/-! ## One call -/

/-- What there is to read through a fid: the contents of an open file, which the host reads, or the
text of a link. -/
inductive Gives (s : Share) (id : FidId) : (byHost : Bool) → Bytes → Prop
  | file {fid : Fid} {d : Descriptor} {c : Contents} : s.fids[id]? = some fid →
      fid.handle = .file d → d.readable = true → s.host.body? d.ino = some (.file c) →
      Gives s id true c.toList
  | link {fid : Fid} {target : String} : s.fids[id]? = some fid → fid.handle = .unopened →
      s.linkText fid.path = .ok (some target) → Gives s id false (Bytes.ofText target)

/-- The host refuses to read so far. -/
def TooFar (s : Share) (byHost : Bool) (offset : UInt64) (count : UInt32) : Prop :=
  byHost = true ∧ count ≠ 0 ∧ Host.limit ≤ offset.toNat + s.budget count

instance : Decidable (s.TooFar byHost offset count) := by unfold TooFar; infer_instance

theorem budget_eq_zero_iff (hm : readOverhead < s.msize) : s.budget count = 0 ↔ count = 0 := by
  have hlt : readOverhead.toNat < s.msize.toNat := UInt32.lt_iff_toNat_lt.mp hm
  have hcount : count = 0 ↔ count.toNat = 0 := UInt32.toNat_inj.symm
  rw [hcount, budget]
  omega

theorem perform_read_file {fid : Fid} {d : Descriptor} (hid : s.fids[id]? = some fid)
    (hh : fid.handle = .file d) :
    s.perform (.read id offset count) =
      (((d.read offset.toNat (s.budget count) s.host).mapError ShareError.host).map Reply.read,
        s) := by
  change s.settle (s.read id offset count) = _
  unfold read
  rw [fids_find_eq_ok_iff.mpr hid]
  simp only [Outcome.ok_bind, hh]
  cases d.read offset.toNat (s.budget count) s.host <;> rfl

/-- **What a read comes to.** -/
theorem perform_read (hm : readOverhead < s.msize) (hg : s.Gives id byHost bs) :
    s.perform (.read id offset count) =
      (if s.TooFar byHost offset count then .error (.host .invalid)
        else .ok (.read ((bs.drop offset.toNat).take (s.budget count))), s) := by
  cases hg with
  | file hid hh hd hc =>
    rw [perform_read_file hid hh, Descriptor.read_of_file hd hc]
    simp only [TooFar, true_and, ne_eq, budget_eq_zero_iff hm]
    split_ifs <;> rfl
  | @link fid target hid hh ht =>
    have hread : s.read id offset count =
        .ok (.read (((Bytes.ofText target).drop offset.toNat).take (s.budget count)), s) := by
      unfold read
      rw [fids_find_eq_ok_iff.mpr hid]
      simp only [Outcome.ok_bind, hh, ht]
      rfl
    change s.settle (s.read id offset count) = _
    rw [hread, if_neg fun hfar => Bool.false_ne_true hfar.1]
    rfl

theorem answer_of_perform {r : Request} {x : Except ShareError Reply}
    (hx : s.perform r = (x, t)) (hp : t.store.hasPending = false) : s.answer r = (x, [], t) := by
  unfold answer
  simp only [hx, flushRecords_of_not_pending hp]

theorem answer_read (hm : readOverhead < s.msize) (hp : s.store.hasPending = false)
    (hg : s.Gives id byHost bs) :
    s.answer (.read id offset count) =
      (if s.TooFar byHost offset count then .error (.host .invalid)
        else .ok (.read ((bs.drop offset.toNat).take (s.budget count))), [], s) :=
  answer_of_perform (perform_read hm hg) hp

/-! ## Call after call -/

/-- The pieces that a client is given which asks for as much as a list says, each time from where
the piece before ends. -/
def readOn (s : Share) (id : FidId) : (offset : UInt64) → List UInt32 → Option (List Bytes)
  | _, [] => some []
  | offset, count :: counts =>
    match s.answer (.read id offset count) with
    | (.ok (.read piece), _, t) =>
      (t.readOn id (offset + UInt64.ofNat piece.length) counts).map (piece :: ·)
    | _ => none

/-- The piece that is read from an offset. -/
abbrev piece (s : Share) (bs : Bytes) (offset : UInt64) (count : UInt32) : Bytes :=
  (bs.drop offset.toNat).take (s.budget count)

/-- The offset behind a piece can be told. A text, unlike what the host reads, has no limit. -/
theorem toNat_next (ho : offset.toNat ≤ bs.length) (hfar : ¬ s.TooFar byHost offset count)
    (hcount : count ≠ 0) (hshort : byHost = false → bs.length < UInt64.size) :
    (offset + UInt64.ofNat (s.piece bs offset count).length).toNat =
      offset.toNat + (s.piece bs offset count).length := by
  have hlen : (s.piece bs offset count).length =
      min (s.budget count) (bs.length - offset.toNat) := by
    rw [List.length_take, List.length_drop]
  have hlt : offset.toNat + (s.piece bs offset count).length < UInt64.size := by
    cases byHost with
    | false =>
      have := hshort rfl
      omega
    | true =>
      have hnear : ¬ Host.limit ≤ offset.toNat + s.budget count := fun hl => hfar ⟨rfl, hcount, hl⟩
      have hlimit : Host.limit ≤ UInt64.size := by decide
      omega
  have hpiece := UInt64.toNat_ofNat_of_lt' (Nat.lt_of_le_of_lt (Nat.le_add_left _ _) hlt)
  rw [UInt64.toNat_add, hpiece]
  exact Nat.mod_eq_of_lt hlt

theorem readOn_cons {counts : List UInt32} (hm : readOverhead < s.msize)
    (hp : s.store.hasPending = false) (hg : s.Gives id byHost bs) :
    s.readOn id offset (count :: counts) =
      if s.TooFar byHost offset count then none
      else (s.readOn id (offset + UInt64.ofNat (s.piece bs offset count).length) counts).map
        (s.piece bs offset count :: ·) := by
  rw [readOn, answer_read hm hp hg]
  by_cases hfar : s.TooFar byHost offset count
  · rw [if_pos hfar, if_pos hfar]
  · rw [if_neg hfar, if_neg hfar]

theorem drop_next :
    bs.drop (offset.toNat + (s.piece bs offset count).length) =
      (bs.drop offset.toNat).drop (s.budget count) := by
  rw [← List.drop_drop, List.length_take, List.drop_eq_drop_iff]
  omega

/-- **What a client is given are pieces of the whole.** -/
theorem readOn_pieces {counts : List UInt32} {pieces : List Bytes} (hm : readOverhead < s.msize)
    (hp : s.store.hasPending = false) (hg : s.Gives id byHost bs)
    (hshort : byHost = false → bs.length < UInt64.size) (hcounts : ∀ n ∈ counts, n ≠ 0)
    (ho : offset.toNat ≤ bs.length) (hr : s.readOn id offset counts = some pieces) :
    pieces.length = counts.length ∧ Pieces (bs.drop offset.toNat) pieces := by
  induction counts generalizing offset pieces with
  | nil =>
    cases hr
    exact ⟨rfl, .nil _⟩
  | cons count counts ih =>
    rw [readOn_cons hm hp hg] at hr
    split_ifs at hr with hfar
    obtain ⟨more, hmore, rfl⟩ := Option.map_eq_some_iff.mp hr
    have hcount : count ≠ 0 := hcounts count List.mem_cons_self
    have hnext := toNat_next ho hfar hcount hshort
    have hle : offset.toNat + (s.piece bs offset count).length ≤ bs.length := by
      rw [List.length_take, List.length_drop]
      omega
    obtain ⟨hlen, hpieces⟩ := ih (fun n hn => hcounts n (List.mem_cons_of_mem _ hn))
      (hnext ▸ hle) hmore
    rw [hnext, drop_next] at hpieces
    have hbudget : 0 < s.budget count :=
      Nat.pos_of_ne_zero fun hzero => hcount ((budget_eq_zero_iff hm).mp hzero)
    exact ⟨congrArg (· + 1) hlen, .cons hbudget hpieces⟩

theorem exists_readOn {counts : List UInt32} (hm : readOverhead < s.msize)
    (hp : s.store.hasPending = false) (hg : s.Gives id byHost bs)
    (hshort : byHost = false → bs.length < UInt64.size) (hcounts : ∀ n ∈ counts, n ≠ 0)
    (ho : offset.toNat ≤ bs.length)
    (hroom : byHost = true → ∀ n ∈ counts, bs.length + s.budget n < Host.limit) :
    ∃ pieces, s.readOn id offset counts = some pieces := by
  induction counts generalizing offset with
  | nil => exact ⟨[], rfl⟩
  | cons count counts ih =>
    have hfar : ¬ s.TooFar byHost offset count := by
      rintro ⟨hhost, -, hfar⟩
      have := hroom hhost count List.mem_cons_self
      omega
    have hnext := toNat_next ho hfar (hcounts count List.mem_cons_self) hshort
    have hle : offset.toNat + (s.piece bs offset count).length ≤ bs.length := by
      rw [List.length_take, List.length_drop]
      omega
    obtain ⟨more, hmore⟩ := ih (fun n hn => hcounts n (List.mem_cons_of_mem _ hn)) (hnext ▸ hle)
      fun hhost n hn => hroom hhost n (List.mem_cons_of_mem _ hn)
    rw [readOn_cons hm hp hg, if_neg hfar, hmore]
    exact ⟨_, rfl⟩

/-! ## All reads -/

/-- What a fid gives is read as it is. -/
structure ReadsExactly (s : Share) (id : FidId) (byHost : Bool) (bs : Bytes) : Prop where
  /-- A read gives the part that it asks for, as far as there is one and a message has room. -/
  part : ∀ offset count, ¬ s.TooFar byHost offset count →
    s.answer (.read id offset count) =
      (.ok (.read ((bs.drop offset.toNat).take (min count.toNat (s.msize.toNat - 11)))), [], s)
  /-- What the host refuses to read is an input/output error. -/
  refused : ∀ offset count, s.TooFar byHost offset count →
    ∃ e, s.answer (.read id offset count) = (.error e, [], s) ∧ e.errno = 5
  /-- Reads one after the other give pieces of the whole. -/
  pieces : ∀ counts pieces, (∀ n ∈ counts, n ≠ 0) → (byHost = false → bs.length < UInt64.size) →
    s.readOn id 0 counts = some pieces → pieces.length = counts.length ∧ Pieces bs pieces
  /-- None of them is refused if the whole ends early enough. -/
  goesOn : ∀ counts, (∀ n ∈ counts, n ≠ 0) → (byHost = false → bs.length < UInt64.size) →
    (byHost = true → ∀ n ∈ counts, bs.length + s.budget n < Host.limit) →
    ∃ pieces, s.readOn id 0 counts = some pieces

theorem readsExactly (hm : readOverhead < s.msize) (hp : s.store.hasPending = false)
    (hg : s.Gives id byHost bs) : s.ReadsExactly id byHost bs where
  part offset count hfar := by rw [answer_read hm hp hg, if_neg hfar]; rfl
  refused offset count hfar := ⟨_, by rw [answer_read hm hp hg, if_pos hfar], rfl⟩
  pieces counts pieces hcounts hshort hr :=
    readOn_pieces hm hp hg hshort hcounts (Nat.zero_le _) hr
  goesOn counts hcounts hshort hroom :=
    exists_readOn hm hp hg hshort hcounts (Nat.zero_le _) hroom

/-- **Every read gives the part it asks for, and all together give the whole**, whatever the size of
messages is. Only the host refuses to read from an open file as far as its limit, and filling the
buffer of a read never takes an offset that cannot be told. -/
theorem run_readsExactly (hs : (start o h).1 = .ok s₀) (hr : s₀.History log s)
    (hp : s.store.hasPending = false) :
    s.msize = messageSize log ∧ 11 < s.msize.toNat ∧
      (∀ id byHost bs, s.Gives id byHost bs → s.ReadsExactly id byHost bs) ∧
      ∀ (d : Descriptor) c, d.readable = true → s.host.body? d.ino = some (.file c) →
        ∀ (offset : UInt64) (count : UInt32) got,
          d.Filling s.host offset.toNat (s.budget count) got →
          d.FillsExactly s.host offset.toNat (s.budget count) got := by
  have hsize : s.msize = messageSize log := hr.msize_eq (start_msize hs)
  have hm : readOverhead < s.msize := hsize ▸ readOverhead_lt_messageSize log
  refine ⟨hsize, UInt32.lt_iff_toNat_lt.mp hm, fun id byHost bs hg => readsExactly hm hp hg, ?_⟩
  intro d c hd hc offset count got hf
  exact hf.agrees hd hc offset.toNat_lt

/-- What a client does that asks for messages of no size, and then opens a file to read it. -/
def noteHappenings : List Happening :=
  [.frame versionFrame, .frame attachFrame, .frame (requestFrame (.walk 0 1 ["x"])),
    .frame (requestFrame (.lopen 1 0))]

theorem run_noteHappenings :
    ((start ⟨"/export", "/meta", defaultIounit⟩ noteHost).1.map fun s₀ =>
      let s := noteHappenings.foldl take s₀
      (s.store.hasPending, s.fids[(1 : FidId)]?, s.host.body? 2, s.msize,
        s.readOn 1 0 [1, 1, 1, 1, 1])) =
      .ok (false, some ⟨["x"], 0, .file ⟨2, true, false, false⟩⟩,
        some (.file (.ofBytes (Bytes.ofText "data"))), 12,
        some [[100], [97], [116], [97], []]) := by
  cbv

/-- The client has a file of four bytes to read, and messages have room for one. -/
theorem exists_gives_note :
    ∃ s₀ log s, (start ⟨"/export", "/meta", defaultIounit⟩ noteHost).1 = .ok s₀ ∧
      s₀.History log s ∧ s.store.hasPending = false ∧ s.Gives 1 true (Bytes.ofText "data") ∧
      s.msize = 12 ∧ s.readOn 1 0 [1, 1, 1, 1, 1] = some [[100], [97], [116], [97], []] := by
  obtain ⟨s₀, hs⟩ : ∃ s₀, (start ⟨"/export", "/meta", defaultIounit⟩ noteHost).1 = .ok s₀ :=
    ⟨_, rfl⟩
  have hrun := run_noteHappenings
  rw [hs] at hrun
  simp only [Except.map, Except.ok.injEq, Prod.mk.injEq] at hrun
  obtain ⟨hp, hid, hbody, hsize, hread⟩ := hrun
  exact ⟨s₀, _, _, hs, History.start.extend noteHappenings, hp, .file hid rfl rfl hbody, hsize,
    hread⟩

/-- Five reads of a byte each read a file of four bytes, and that there is no more. -/
theorem run_readsExactly_note :
    ∃ s₀ log s, (start ⟨"/export", "/meta", defaultIounit⟩ noteHost).1 = .ok s₀ ∧
      s₀.History log s ∧ s.store.hasPending = false ∧ s.Gives 1 true (Bytes.ofText "data") ∧
      s.readOn 1 0 [1, 1, 1, 1, 1] = some [[100], [97], [116], [97], []] ∧
      s.msize = messageSize log ∧ s.ReadsExactly 1 true (Bytes.ofText "data") := by
  obtain ⟨s₀, log, s, hs, hr, hp, hg, -, hread⟩ := exists_gives_note
  obtain ⟨hsize, -, hall, -⟩ := run_readsExactly hs hr hp
  exact ⟨s₀, log, s, hs, hr, hp, hg, hread, hsize, hall 1 true _ hg⟩

/-- To read one byte from the last offset below the limit is refused, although the part that is
asked for is empty. -/
theorem exists_read_refused :
    ∃ s₀ log s, (start ⟨"/export", "/meta", defaultIounit⟩ noteHost).1 = .ok s₀ ∧
      s₀.History log s ∧ s.store.hasPending = false ∧ s.Gives 1 true (Bytes.ofText "data") ∧
      UInt64.toNat 9223372036854775807 < 2 ^ 63 ∧
      (Bytes.ofText "data").drop (UInt64.toNat 9223372036854775807) = [] ∧
      (s.answer (.read 1 9223372036854775807 1)).1 = .error (.host .invalid) := by
  obtain ⟨s₀, log, s, hs, hr, hp, hg, hsize, -⟩ := exists_gives_note
  have hm : readOverhead < s.msize := by rw [hsize]; decide
  have hfar : s.TooFar true 9223372036854775807 1 := by
    refine ⟨rfl, by decide, ?_⟩
    rw [budget, hsize]
    decide
  refine ⟨s₀, log, s, hs, hr, hp, hg, by decide, List.drop_of_length_le (by decide), ?_⟩
  rw [answer_read hm hp hg, if_pos hfar]

end Share

end GuestShare
