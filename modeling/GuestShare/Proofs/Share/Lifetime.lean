import GuestShare.Proofs.Share.Deed
import GuestShare.Proofs.Share.History

/-!
# How long fids live

A fid is there from the request that binds it to the one that lets go of it, or to the end of the
session. What was asked and answered since the session began tells which fids there are.

* `FidEvent`, `Request.fidEvent?`: what a request with its answer means for a fid.
* `Bound`: the last such event since the session began has bound the fid.
* `Request.needs`: the fids without which a request cannot be carried out.
* **`perform_live`**: which fids there are after a request.
* **`perform_of_unknown`**: a request fails whose fids are not there.
* **`run_lifetime`**: a fid is there if it is bound, whatever has happened since the server started.
-/

namespace GuestShare

/-- What can happen to a fid. -/
inductive FidEvent
  | attached
  | walked
  | clunked
  | removed
deriving Repr, DecidableEq

/-- Whether the fid is there after that. -/
def FidEvent.binds : FidEvent → Bool
  | attached | walked => true
  | clunked | removed => false

namespace FidEvent

/-- Whether a fid is there after what may have happened to it. -/
def LiveAfter (event : Option FidEvent) (before : Prop) : Prop :=
  match event with
  | some e => e.binds = true
  | none => before

variable {e : FidEvent} {c before : Prop} [Decidable c]

theorem liveAfter_of_binds (he : e.binds = true) :
    LiveAfter (if c then some e else none) before ↔ c ∨ before := by
  by_cases hc : c <;> simp [LiveAfter, hc, he]

theorem liveAfter_of_not_binds (he : e.binds = false) :
    LiveAfter (if c then some e else none) before ↔ ¬ c ∧ before := by
  by_cases hc : c <;> simp [LiveAfter, hc, he]

end FidEvent

namespace Request

/-- What a request with its answer means for a fid. A walk binds its fid if it gets to its end. -/
def fidEvent? (id : FidId) (answer : Except ShareError Reply) : Request → Option FidEvent
  | .attach fid .. => if fid = id ∧ answer.isOk = true then some .attached else none
  | .walk _ newFid names =>
    match answer with
    | .ok (.walk qids) => if newFid = id ∧ qids.length = names.length then some .walked else none
    | _ => none
  | .clunk fid => if fid = id then some .clunked else none
  | .remove fid => if fid = id then some .removed else none
  | _ => none

/-- The fids without which a request cannot be carried out. Attaching and letting go need none, nor
does it matter whether there is already a fid that a walk is to bind. -/
def needs : Request → List FidId
  | .walk fid _ _ | .lopen fid _ | .open fid _ | .lcreate fid .. | .symlink fid .. | .mknod fid ..
  | .readlink fid | .getattr fid _ | .setattr fid _ | .readdir fid .. | .fsync fid _
  | .mkdir fid .. | .unlinkat fid .. | .read fid .. | .write fid .. | .remove fid => [fid]
  | .renameat oldDir _ newDir _ => [oldDir, newDir]
  | .version .. | .attach .. | .flush _ | .clunk _ | .unknown _ => []

theorem fidEvent?_walk_iff {id fid newFid : FidId} {names : List String} {e : FidEvent}
    {answer : Except ShareError Reply} :
    (Request.walk fid newFid names).fidEvent? id answer = some e ↔
      e = .walked ∧ newFid = id ∧ ∃ qids, answer = .ok (.walk qids) ∧
        qids.length = names.length := by
  rcases answer with _ | reply
  · simp [fidEvent?]
  · cases reply with
    | walk qids =>
      simp only [fidEvent?, Option.ite_none_right_eq_some, Option.some.injEq, Except.ok.injEq,
        Reply.walk.injEq, exists_eq_left']
      exact ⟨fun ⟨⟨hid, hlen⟩, he⟩ => ⟨he.symm, hid, hlen⟩,
        fun ⟨he, hid, hlen⟩ => ⟨⟨hid, hlen⟩, he.symm⟩⟩
    | _ => simp [fidEvent?]

theorem fidEvent?_of_error {r : Request} {id : FidId} {e : ShareError} (hr : ¬ r.LetsGo) :
    r.fidEvent? id (.error e) = none := by
  cases r with
  | attach => exact if_neg fun h => by cases h.2
  | clunk | remove => exact absurd trivial hr
  | _ => rfl

theorem not_beginsSession {r : Request} (hr : ¬ r.LetsGo) : ¬ r.BeginsSession := by
  cases r with
  | version => exact absurd trivial hr
  | _ => exact not_false

/-- The request is for a node that cannot be: its mode tells no kind, or that of a device with a
number that is too large. -/
def NodeRefused : Request → Prop
  | .mknod _ _ mode major minor _ => ∀ kind, NodeKind.ofMode? mode = some kind →
    (kind = .charDevice ∨ kind = .blockDevice) ∧
      (UInt16.size ≤ major.toNat ∨ UInt16.size ≤ minor.toNat)
  | _ => False

end Request

/-- The number of something that is not there. -/
def ShareError.noEntry : UInt32 := 2

namespace Moment

/-- What a moment means for a fid. -/
def fidEvent? (x : Moment) (id : FidId) : Option FidEvent :=
  x.request?.bind fun m => m.body.fidEvent? id (x.share.answer m.body).1

/-- The reply that was sent, if any was. -/
def reply? (x : Moment) : Option (Tagged Reply) :=
  match x.happening with
  | .frame bs => (x.share.respond bs).1.bind fun out => (Frame.toReply out).toOption
  | _ => none

end Moment

/-- The last event of a fid since the session began has bound it. -/
def Bound (log : List Moment) (id : FidId) : Prop :=
  ∃ front x back e, log = front ++ x :: back ∧ x.fidEvent? id = some e ∧ e.binds = true ∧
    ∀ y ∈ back, ¬ y.BeginsSession ∧ y.fidEvent? id = none

namespace Share

/-- There is such a fid. -/
def Live (s : Share) (id : FidId) : Prop := (s.fids[id]?).isSome = true

variable {s s' s₀ : Share} {id k newId : FidId} {fid : Fid} {names : List String} {r : Request}
  {x : Except ShareError Reply}

/-! ## Requests -/

theorem live_of_getElem? (hid : s.fids[id]? = some fid) : s.Live id := by
  rw [Live, hid]
  rfl

theorem live_insert (hf : s'.fids = s.fids.insert k fid) : s'.Live id ↔ k = id ∨ s.Live id := by
  rw [Live, hf, Live]
  by_cases hk : k = id <;> simp [Std.ExtTreeMap.getElem?_insert, hk]

theorem live_insert_of_live (hf : s'.fids = s.fids.insert k fid) (hk : s.Live k) :
    s'.Live id ↔ s.Live id := by
  rw [live_insert hf, or_iff_right_iff_imp]
  rintro rfl
  exact hk

theorem live_erase (hf : s'.fids = s.fids.erase k) : s'.Live id ↔ k ≠ id ∧ s.Live id := by
  rw [Live, hf, Live]
  by_cases hk : k = id <;> simp [Std.ExtTreeMap.getElem?_erase, hk]

theorem live_relocate {old new : GuestPath} (hf : s'.fids = s.fids.relocate old new) :
    s'.Live id ↔ s.Live id := by
  rw [Live, hf, Fids.getElem?_relocate, Option.isSome_map, Live]

/-- **A walk that gets to its end binds a fid**, for the owner of the one it starts from. Any other
walk leaves all as it was. -/
theorem perform_walk_cases (s : Share) (k newId : FidId) (names : List String) :
    (∃ f qids path, s.fids[k]? = some f ∧ qids.length = names.length ∧
        s.perform (.walk k newId names) =
          (.ok (.walk qids), s.bindFid newId { f with path, handle := .unopened })) ∨
      ((s.perform (.walk k newId names)).2 = s ∧
        ∀ qids, (s.perform (.walk k newId names)).1 = .ok (.walk qids) →
          qids.length ≠ names.length) := by
  change (∃ f qids path, _ ∧ _ ∧ s.settle (s.walk k newId names) = _) ∨
    ((s.settle (s.walk k newId names)).2 = s ∧
      ∀ qids, (s.settle (s.walk k newId names)).1 = _ → _)
  cases ho : s.walk k newId names with
  | error e => exact .inr ⟨rfl, fun _ hq => by cases hq⟩
  | ok x =>
    obtain ⟨f, hk, hreply, ⟨hwhole, path, -, hs⟩ | ⟨hhalted, hs⟩⟩ := walk_eq_ok ho
    · refine .inl ⟨f, _, path, hk, (List.length_map Node.qid).trans hwhole, ?_⟩
      rw [← hreply, ← hs]
      rfl
    · refine .inr ⟨hs, fun qids hq => ?_⟩
      cases hreply.symm.trans (Except.ok.inj hq)
      rwa [List.length_map]

theorem Act.live (ha : Act s r x s') :
    s'.Live id ↔ FidEvent.LiveAfter (r.fidEvent? id x) (¬ r.BeginsSession ∧ s.Live id) := by
  have began : ∀ {p : Prop}, p ↔ ¬ False ∧ p := (and_iff_right not_false).symm
  have same : r.fidEvent? id x = none → ¬ r.BeginsSession →
      (s.Live id ↔ FidEvent.LiveAfter (r.fidEvent? id x) (¬ r.BeginsSession ∧ s.Live id)) := by
    intro he hb
    rw [he, FidEvent.LiveAfter, and_iff_right hb]
  have lets_go : ∀ {k : FidId} {e : FidEvent}, e.binds = false → s'.fids = s.fids.erase k →
      (s'.Live id ↔
        FidEvent.LiveAfter (if k = id then some e else none) (¬ False ∧ s.Live id)) :=
    fun he hf => (live_erase hf).trans
      (Iff.trans (and_congr_right fun _ => began) (FidEvent.liveAfter_of_not_binds he).symm)
  cases ha with
  | fail keeps => exact same (Request.fidEvent?_of_error keeps) (Request.not_beginsSession keeps)
  | look sees =>
    cases sees with
    | walk source halted =>
      exact same (if_neg fun h => halted ((List.length_map _).symm.trans h.2)) not_false
    | _ => exact began
  | begin => exact iff_of_false (by simp [Live, reset]) fun h => h.1 trivial
  | makeRoot => exact same (Request.fidEvent?_of_error not_false) not_false
  | attach =>
    refine (live_insert rfl).trans (Iff.trans ?_ (FidEvent.liveAfter_of_binds rfl).symm)
    exact or_congr (and_iff_left rfl).symm began
  | walk source whole =>
    refine (live_insert rfl).trans (Iff.trans ?_ (FidEvent.liveAfter_of_binds rfl).symm)
    exact or_congr (and_iff_left ((List.length_map _).trans whole)).symm began
  | «open» opening source =>
    have hlive := live_of_getElem? source
    cases opening <;> exact (live_insert_of_live rfl hlive).trans began
  | create source entry there after =>
    subst after
    have hlive := live_of_getElem? (directory_eq_ok_iff.mp source).1
    exact (live_insert_of_live rfl hlive).trans began
  | make source entry makes records after =>
    subst after
    cases records <;> exact began
  | set | write | unlink => exact began
  | move => exact (live_relocate rfl).trans began
  | remove => exact lets_go rfl rfl
  | drop drops => obtain ⟨rfl, -⟩ | ⟨rfl, -⟩ := drops <;> exact lets_go rfl rfl

/-- **Which fids there are after a request.** -/
theorem perform_live (s : Share) (r : Request) (id : FidId) :
    (s.perform r).2.Live id ↔
      FidEvent.LiveAfter (r.fidEvent? id (s.perform r).1) (¬ r.BeginsSession ∧ s.Live id) :=
  (perform_act rfl).live

/-! ## Fids that are not there -/

theorem find_of_not_live (hid : ¬ s.Live id) : s.fids.find id = .error (.unknownFid id) := by
  unfold Fids.find
  cases hf : s.fids[id]? with
  | some f => exact absurd (live_of_getElem? hf) hid
  | none => rfl

theorem directory_of_not_live (hid : ¬ s.Live id) :
    s.directory id = .error (.unknownFid id) := by
  rw [directory, find_of_not_live hid]
  rfl

theorem deviceNumber_cases (n : UInt32) (refusal : UInt32 → Refusal) :
    (UInt16.size ≤ n.toNat ∧ deviceNumber n refusal = .error (.refused (refusal n))) ∨
      (n.toNat < UInt16.size ∧ ∃ k, deviceNumber n refusal = .ok k) := by
  unfold deviceNumber
  by_cases hn : n.toNat < UInt16.size
  · exact .inr ⟨hn, _, if_pos hn⟩
  · exact .inl ⟨Nat.not_lt.mp hn, if_neg hn⟩

theorem deviceOf_cases (kind : NodeKind) (major minor : UInt32) :
    ((kind = .charDevice ∨ kind = .blockDevice) ∧
        (UInt16.size ≤ major.toNat ∨ UInt16.size ≤ minor.toNat) ∧
        ∃ refusal, deviceOf kind major minor = .error (.refused refusal)) ∨
      ((kind = .charDevice ∨ kind = .blockDevice →
          major.toNat < UInt16.size ∧ minor.toNat < UInt16.size) ∧
        ∃ device, deviceOf kind major minor = .ok device) := by
  obtain ⟨hmajor, ha⟩ | ⟨hmajor, a, ha⟩ := deviceNumber_cases major .major <;>
    obtain ⟨hminor, hi⟩ | ⟨hminor, i, hi⟩ := deviceNumber_cases minor .minor <;>
    cases kind <;> simp [deviceOf, ha, hi, hmajor, hminor]

/-- A node that cannot be is refused before anything else is looked at. -/
theorem newNode_of_not_live {name : String} {mode major minor gid : UInt32} (hk : ¬ s.Live k) :
    ∃ e, s.newNode k name mode major minor gid = .error e ∧
      (¬ (Request.mknod k name mode major minor gid).NodeRefused → e.errno = ShareError.noEntry) ∧
      ((Request.mknod k name mode major minor gid).NodeRefused →
        e.errno = ShareError.invalidArgument) := by
  have hdir := directory_of_not_live hk
  have hrefused : (Request.mknod k name mode major minor gid).NodeRefused ↔
      ∀ kind, NodeKind.ofMode? mode = some kind → (kind = .charDevice ∨ kind = .blockDevice) ∧
        (UInt16.size ≤ major.toNat ∨ UInt16.size ≤ minor.toNat) := .rfl
  rw [hrefused]
  unfold newNode
  cases NodeKind.ofMode? mode with
  | none => exact ⟨_, rfl, fun h => absurd (fun _ hk => by cases hk) h, fun _ => rfl⟩
  | some kind =>
    obtain ⟨hkind, hlarge, refusal, hd⟩ | ⟨hsmall, device, hd⟩ := deviceOf_cases kind major minor
    · refine ⟨.refused refusal, by simp [hd], fun h => absurd (fun _ hk => ?_) h, fun _ => rfl⟩
      cases hk
      exact ⟨hkind, hlarge⟩
    · refine ⟨.unknownFid k, by simp [hd, hdir], fun _ => rfl, fun h => ?_⟩
      obtain ⟨hkind, hlarge⟩ := h kind rfl
      have := hsmall hkind
      omega

/-- **A request fails whose fids are not there**, and changes nothing. If it asks for a node that
cannot be, that is the reason. -/
theorem perform_of_unknown (hne : r.needs ≠ []) (hid : ∀ id ∈ r.needs, ¬ s.Live id) :
    ∃ e, s.perform r = (.error e, s) ∧ (¬ r.NodeRefused → e.errno = ShareError.noEntry) ∧
      (r.NodeRefused → e.errno = ShareError.invalidArgument) := by
  have unknown : ∀ k, ¬ r.NodeRefused → s.perform r = (.error (.unknownFid k), s) →
      ∃ e, s.perform r = (.error e, s) ∧ (¬ r.NodeRefused → e.errno = ShareError.noEntry) ∧
        (r.NodeRefused → e.errno = ShareError.invalidArgument) :=
    fun _ hr he => ⟨_, he, fun _ => rfl, fun h => absurd h hr⟩
  have found : ∀ k, k ∈ r.needs → s.fids.find k = .error (.unknownFid k) := fun k hk =>
    find_of_not_live (hid k hk)
  have dir : ∀ k, k ∈ r.needs → s.directory k = .error (.unknownFid k) := fun k hk =>
    directory_of_not_live (hid k hk)
  cases r with
  | version msize v => exact absurd rfl hne
  | attach k afid uname aname uid => exact absurd rfl hne
  | flush oldTag => exact absurd rfl hne
  | clunk k => exact absurd rfl hne
  | unknown code => exact absurd rfl hne
  | walk k newFid names =>
    exact unknown k not_false (by simp [perform, walk, settle, found k List.mem_cons_self])
  | lopen k flags =>
    exact unknown k not_false
      (by simp [perform, lopen, openFor, openNode, settleThen, found k List.mem_cons_self])
  | «open» k mode =>
    exact unknown k not_false
      (by simp [perform, «open», openFor, openNode, settleThen, found k List.mem_cons_self])
  | lcreate k name flags mode gid =>
    exact unknown k not_false
      (by simp [perform, lcreate, newFile, settleThen, dir k List.mem_cons_self])
  | symlink k name target gid =>
    exact unknown k not_false
      (by simp [perform, symlink, newLink, settleThen, dir k List.mem_cons_self])
  | mknod k name mode major minor gid =>
    obtain ⟨e, he, hno, hyes⟩ := newNode_of_not_live (hid k List.mem_cons_self)
    exact ⟨e, by simp [perform, mknod, settleThen, he], hno, hyes⟩
  | readlink k =>
    exact unknown k not_false (by simp [perform, readlink, settle, found k List.mem_cons_self])
  | getattr k mask =>
    exact unknown k not_false (by simp [perform, getattr, settle, found k List.mem_cons_self])
  | setattr k attr =>
    exact unknown k not_false (by simp [perform, setattr, found k List.mem_cons_self])
  | readdir k offset count =>
    exact unknown k not_false (by simp [perform, readdir, settle, found k List.mem_cons_self])
  | fsync k datasync =>
    exact unknown k not_false (by simp [perform, fsync, settle, found k List.mem_cons_self])
  | mkdir k name mode gid =>
    exact unknown k not_false
      (by simp [perform, mkdir, newDir, settleThen, dir k List.mem_cons_self])
  | renameat oldDir oldName newDir newName =>
    exact unknown oldDir not_false
      (by simp [perform, renameat, settle, dir oldDir List.mem_cons_self])
  | unlinkat k name flags =>
    exact unknown k not_false (by simp [perform, unlinkat, settle, dir k List.mem_cons_self])
  | read k offset count =>
    exact unknown k not_false (by simp [perform, read, settle, found k List.mem_cons_self])
  | write k offset data =>
    exact unknown k not_false
      (by simp [perform, write, writeFile, settleThen, found k List.mem_cons_self])
  | remove k =>
    exact unknown k not_false (by simp [perform, remove, found k List.mem_cons_self])

/-! ## Moments -/

end Share

namespace Moment

variable {x : Moment} {m : Tagged Request} {id : FidId} {reply : Reply}

theorem fidEvent?_of_request (hw : x.RecordsWritten) (hm : x.request? = some m) :
    x.fidEvent? id = m.body.fidEvent? id (x.share.perform m.body).1 := by
  rw [fidEvent?, hm, Option.bind_some, hw.answer_eq hm]

theorem fidEvent?_of_no_request (hm : x.request? = none) : x.fidEvent? id = none := by
  rw [fidEvent?, hm]
  rfl

/-- **Which fids there are after a moment.** -/
theorem after_live (hw : x.RecordsWritten) :
    x.after.Live id ↔
      FidEvent.LiveAfter (x.fidEvent? id) (¬ x.BeginsSession ∧ x.share.Live id) := by
  obtain ⟨m, hm, ha⟩ | ⟨hm, bs, hx, ha⟩ | ⟨hm, hx, ha⟩ | ⟨hm, h, hx, ha⟩ := x.after_cases
  · rw [ha, fidEvent?_of_request hw hm, beginsSession_iff_of_request hm]
    exact x.share.perform_live m.body id
  all_goals
    rw [ha, fidEvent?_of_no_request hm, beginsSession_iff_of_no_request hm, hx]
  · simp [FidEvent.LiveAfter]
  · simp [FidEvent.LiveAfter, Share.Live, Share.reset]
  · simp [FidEvent.LiveAfter, Share.Live, Share.on]

theorem reply?_of_answer {bs : Bytes} (hx : x.happening = .frame bs)
    (hm : Frame.toRequest bs = .ok m) (hr : x.share.replyTo bs = reply) (hf : reply.Fits) :
    x.reply? = some ⟨m.tag, reply⟩ := by
  obtain ⟨h, hh, htag, -⟩ := Frame.toRequest_header hm
  obtain ⟨out, hout⟩ := (Reply.ofReply_isOk_iff (r := ⟨h.tag, reply⟩)).mpr hf
  have hback := Reply.toReply_of_ofReply hout
  have hsent : (x.share.respond bs).1 = some out := by
    rw [Share.respond_fst hh, hr]
    exact Share.encode_eq_some_iff.mpr hout
  simp only [reply?, hx, hsent, Option.bind_some, hback, htag]
  rfl

/-- What a request does to the fids, whatever they are, and what becomes of it if its fids are not
there. -/
structure Manages (x : Moment) (m : Tagged Request) : Prop where
  /-- Nothing else makes a fid or lets go of one. -/
  others : ∀ id, ¬ m.body.BeginsSession → x.fidEvent? id = none →
    (x.after.Live id ↔ x.share.Live id)
  /-- A walk that does not get to its end leaves all fids as they are. -/
  halted : ∀ fid newFid names, m.body = .walk fid newFid names →
    (∀ qids, (x.share.answer m.body).1 = .ok (.walk qids) → qids.length ≠ names.length) →
      x.after.fids = x.share.fids
  /-- A walk binds a fid for the owner of the one it starts from. -/
  owner : ∀ fid newFid names, m.body = .walk fid newFid names →
    x.fidEvent? newFid = some .walked →
      ∃ f f', x.share.fids[fid]? = some f ∧ x.after.fids[newFid]? = some f' ∧ f'.uid = f.uid
  /-- Without its fids a request comes to nothing. -/
  unknown : m.body.needs ≠ [] → (∀ id ∈ m.body.needs, ¬ x.share.Live id) →
    x.after = x.share ∧
      (¬ m.body.NodeRefused → x.reply? = some ⟨m.tag, .error ShareError.noEntry⟩) ∧
      (m.body.NodeRefused → x.reply? = some ⟨m.tag, .error ShareError.invalidArgument⟩)
  /-- Letting go of a fid always works, be it there or not. -/
  clunk : ∀ fid, m.body = .clunk fid → x.reply? = some ⟨m.tag, .clunk⟩

theorem manages (hp : x.share.store.hasPending = false) (hw : x.RecordsWritten)
    (hm : x.request? = some m) : x.Manages m := by
  obtain ⟨bs, hx, hbs⟩ := request?_eq_some_iff.mp hm
  have hafter := after_of_request hm
  have hanswer := hw.answer_eq hm
  have hreply : ∀ reply, (x.share.perform m.body).1 = .ok reply → x.share.replyTo bs = reply := by
    intro reply ho
    simp only [Share.replyTo, hbs, hanswer, ho]
  have herror : ∀ e, (x.share.perform m.body).1 = .error e →
      x.reply? = some ⟨m.tag, .error e.errno⟩ := by
    intro e ho
    refine reply?_of_answer hx hbs ?_ (Reply.fits_error _)
    simp only [Share.replyTo, hbs, hanswer, ho]
  refine ⟨fun id hb he => ?_, fun k newId names hwalk hqids => ?_, fun k newId names hwalk he => ?_,
    fun hne hid => ?_, fun k hk => ?_⟩
  · rw [after_live hw, he, beginsSession_iff_of_request hm]
    exact and_iff_right hb
  · rw [hafter, Share.flushRecords_fids]
    rw [hanswer] at hqids
    rw [hwalk] at hqids ⊢
    obtain ⟨f, qids, path, -, hlen, ho⟩ | ⟨hs, -⟩ := x.share.perform_walk_cases k newId names
    · exact absurd hlen (hqids qids (by rw [ho]))
    · rw [hs]
  · rw [fidEvent?_of_request hw hm, hwalk] at he
    obtain ⟨-, -, qids, hq, hlen⟩ := Request.fidEvent?_walk_iff.mp he
    rw [hafter, Share.flushRecords_fids, hwalk]
    obtain ⟨f, _, path, hk, -, ho⟩ | ⟨-, hno⟩ := x.share.perform_walk_cases k newId names
    · refine ⟨f, { f with path, handle := .unopened }, hk, ?_, rfl⟩
      rw [ho]
      exact Std.ExtTreeMap.getElem?_insert_self
    · exact absurd hlen (hno qids hq)
  · obtain ⟨e, he, hno, hyes⟩ := Share.perform_of_unknown hne hid
    have hsent := herror e (by rw [he])
    refine ⟨?_, fun h => by rw [hsent, hno h], fun h => by rw [hsent, hyes h]⟩
    rw [hafter, he, Share.flushRecords_of_not_pending hp]
  · refine reply?_of_answer hx hbs (hreply _ ?_) (Reply.Blank.fits ⟨rfl, rfl, rfl, rfl⟩)
    rw [hk]
    rfl

end Moment

/-- **What the last moment means for a fid.** -/
theorem bound_concat_iff {log : List Moment} {x : Moment} {id : FidId} :
    Bound (log ++ [x]) id ↔
      FidEvent.LiveAfter (x.fidEvent? id) (¬ x.BeginsSession ∧ Bound log id) := by
  constructor
  · rintro ⟨front, y, back, e, hlog, he, hbinds, hback⟩
    rcases List.eq_nil_or_concat' back with rfl | ⟨back, z, rfl⟩
    · obtain ⟨-, hxy⟩ := List.append_inj' hlog rfl
      cases hxy
      rw [he]
      exact hbinds
    · rw [← List.cons_append, ← List.append_assoc] at hlog
      obtain ⟨rfl, hxz⟩ := List.append_inj' hlog rfl
      cases hxz
      obtain ⟨hx, hnone⟩ := hback x (List.mem_append_right _ List.mem_cons_self)
      rw [hnone]
      exact ⟨hx, front, y, back, e, rfl, he, hbinds, fun z hz =>
        hback z (List.mem_append_left _ hz)⟩
  · intro h
    cases he : x.fidEvent? id with
    | some e =>
      rw [he] at h
      exact ⟨log, x, [], e, rfl, he, h, fun _ hy => absurd hy List.not_mem_nil⟩
    | none =>
      rw [he] at h
      obtain ⟨hx, front, y, back, e, rfl, hy, hbinds, hback⟩ := h
      refine ⟨front, y, back ++ [x], e, by simp, hy, hbinds, fun z hz => ?_⟩
      rcases List.mem_append.mp hz with hz | hz
      · exact hback z hz
      · rw [List.mem_singleton.mp hz]
        exact ⟨hx, he⟩

namespace Share

variable {s₀ t : Share} {log : List Moment} {x : Moment} {o : ShareOptions} {h : Host}

/-- **A fid is there if it is bound.** -/
theorem History.live_iff (hr : s₀.History log t) (h₀ : s₀.fids = ∅)
    (hw : ∀ x ∈ log, x.RecordsWritten) (id : FidId) : t.Live id ↔ Bound log id := by
  induction hr with
  | start =>
    rw [Live, h₀]
    refine iff_of_false (by simp) ?_
    rintro ⟨front, x, back, e, hlog, -⟩
    cases front <;> cases hlog
  | @next log s e _ ih =>
    have hx := hw ⟨s, e⟩ (List.mem_append_right _ List.mem_cons_self)
    have hs := ih fun x hx => hw x (List.mem_append_left _ hx)
    rw [bound_concat_iff, ← hs]
    exact Moment.after_live hx

/-- **A fid is there if it is bound**, in every run throughout which the records can be written: if
since the session began it has been attached or walked to, and not been let go of after that. No
request does anything else to what fids there are, and none can do without them. -/
theorem run_lifetime (hs : (start o h).1 = .ok s₀) (hr : s₀.History log t)
    (hw : ∀ x ∈ log, x.RecordsWritten) :
    (∀ id, t.Live id ↔ Bound log id) ∧
      ∀ x ∈ log, ∀ m, x.request? = some m → x.Manages m := by
  obtain ⟨-, -, -, hstore, hfids⟩ := start_eq_ok hs
  have hp₀ : s₀.store.hasPending = false := by
    rw [hstore]
    rfl
  refine ⟨hr.live_iff hfids hw, fun x hx m hm => ?_⟩
  obtain ⟨front, hfront, hsub⟩ := hr.before hx
  exact Moment.manages (hfront.not_pending hp₀ fun y hy => hw y (hsub hy)) (hw x hx) hm

/-- The frame of a request to walk from fid 0 to fid 1 by no names. -/
def cloneFrame : Bytes := [17, 0, 0, 0, 110, 1, 0, 0, 0, 0, 0, 1, 0, 0, 0, 0, 0]

/-- The frame of a request to let go of fid 0. -/
def clunkFrame : Bytes := [11, 0, 0, 0, 120, 1, 0, 0, 0, 0, 0]

/-- A fid stays when the one is gone from which it was walked. -/
theorem run_lifetime_clone :
    ∃ s₀ log t, (start ⟨"/export", "/meta", defaultIounit⟩ (.empty ⟨0, 0⟩)).1 = .ok s₀ ∧
      s₀.History log t ∧ (∀ x ∈ log, x.RecordsWritten) ∧ Bound log 1 ∧ ¬ Bound log 0 := by
  obtain ⟨s₀, log, t, hs, hr, hw, h₁, h₀⟩ : ∃ s₀ log t,
      (start ⟨"/export", "/meta", defaultIounit⟩ (.empty ⟨0, 0⟩)).1 = .ok s₀ ∧
        s₀.History log t ∧ (∀ x ∈ log, x.RecordsWritten) ∧ t.Live 1 ∧ ¬ t.Live 0 := by
    refine ⟨_, _, _, rfl,
      History.start.extend [.frame attachFrame, .frame cloneFrame, .frame clunkFrame], ?_, ?_, ?_⟩
    · intro x hx
      simp only [List.nil_append, log, List.mem_cons, List.not_mem_nil, or_false] at hx
      rcases hx with rfl | rfl | rfl <;>
      · intro m hm
        cases hm
        rfl
    · rfl
    · exact Bool.false_ne_true
  have hlive := (run_lifetime hs hr hw).1
  exact ⟨s₀, log, t, hs, hr, hw, (hlive 1).mp h₁, fun hb => h₀ ((hlive 0).mpr hb)⟩

end Share

end GuestShare
