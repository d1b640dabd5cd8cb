import GuestShare.Proofs.Share.History
import GuestShare.Share.Client

/-!
# Calls of a client

A client takes two things for granted: that a reply is under the tag of its request, and that it is
one of the same operation unless it is an error. Both hold with every share, whoever else makes use
of it. Tags are taken in turn, so that one comes again only after all the others.

* `Client.Outcome`, `Client.Concludes`: what a request and a call may come to.
* `Turn`, `Client.log`: what a client does and what happens besides.
* `Encounter.AsExpected`, `sent`: what a client takes for granted of a turn, and the requests that
  it sends in all of them.
* **`exchange_tag`**, **`send_outcome`**, **`ask_concludes`**: one request, one call.
* **`sent_eq`**: the tags of requests.
* **`calls_conclude`**: any number of calls, with anything in between.
-/

namespace GuestShare

namespace Client

/-- What a request comes to that the client sends to the share: it cannot be written, or nothing
comes back, or an error with its number, or a reply of the operation of the request. -/
inductive Outcome (c : Client) (r : Request) (s : Share) : Except ClientError Reply → Prop
  | unwritable {e : WireError} (hf : Frame.ofRequest ⟨c.nextTag, r⟩ = .error e) :
      Outcome c r s (.error (.codec e))
  | dropped {frame : Bytes} (hf : Frame.ofRequest ⟨c.nextTag, r⟩ = .ok frame)
      (ho : (s.respond frame).1 = none) : Outcome c r s (.error .dropped)
  | refused {frame out : Bytes} {errno : UInt32}
      (hf : Frame.ofRequest ⟨c.nextTag, r⟩ = .ok frame) (ho : (s.respond frame).1 = some out)
      (hr : Frame.toReply out = .ok ⟨c.nextTag, .error errno⟩) :
      Outcome c r s (.error (.remote errno))
  | reply {frame out : Bytes} {reply : Reply}
      (hf : Frame.ofRequest ⟨c.nextTag, r⟩ = .ok frame) (ho : (s.respond frame).1 = some out)
      (hr : Frame.toReply out = .ok ⟨c.nextTag, reply⟩) (hc : reply.code = r.code + 1) :
      Outcome c r s (.ok reply)

/-- What a call comes to: that of its request if it is none of a reply, and otherwise the value of
what the reply of its operation carries. -/
inductive Concludes (c : Client) {op : Operation} (q : Call op) (s : Share) :
    Except CallError (Call.Value op) → Prop
  | failed {e : ClientError} (h : c.Outcome q.request s (.error e)) :
      Concludes c q s (.error (.failed e))
  | value {a : Reply.Args op} {v : Call.Value op}
      (h : c.Outcome q.request s (.ok (Reply.join op a))) (hv : Call.value op a = .ok v) :
      Concludes c q s (.ok v)

end Client

/-- What a client does, and what happens besides. -/
inductive Turn
  | call {op : Operation} (q : Call op)
  /-- The client sends a request that is none of a call. -/
  | request (r : Request)
  /-- Others send frames, or take over, or change the host. -/
  | other (e : Happening)

namespace Turn

/-- The request of the client, if it sends one. -/
def request? : Turn → Option Request
  | call q => some q.request
  | request r => some r
  | other _ => none

/-- The client and the share after a turn. -/
def after (c : Client) (s : Share) : Turn → Client × Share
  | call q => (c.ask q s).2.2
  | request r => (c.send r s).2.2
  | other e => (c, s.take e)

end Turn

/-- A turn, with the client and the share that it found. -/
structure Encounter where
  client : Client
  share : Share
  turn : Turn

namespace Encounter

/-- The request of the client under its tag, if it sends one. -/
def request? (x : Encounter) : Option (Tagged Request) :=
  x.turn.request?.map fun r => ⟨x.client.nextTag, r⟩

/-- The turn goes as the client takes for granted: what comes back is under the tag of the request,
a request has an outcome, and a call is concluded without the reply being of another operation or
of another version. -/
structure AsExpected (x : Encounter) : Prop where
  tag : ∀ r m, x.turn.request? = some r → (x.client.exchange r x.share).1 = .ok m →
    m.tag = x.client.nextTag
  request : ∀ r, x.turn = .request r → x.client.Outcome r x.share (x.client.send r x.share).1
  call : ∀ {op : Operation} (q : Call op), x.turn = .call q →
    x.client.Concludes q x.share (x.client.ask q x.share).1
  possible : ∀ {op : Operation} (q : Call op), x.turn = .call q →
    (∀ op', (x.client.ask q x.share).1 ≠ .error (.otherReply op')) ∧
      ∀ v, (x.client.ask q x.share).1 ≠ .error (.otherVersion v)

end Encounter

/-- The turns that a client and a share go through. -/
def Client.log (c : Client) (s : Share) : List Turn → List Encounter
  | [] => []
  | t :: ts => ⟨c, s, t⟩ :: (t.after c s).1.log (t.after c s).2 ts

/-- The requests that a client has sent, or would have if they could be written. -/
def sent (log : List Encounter) : List (Tagged Request) := log.filterMap Encounter.request?

/-- The tag of a request, by the number of those before it. -/
def Client.tagAt (n : Nat) : UInt16 := UInt16.ofNat (1 + n % 65534)

/-! ## One request -/

theorem Share.respond_of_request {s : Share} {tag : UInt16} {r : Request} {frame out : Bytes}
    (hf : Frame.ofRequest ⟨tag, r⟩ = .ok frame) (hout : (s.respond frame).1 = some out) :
    Frame.toReply out = .ok ⟨tag, s.replyTo frame⟩ ∧
      ((∃ e, s.replyTo frame = .error e) ∨ (s.replyTo frame).code = r.code + 1) := by
  obtain ⟨payload, hm⟩ := Request.make_of_ofRequest hf
  have hh := Frame.header_make hm
  rw [respond_fst hh, encode_eq_some_iff] at hout
  refine ⟨Reply.toReply_of_ofReply hout, ?_⟩
  rcases replyTo_cases (s := s) hh with ⟨e, -, he⟩ | ⟨m, -, -, hcode, -, hreply, -⟩
  · exact .inl ⟨e, he⟩
  · refine .inr ?_
    rw [hreply, hcode]

namespace Client

variable {c : Client} {s : Share} {r : Request} {m : Tagged Reply} {op : Operation}

theorem exchange_fst : (c.exchange r s).1 =
    match Frame.ofRequest ⟨c.nextTag, r⟩ with
    | .error e => .error (.codec e)
    | .ok frame => receive (s.respond frame).1 := by
  unfold exchange
  cases Frame.ofRequest ⟨c.nextTag, r⟩ <;> rfl

theorem receive_eq_ok_iff {back : Option Bytes} :
    receive back = .ok m ↔ ∃ out, back = some out ∧ Frame.toReply out = .ok m := by
  cases back with
  | none => simp [receive]
  | some out => simp [receive, Outcome.mapError_eq_ok_iff]

/-- **What comes back is under the tag of the request.** -/
theorem exchange_tag (hm : (c.exchange r s).1 = .ok m) : m.tag = c.nextTag := by
  rw [exchange_fst] at hm
  cases hf : Frame.ofRequest ⟨c.nextTag, r⟩ with
  | error e =>
    rw [hf] at hm
    cases hm
  | ok frame =>
    rw [hf] at hm
    obtain ⟨out, ho, hr⟩ := receive_eq_ok_iff.mp hm
    rw [(Share.respond_of_request hf ho).1] at hr
    cases hr
    rfl

theorem accept_eq_ok {tag : UInt16} {reply : Reply} (hr : ∀ e, reply ≠ .error e) :
    accept ⟨tag, reply⟩ = .ok reply := by
  cases reply with
  | error e => exact absurd rfl (hr e)
  | _ => rfl

/-- **A request that is sent has an outcome.** -/
theorem send_outcome (c : Client) (r : Request) (s : Share) : c.Outcome r s (c.send r s).1 := by
  have hsend : (c.send r s).1 = (c.exchange r s).1.bind accept := rfl
  rw [hsend, exchange_fst]
  cases hf : Frame.ofRequest ⟨c.nextTag, r⟩ with
  | error e => exact .unwritable hf
  | ok frame =>
    simp only
    cases ho : (s.respond frame).1 with
    | none => exact .dropped hf ho
    | some out =>
      obtain ⟨hr, hkind⟩ := Share.respond_of_request hf ho
      have hreceive : receive (some out) = .ok ⟨c.nextTag, s.replyTo frame⟩ :=
        receive_eq_ok_iff.mpr ⟨out, rfl, hr⟩
      rw [hreceive]
      change Outcome c r s (accept ⟨c.nextTag, s.replyTo frame⟩)
      -- `Outcome.reply` is for any reply that is no error, so the two are told apart first.
      by_cases herr : ∃ e, s.replyTo frame = .error e
      · obtain ⟨e, he⟩ := herr
        rw [he] at hr ⊢
        exact .refused hf ho hr
      · rw [accept_eq_ok fun e he => herr ⟨e, he⟩]
        exact .reply hf ho hr (hkind.resolve_left herr)

end Client

/-! ## One call -/

theorem Reply.args?_join (op : Operation) (a : Reply.Args op) :
    (Reply.join op a).args? op = some a := by
  simp [Reply.args?]

theorem Call.code_request {op : Operation} (q : Call op) : q.request.code = op.code := by
  cases q <;> rfl

theorem Share.replyTo_version {s : Share} {frame : Bytes} {tag : UInt16} {msize n : UInt32}
    {v w : String} (hm : Frame.toRequest frame = .ok ⟨tag, .version msize v⟩)
    (hr : s.replyTo frame = .version n w) : w = protocolVersion := by
  unfold replyTo at hr
  simp only [hm] at hr
  cases ha : (s.answer (.version msize v)).1 with
  | error e =>
    rw [ha] at hr
    cases hr
  | ok reply =>
    rw [ha] at hr
    obtain rfl : reply = .version n w := hr
    have hperform : Except.ok (Reply.version msize protocolVersion) = Except.ok (.version n w) :=
      (answer_eq_ok_iff.mp ha).1
    cases hperform
    rfl

namespace Client

variable {c : Client} {s : Share} {op : Operation} {q : Call op}

theorem Outcome.value {a : Reply.Args op} (h : c.Outcome q.request s (.ok (Reply.join op a))) :
    ∃ v, Call.value op a = .ok v := by
  cases q with
  | version msize =>
    obtain ⟨n, w⟩ := a
    cases h with
    | @reply frame out _ hf ho hr hc =>
      have hm : Frame.toRequest frame = .ok ⟨c.nextTag, .version msize protocolVersion⟩ :=
        Request.toRequest_of_ofRequest .version (msize, protocolVersion) hf
      have hreply : s.replyTo frame = .version n w := by
        rw [(Share.respond_of_request hf ho).1] at hr
        exact congrArg Tagged.body (Except.ok.inj hr)
      exact ⟨n, if_pos (Share.replyTo_version hm hreply)⟩
  | _ => exact ⟨_, rfl⟩

/-- **A call is concluded.** -/
theorem ask_concludes (c : Client) (q : Call op) (s : Share) :
    c.Concludes q s (c.ask q s).1 := by
  have hask : (c.ask q s).1 = Call.conclude op (c.send q.request s).1 := rfl
  have ho := send_outcome c q.request s
  rw [hask]
  cases hsend : (c.send q.request s).1 with
  | error e =>
    rw [hsend] at ho
    exact .failed ho
  | ok reply =>
    rw [hsend] at ho
    obtain ⟨a, rfl⟩ : ∃ a, reply = Reply.join op a := by
      cases ho with
      | reply hf hout hr hc =>
        rw [q.code_request] at hc
        exact Reply.exists_eq_join hc
    obtain ⟨v, hv⟩ := ho.value
    have hconclude : Call.conclude op (.ok (Reply.join op a)) = .ok v := by
      simp only [Call.conclude, Reply.args?_join, hv]
    rw [hconclude]
    exact .value ho hv

theorem ask_possible (c : Client) (q : Call op) (s : Share) :
    (∀ op', (c.ask q s).1 ≠ .error (.otherReply op')) ∧
      ∀ v, (c.ask q s).1 ≠ .error (.otherVersion v) := by
  have h := ask_concludes c q s
  constructor
  all_goals
    intro _ he
    rw [he] at h
    cases h

/-! ## Tags -/

theorem toNat_tagAt (n : Nat) : (tagAt n).toNat = 1 + n % 65534 := by
  have h : 1 + n % 65534 < UInt16.size := by
    have hn : n % 65534 < 65534 := Nat.mod_lt n (by decide)
    change _ < 65536
    omega
  exact UInt16.toNat_ofNat_of_lt' h

theorem tagAfter_tagAt (n : Nat) : tagAfter (tagAt n) = tagAt (n + 1) := by
  have hn := toNat_tagAt n
  have hlt : n % 65534 < 65534 := Nat.mod_lt n (by decide)
  have hadd : (tagAt n + 1).toNat = 2 + n % 65534 := by
    rw [UInt16.toNat_add, hn]
    change (1 + n % 65534 + 1) % 65536 = _
    omega
  apply UInt16.toNat_inj.mp
  rw [toNat_tagAt]
  unfold tagAfter
  split
  next hno =>
    have hlast := congrArg UInt16.toNat hno
    rw [hadd] at hlast
    change 2 + n % 65534 = 65535 at hlast
    change 1 = _
    omega
  next hno =>
    have hlast : 2 + n % 65534 ≠ 65535 := by
      rw [← hadd]
      exact fun he => hno (UInt16.toNat_inj.mp he)
    rw [hadd]
    omega

/-- The tag after 65534 is the first one. -/
example : tagAt 65533 = 65534 ∧ tagAt 65534 = 1 := by decide

theorem tagAt_bounds (n : Nat) :
    (tagAt n).toNat = 1 + n % 65534 ∧ tagAt n ≠ 0 ∧ tagAt n ≠ noTag := by
  have hn := toNat_tagAt n
  have hlt : n % 65534 < 65534 := Nat.mod_lt n (by decide)
  refine ⟨hn, fun he => ?_, fun he => ?_⟩
  · rw [he] at hn
    change 0 = _ at hn
    omega
  · rw [he] at hn
    change 65535 = _ at hn
    omega

/-- Between two requests under one tag there are at least 65533 others. -/
theorem tagAt_apart {i j : Nat} (hij : i < j) (h : tagAt i = tagAt j) : 65533 ≤ j - i - 1 := by
  have hmod : 1 + i % 65534 = 1 + j % 65534 := by
    rw [← toNat_tagAt, h, toNat_tagAt]
  omega

theorem exchange_client (c : Client) (r : Request) (s : Share) :
    (c.exchange r s).2.2.1 = c.advance := by
  unfold exchange
  cases Frame.ofRequest ⟨c.nextTag, r⟩ <;> rfl

theorem nextTag_learn (c : Client) (reply : Except ClientError Reply) :
    (c.learn reply).nextTag = c.nextTag := by
  unfold learn
  split
  · split <;> rfl
  · rfl

end Client

namespace Turn

variable {t : Turn} {r : Request}

theorem nextTag_after (hr : t.request? = some r) (c : Client) (s : Share) :
    (t.after c s).1.nextTag = Client.tagAfter c.nextTag := by
  have hsend (r : Request) : (c.send r s).2.2.1.nextTag = Client.tagAfter c.nextTag :=
    congrArg Client.nextTag (c.exchange_client r s)
  cases t with
  | call q => exact (Client.nextTag_learn _ _).trans (hsend q.request)
  | request r => exact hsend r
  | other e => cases hr

theorem after_of_no_request (hr : t.request? = none) (c : Client) (s : Share) :
    (t.after c s).1 = c := by
  cases t with
  | other e => rfl
  | _ => cases hr

end Turn

namespace Client

/-- **The requests of a client are under one tag after the other.** -/
theorem sent_eq {c : Client} {k : Nat} (hc : c.nextTag = tagAt k) (s : Share) (turns : List Turn) :
    sent (c.log s turns) =
      (turns.filterMap Turn.request?).mapIdx fun n r => ⟨tagAt (k + n), r⟩ := by
  induction turns generalizing c s k with
  | nil => rfl
  | cons t ts ih =>
    -- A request takes the tag of `k`, whatever comes of it, and later ones go on from there.
    cases hr : t.request? with
    | none =>
      have hx : Encounter.request? ⟨c, s, t⟩ = none := by
        rw [Encounter.request?, hr, Option.map_none]
      rw [List.filterMap_cons_none hr, log, sent, List.filterMap_cons_none hx]
      exact ih (by rwa [Turn.after_of_no_request hr]) _
    | some r =>
      have hx : Encounter.request? ⟨c, s, t⟩ = some ⟨tagAt k, r⟩ := by
        rw [Encounter.request?, hr, Option.map_some, hc]
      have hnext : (t.after c s).1.nextTag = tagAt (k + 1) := by
        rw [Turn.nextTag_after hr, hc, tagAfter_tagAt]
      rw [List.filterMap_cons_some hr, log, sent, List.filterMap_cons_some hx, List.mapIdx_cons]
      refine congrArg _ ((ih hnext _).trans ?_)
      simp only [Nat.add_assoc, Nat.add_comm 1]

end Client

/-! ## Any number of calls -/

theorem Encounter.asExpected (x : Encounter) : x.AsExpected where
  tag _ _ _ hm := Client.exchange_tag hm
  request r _ := Client.send_outcome x.client r x.share
  call q _ := Client.ask_concludes x.client q x.share
  possible q _ := Client.ask_possible x.client q x.share

/-- **What a client takes for granted holds at every turn, with every share and whatever happens
besides.** What comes back is under the tag of the request. A call gives the value of a reply of its
operation, the error that was sent, or nothing because nothing came back or the request cannot be
written. The requests are under the tags from 1 to 65534 in turn, those that cannot be written among
them: none is under a tag that stands for none, and a tag comes again only after 65533 other
requests. -/
theorem Client.calls_conclude (s : Share) (turns : List Turn) :
    (∀ x ∈ Client.new.log s turns, x.AsExpected) ∧
      sent (Client.new.log s turns) =
        (turns.filterMap Turn.request?).mapIdx (fun n r => ⟨tagAt n, r⟩) ∧
      (∀ n, (tagAt n).toNat = 1 + n % 65534 ∧ tagAt n ≠ 0 ∧ tagAt n ≠ noTag) ∧
      ∀ i j, i < j → tagAt i = tagAt j → 65533 ≤ j - i - 1 := by
  refine ⟨fun x _ => x.asExpected, ?_, tagAt_bounds, fun _ _ => tagAt_apart⟩
  have hfirst : Client.new.nextTag = tagAt 0 := rfl
  rw [sent_eq hfirst]
  simp only [Nat.zero_add]

end GuestShare
