import GuestShare.Proofs.Share.Durability
import GuestShare.Proofs.Share.Failure

/-!
# Histories

A server answers frames, new clients take over, and others change its host meanwhile. What it holds
at some time may depend on all that has happened since it started.

* `Happening`, `Share.take`: what happens to a server, and what becomes of its share.
* `Moment`: a happening with the share that it found, and the request in it if it is a frame.
* `Share.History`, `Share.log`: the moments of a server in order, and its share after them.
* **`History.root_eq`**: it exports one directory.
* **`History.not_pending`**: nothing is left to write as long as the records can be written.
-/

namespace GuestShare

/-- What happens to a server. -/
inductive Happening
  | frame (bs : Bytes)
  /-- A new client takes over. -/
  | client
  /-- Somebody else changes the host. -/
  | host (h : Host)

/-- The request begins a session. -/
def Request.BeginsSession : Request → Prop
  | .version .. => True
  | _ => False

/-- The share after something happened. -/
def Share.take (s : Share) : Happening → Share
  | .frame bs => (s.respond bs).2.2
  | .client => s.reset
  | .host h => s.on h

/-- A happening, and the share that it found. -/
structure Moment where
  share : Share
  happening : Happening

namespace Moment

/-- The request that arrived, if any did. -/
def request? (x : Moment) : Option (Tagged Request) :=
  match x.happening with
  | .frame bs => (Frame.toRequest bs).toOption
  | _ => none

/-- The share after the moment. -/
def after (x : Moment) : Share := x.share.take x.happening

/-- A session begins, with a new client or by a request. -/
def BeginsSession (x : Moment) : Prop :=
  x.happening = .client ∨ ∃ m, x.request? = some m ∧ m.body.BeginsSession

/-- The records could be written after the request, if there was one. -/
def RecordsWritten (x : Moment) : Prop :=
  ∀ m, x.request? = some m → (x.share.perform m.body).2.flushRecords.1 = .ok ()

end Moment

/-- What has happened to a server since it started, and its share now. -/
inductive Share.History (s₀ : Share) : List Moment → Share → Prop
  | start : History s₀ [] s₀
  | next {log : List Moment} {s : Share} (e : Happening) :
      History s₀ log s → History s₀ (log ++ [⟨s, e⟩]) (s.take e)

/-- The moments of what happens to a share. -/
def Share.log (s : Share) : List Happening → List Moment
  | [] => []
  | e :: es => ⟨s, e⟩ :: (s.take e).log es

namespace Share

variable {s : Share}

theorem flushRecords_fids : s.flushRecords.2.fids = s.fids := rfl

theorem flushRecords_root : s.flushRecords.2.root = s.root := rfl

theorem flushRecords_msize : s.flushRecords.2.msize = s.msize := rfl

end Share

namespace Moment

variable {x : Moment} {m : Tagged Request}

theorem request?_eq_some_iff :
    x.request? = some m ↔ ∃ bs, x.happening = .frame bs ∧ Frame.toRequest bs = .ok m := by
  unfold request?
  cases x.happening with
  | frame bs =>
    cases hm : Frame.toRequest bs with
    | error e => simp [Except.toOption, hm]
    | ok m' => simp [Except.toOption, hm]
  | _ => simp

theorem after_cases (x : Moment) :
    (∃ m, x.request? = some m ∧ x.after = (x.share.perform m.body).2.flushRecords.2) ∨
      (x.request? = none ∧ ∃ bs, x.happening = .frame bs ∧ x.after = x.share) ∨
      (x.request? = none ∧ x.happening = .client ∧ x.after = x.share.reset) ∨
      x.request? = none ∧ ∃ h, x.happening = .host h ∧ x.after = x.share.on h := by
  rcases x with ⟨s, bs | _ | h⟩
  · rcases Share.respond_cases s bs with ⟨e, hm, hafter, -⟩ | ⟨m, hm, hafter, -⟩
    · exact .inr (.inl ⟨by simp only [request?, hm]; rfl, bs, rfl, hafter⟩)
    · exact .inl ⟨m, by simp only [request?, hm]; rfl, hafter⟩
  · exact .inr (.inr (.inl ⟨rfl, rfl, rfl⟩))
  · exact .inr (.inr (.inr ⟨rfl, h, rfl, rfl⟩))

/-- What holds before a moment holds after it, if a request with the writing of the records, a new
client and a change of the host all leave it so. -/
theorem holds_after {P : Share → Prop} (x : Moment) (hx : P x.share)
    (hrequest : ∀ m, x.request? = some m → P (x.share.perform m.body).2.flushRecords.2)
    (hclient : P x.share.reset) (hhost : ∀ h, x.happening = .host h → P (x.share.on h)) :
    P x.after := by
  obtain ⟨m, hm, ha⟩ | ⟨-, bs, -, ha⟩ | ⟨-, -, ha⟩ | ⟨-, h, he, ha⟩ := x.after_cases <;> rw [ha]
  · exact hrequest m hm
  · exact hx
  · exact hclient
  · exact hhost h he

theorem beginsSession_iff_of_request (hm : x.request? = some m) :
    x.BeginsSession ↔ m.body.BeginsSession := by
  unfold BeginsSession
  rw [hm]
  constructor
  · rintro (hx | ⟨_, hm', hb⟩)
    · rw [request?, hx] at hm
      cases hm
    · cases hm'
      exact hb
  · exact fun hb => .inr ⟨m, rfl, hb⟩

theorem beginsSession_iff_of_no_request (hm : x.request? = none) :
    x.BeginsSession ↔ x.happening = .client := by
  unfold BeginsSession
  rw [hm]
  exact or_iff_left fun ⟨_, h, _⟩ => by cases h

theorem after_of_request (hm : x.request? = some m) :
    x.after = (x.share.perform m.body).2.flushRecords.2 := by
  obtain ⟨m', hm', hafter⟩ | ⟨hno, -⟩ | ⟨hno, -⟩ | ⟨hno, -⟩ := x.after_cases
  · cases hm.symm.trans hm'
    exact hafter
  all_goals cases hm.symm.trans hno

theorem RecordsWritten.answer_eq (hw : x.RecordsWritten) (hm : x.request? = some m) :
    (x.share.answer m.body).1 = (x.share.perform m.body).1 := by
  have hf := hw m hm
  unfold Share.answer
  rcases hp : x.share.perform m.body with ⟨result, s₁⟩
  rw [hp] at hf
  rcases hs : s₁.flushRecords with ⟨e | ⟨⟩, s₂⟩
  · rw [hs] at hf
    cases hf
  · simp only [hs]

end Moment

namespace Share

variable {s s₀ t : Share} {log : List Moment} {P : Share → Prop}

/-- **Whatever happens has a history.** -/
theorem History.extend (hr : s₀.History log s) (es : List Happening) :
    s₀.History (log ++ s.log es) (es.foldl take s) := by
  induction es generalizing s log with
  | nil => rwa [Share.log, List.append_nil]
  | cons e es ih =>
    have hnext := ih (hr.next e)
    rwa [List.append_assoc] at hnext

/-- What holds of a server when it starts, and stays whatever happens, holds at all times. -/
theorem History.invariant (hr : s₀.History log t) (h₀ : P s₀)
    (hstep : ∀ x ∈ log, P x.share → P x.after) : P t := by
  induction hr with
  | start => exact h₀
  | @next log s e _ ih =>
    have hP := ih fun x hx => hstep x (List.mem_append_left _ hx)
    exact hstep ⟨s, e⟩ (List.mem_append_right _ List.mem_cons_self) hP

theorem History.before (hr : s₀.History log t) {x : Moment} (hx : x ∈ log) :
    ∃ front, s₀.History front x.share ∧ front ⊆ log := by
  induction hr with
  | start => cases hx
  | @next log s e hr ih =>
    rcases List.mem_append.mp hx with hx | hx
    · obtain ⟨front, hfront, hsub⟩ := ih hx
      exact ⟨front, hfront, fun y hy => List.mem_append_left _ (hsub hy)⟩
    · rw [List.mem_singleton.mp hx]
      exact ⟨log, hr, List.subset_append_left _ _⟩

/-- **A server exports one directory.** -/
theorem History.root_eq (hr : s₀.History log t) : t.root = s₀.root := by
  refine hr.invariant (P := fun s => s.root = s₀.root) rfl fun x _ hx => ?_
  refine x.holds_after (P := fun s => s.root = s₀.root) hx (fun m _ => ?_) hx fun _ _ => hx
  rw [flushRecords_root, (perform_evolves _ _).root_eq, hx]

/-- **Nothing is left to write as long as the records can be written.** -/
theorem History.not_pending (hr : s₀.History log t) (h₀ : s₀.store.hasPending = false)
    (hw : ∀ x ∈ log, x.RecordsWritten) : t.store.hasPending = false := by
  refine hr.invariant (P := fun s => s.store.hasPending = false) h₀ fun x hx hp => ?_
  refine x.holds_after (P := fun s => s.store.hasPending = false) hp (fun m hm => ?_) hp
    fun _ _ => hp
  exact Store.hasPending_flush (hw x hx m hm)

end Share

end GuestShare
