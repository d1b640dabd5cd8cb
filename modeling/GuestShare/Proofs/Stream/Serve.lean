import GuestShare.Proofs.Share.ConfinedRun
import GuestShare.Proofs.Stream.Cut
import GuestShare.Stream.Socket

/-!
# Streams are served frame by frame

Whatever arrives, and however it is cut into chunks, a server answers the whole frames one after the
other, and stops where there are no more. A client leaves nothing to the next one but what it did to
the host and to the records.

* `Share.replies`: what is sent back for some frames.
* `Sink.Takes`: a sink that has room for some bytes.
* `Share.Answers`: a stream is served as the frames that it begins with.
* `Share.Follows`, `Share.Connects`: a share as a client finds it after another one, and what comes
  of a connection.
* **`serveFrames_eq`**, **`serveConnections_connects`**: frames answered, and connections served.
* **`serve_framewise`**: streams are served frame by frame, and connections one by one.
-/

namespace GuestShare

/-- The sink takes as many bytes. -/
def Sink.Takes (k : Sink) (n : Nat) : Prop := ∀ room, k.room = some room → n ≤ room

namespace Sink

variable {k : Sink} {bs : Bytes} {n : Nat}

theorem write_of_takes (hk : k.Takes (bs.length + n)) :
    ∃ k', k.write bs = (true, k') ∧ k'.written = k.written ++ bs ∧ k'.Takes n := by
  unfold write
  cases hroom : k.room with
  | none =>
    refine ⟨_, rfl, by simp [written], fun room hr => ?_⟩
    cases hr
  | some room =>
    have hle : bs.length + n ≤ room := hk room hroom
    have htake : bs.take room = bs := List.take_of_length_le (by omega)
    refine ⟨⟨bs :: k.parts, some (room - bs.length)⟩, ?_, by simp [written], fun room' hr => ?_⟩
    · simp only [htake, decide_true]
    · cases hr
      omega

end Sink

namespace Share

/-- What is sent back for some frames. -/
def replies (s : Share) : List Bytes → List Bytes
  | [] => []
  | frame :: frames => (s.respond frame).1.toList ++ (s.respond frame).2.2.replies frames

/-- The stream is served as these frames, with the rest behind them. Every reply is written, and
what ends the stream is told at last. -/
structure Answers (s : Share) (source : Source) (sink : Sink) (frames : List Bytes) (rest : Bytes) :
    Prop where
  share : (s.serveStream source sink).share = s.run frames
  written : (s.serveStream source sink).sink.written =
    sink.written ++ (s.replies frames).flatten
  result : (s.serveStream source sink).result =
    match ending rest source.failure? with
    | none => .ok frames.length
    | some e => .error e

/-- The share as a client finds it after another one: without fids and with messages of the greatest
size, and else as it was left. -/
structure Follows (s : Share) (left : Share) : Prop where
  fids : s.fids = ∅
  msize : s.msize = defaultMsize
  host : s.host = left.host
  store : s.store = left.store
  root : s.root = left.root
  iounit : s.iounit = left.iounit

/-- What comes of a connection is what comes of its stream, served to a share that follows the one
before. What is left follows the one that the stream leaves. -/
def Connects (before : Share) (c : Connection) (served : Served) (left : Share) : Prop :=
  ∃ t : Share, t.Follows before ∧
    served.sink = (t.serveStream c.source (.empty c.room)).sink ∧
    served.result = (t.serveStream c.source (.empty c.room)).result ∧
    left.Follows (t.serveStream c.source (.empty c.room)).share

variable {s : Share} {source : Source} {sink : Sink} {frames : List Bytes} {c : Connection}
  {cs back : List Connection}

/-! ## Streams -/

/-- **Frames are answered one after the other**, as long as the replies are taken. -/
theorem serveFrames_eq (handled : Nat) (hk : sink.Takes (s.replies frames).flatten.length) :
    ∃ sink' notices, serveFrames frames handled s sink =
        ⟨s.run frames, sink', notices, .ok (handled + frames.length)⟩ ∧
      sink'.written = sink.written ++ (s.replies frames).flatten := by
  induction frames generalizing handled s sink with
  | nil => exact ⟨sink, [], rfl, by simp [replies]⟩
  | cons frame frames ih =>
    rcases hr : s.respond frame with ⟨_ | bs, notices, s'⟩
    · have hreplies : s.replies (frame :: frames) = s'.replies frames := by rw [replies, hr]; rfl
      rw [hreplies] at hk ⊢
      obtain ⟨sink', more, hserved, hwritten⟩ := ih (handled + 1) hk
      refine ⟨sink', notices ++ more, ?_, hwritten⟩
      simp only [serveFrames, hr, if_true, hserved, run, List.length_cons]
      rw [Nat.add_right_comm, Nat.add_assoc]
    · have hreplies : s.replies (frame :: frames) = bs :: s'.replies frames := by
        rw [replies, hr]
        rfl
      rw [hreplies, List.flatten_cons] at hk ⊢
      rw [List.length_append] at hk
      obtain ⟨sink₁, hwrite, hwritten₁, hk₁⟩ := Sink.write_of_takes hk
      obtain ⟨sink', more, hserved, hwritten⟩ := ih (handled + 1) hk₁
      refine ⟨sink', notices ++ more, ?_, ?_⟩
      · simp only [serveFrames, hr, hwrite, if_true, hserved, run, List.length_cons]
        rw [Nat.add_right_comm, Nat.add_assoc]
      · rw [hwritten, hwritten₁, List.append_assoc]

/-- **A stream is served as the frames that it begins with.** -/
theorem answers_of_cut {rest : Bytes} (hc : Cut source.bytes frames rest)
    (hk : sink.Takes (s.replies frames).flatten.length) : s.Answers source sink frames rest := by
  obtain ⟨rest', hcut, hend⟩ := source.cut_frames
  obtain ⟨rfl, rfl⟩ := hc.unique hcut
  obtain ⟨sink', notices, hserved, hwritten⟩ := serveFrames_eq 0 hk
  have hstream : s.serveStream source sink =
      match ending rest source.failure? with
      | none => ⟨s.run source.frames.1, sink', notices, .ok source.frames.1.length⟩
      | some e => ⟨s.run source.frames.1, sink', notices, .error e⟩ := by
    unfold serveStream
    simp only [hserved, hend, Nat.zero_add]
    cases ending rest source.failure? <;> rfl
  cases he : ending rest source.failure? with
  | none =>
    rw [he] at hstream
    exact ⟨by rw [hstream], by rw [hstream]; exact hwritten, by rw [hstream, he]⟩
  | some e =>
    rw [he] at hstream
    exact ⟨by rw [hstream], by rw [hstream]; exact hwritten, by rw [hstream, he]⟩

/-! ## Connections -/

theorem reset_follows (s : Share) : s.reset.Follows s := ⟨rfl, rfl, rfl, rfl, rfl, rfl⟩

theorem serveConnections_append :
    s.serveConnections (cs ++ back) =
      ((s.serveConnections cs).1 ++ ((s.serveConnections cs).2.serveConnections back).1,
        ((s.serveConnections cs).2.serveConnections back).2) := by
  induction cs generalizing s with
  | nil => rfl
  | cons c cs ih => simp only [List.cons_append, serveConnections, ih]

theorem length_serveConnections : (s.serveConnections cs).1.length = cs.length := by
  induction cs generalizing s with
  | nil => rfl
  | cons c cs ih => simp only [serveConnections, List.length_cons, ih]

/-- **Every connection is served for itself.** -/
theorem serveConnections_connects (s : Share) (front : List Connection) (c : Connection)
    (back : List Connection) :
    ∃ served, (s.serveConnections (front ++ c :: back)).1[front.length]? = some served ∧
      Connects (s.serveConnections front).2 c served (s.serveConnections (front ++ [c])).2 := by
  refine ⟨(s.serveConnections front).2.serveClient c, ?_, (s.serveConnections front).2.reset,
    reset_follows _, rfl, rfl, ?_⟩
  · rw [serveConnections_append]
    simp only [serveConnections]
    rw [List.getElem?_append_right (Nat.le_of_eq length_serveConnections), length_serveConnections,
      Nat.sub_self]
    rfl
  · rw [serveConnections_append]
    exact reset_follows _

/-- **Streams are served frame by frame, and connections one by one.** Of a stream, however it is
cut, the whole frames at its beginning are answered in order, if the replies are taken; it is served
to its end if it ends behind a frame, and else to a size that no frame may have, or to where it ends
within a frame or fails. Each client finds a share without fids, with the host and the records that
the one before has left. -/
theorem serve_framewise (s : Share) :
    (∀ source sink, ∃ frames rest, Cut source.bytes frames rest ∧
      (sink.Takes (s.replies frames).flatten.length → s.Answers source sink frames rest)) ∧
    ∀ front c back, ∃ served,
      (s.serveConnections (front ++ c :: back)).1[front.length]? = some served ∧
        Connects (s.serveConnections front).2 c served (s.serveConnections (front ++ [c])).2 := by
  refine ⟨fun source sink => ?_, s.serveConnections_connects⟩
  obtain ⟨rest, hcut, -⟩ := source.cut_frames
  exact ⟨_, rest, hcut, answers_of_cut hcut⟩

/-- A stream that hands out a frame in two chunks, and one byte more. -/
def shortSource : Source :=
  [.data (attachFrame.take 2), .fail .interrupted, .data (attachFrame.drop 2 ++ [1])]

/-- The frame is answered. The stream ends within the next one. -/
theorem serve_framewise_short :
    ∃ s, (start ⟨"/export", "/meta", defaultIounit⟩ (.empty ⟨0, 0⟩)).1 = .ok s ∧
      s.Answers shortSource (.empty none) [attachFrame] [1] ∧
      ending [1] shortSource.failure? = some .unexpectedEnd := by
  have hwhole : Frame.Whole attachFrame := ⟨rfl, by decide⟩
  have hcut : Cut shortSource.bytes [attachFrame] [1] := by
    refine .cons hwhole (.nil fun frame rest hf he => ?_)
    have hlen : 1 = (frame ++ rest).length := congrArg List.length he
    have hwidth := hf.width_le
    rw [List.length_append] at hlen
    unfold sizeWidth at hwidth
    omega
  obtain ⟨s, hs⟩ : ∃ s, (start ⟨"/export", "/meta", defaultIounit⟩ (.empty ⟨0, 0⟩)).1 = .ok s :=
    ⟨_, rfl⟩
  obtain ⟨frames, rest, hc, ha⟩ := (serve_framewise s).1 shortSource (.empty none)
  obtain ⟨rfl, rfl⟩ := hc.unique hcut
  exact ⟨s, hs, ha fun room hr => (by cases hr), rfl⟩

end Share

end GuestShare
