import GuestShare.Bytes
import GuestShare.Wire.Error

/-!
# Readers

A reader takes what it reads off the front of the bytes. The bytes left over are known even when
it fails: a failed field keeps what it had read in full.

* `Reader`: readers, with `pure`, `bind` and `fail`.
* `Reader.take`: the next bytes, by number; it takes all of them or none.
* `Reader.u8`, `u16`, `u32`, `u64`, `text`, `blob`: the fields that messages are made of.
* `Reader.times`, `Reader.untilEnd`: lists with a known number of items, and lists that go on to
  the end of the bytes.
-/

namespace GuestShare

/-- What reading gives, and the bytes that are left. -/
def Reader (α : Type) : Type := Bytes → Except WireError α × Bytes

namespace Reader

variable {α β : Type}

/-- Take a value off the front of `bs`. -/
def run (r : Reader α) (bs : Bytes) : Except WireError α × Bytes := r bs

/-- Fail, and take nothing. -/
def fail (e : WireError) : Reader α := fun bs => (.error e, bs)

instance : Monad Reader where
  pure a := fun bs => (.ok a, bs)
  bind r f := fun bs =>
    match r bs with
    | (.ok a, rest) => f a rest
    | (.error e, rest) => (.error e, rest)

@[simp] theorem run_pure (a : α) (bs : Bytes) : (pure a : Reader α).run bs = (.ok a, bs) := rfl

@[simp] theorem run_fail (e : WireError) (bs : Bytes) :
    (fail e : Reader α).run bs = (.error e, bs) := rfl

theorem run_bind (r : Reader α) (f : α → Reader β) (bs : Bytes) :
    (r >>= f).run bs =
      match r.run bs with
      | (.ok a, rest) => (f a).run rest
      | (.error e, rest) => (.error e, rest) := rfl

theorem run_bind_ok {r : Reader α} {f : α → Reader β} {bs rest : Bytes} {a : α}
    (h : r.run bs = (.ok a, rest)) : (r >>= f).run bs = (f a).run rest := by
  rw [run_bind, h]

theorem run_bind_eq_ok_iff {r : Reader α} {f : α → Reader β} {bs rest : Bytes} {b : β} :
    (r >>= f).run bs = (.ok b, rest) ↔
      ∃ a mid, r.run bs = (.ok a, mid) ∧ (f a).run mid = (.ok b, rest) := by
  rw [run_bind]
  rcases h : r.run bs with ⟨e | a, mid⟩
  · simp
  · constructor
    · intro hf
      exact ⟨a, mid, rfl, hf⟩
    · rintro ⟨a', mid', he, hf⟩
      cases he
      exact hf

theorem run_map (g : α → β) (r : Reader α) (bs : Bytes) :
    (g <$> r).run bs =
      match r.run bs with
      | (.ok a, rest) => (.ok (g a), rest)
      | (.error e, rest) => (.error e, rest) := rfl

/-! ## Fields -/

/-- The next `n` bytes. -/
def take (n : Nat) : Reader Bytes := fun bs =>
  let front := bs.take n
  if front.length = n then (.ok front, bs.drop n) else (.error .truncated, bs)

/-- One byte. -/
def u8 : Reader UInt8
  | [] => (.error .truncated, [])
  | b :: bs => (.ok b, bs)

/-- A 16-bit word. -/
def u16 : Reader UInt16 := do return Bytes.toU16 (← take 2)

/-- A 32-bit word. -/
def u32 : Reader UInt32 := do return Bytes.toU32 (← take 4)

/-- A 64-bit word. -/
def u64 : Reader UInt64 := do return Bytes.toU64 (← take 8)

/-- A text: a 16-bit length, then UTF-8. -/
def text : Reader String := do
  let n ← u16
  let bs ← take n.toNat
  match Bytes.toText? bs with
  | some s => return s
  | none => fail .invalidText

/-- A run of bytes behind a 32-bit length. -/
def blob : Reader Bytes := do
  let n ← u32
  take n.toNat

/-- Whether at least `n` bytes are left. -/
def hasLeft (n : Nat) : Reader Bool := fun bs => (.ok ((bs.take n).length = n), bs)

/-! ## Lists -/

/-- `n` items, one after another, behind those of `done`, which has the last one first. -/
def timesOnto (r : Reader α) : (n : Nat) → (done : List α) → Reader (List α)
  | 0, done, bs => (.ok done.reverse, bs)
  | n + 1, done, bs =>
    match r bs with
    | (.ok a, rest) => timesOnto r n (a :: done) rest
    | (.error e, rest) => (.error e, rest)

/-- `n` items, one after another. -/
def times (r : Reader α) (n : Nat) : Reader (List α) := timesOnto r n []

/-- Items up to the end of the bytes, at most `limit` of them, behind those of `done`. -/
def untilEndOnto (r : Reader α) : (limit : Nat) → (done : List α) → Reader (List α)
  | _, done, [] => (.ok done.reverse, [])
  | 0, done, b :: bs => (.ok done.reverse, b :: bs)
  | n + 1, done, b :: bs =>
    match r (b :: bs) with
    | (.ok a, rest) => untilEndOnto r n (a :: done) rest
    | (.error e, rest) => (.error e, rest)

/-- Items up to the end of the bytes. No item is empty, so there are at most as many as bytes. -/
def untilEnd (r : Reader α) : Reader (List α) := fun bs => untilEndOnto r bs.length [] bs

theorem timesOnto_eq (r : Reader α) (n : Nat) (done : List α) (bs : Bytes) :
    timesOnto r n done bs =
      match times r n bs with
      | (.ok as, rest) => (.ok (done.reverse ++ as), rest)
      | (.error e, rest) => (.error e, rest) := by
  unfold times
  induction n generalizing done bs with
  | zero => simp [timesOnto]
  | succ n ih =>
    rcases h : r bs with ⟨e | a, rest⟩
    · simp [timesOnto, h]
    · simp only [timesOnto, h]
      rw [ih (a :: done), ih [a]]
      rcases timesOnto r n [] rest with ⟨e | as, rest'⟩ <;> simp

@[simp] theorem run_times_zero (r : Reader α) (bs : Bytes) :
    (times r 0).run bs = (.ok [], bs) := rfl

/-- One more item is the first one, then the others. -/
theorem run_times_succ (r : Reader α) (n : Nat) (bs : Bytes) :
    (times r (n + 1)).run bs =
      (do let a ← r; let as ← times r n; return a :: as : Reader _).run bs := by
  rw [run_bind]
  unfold times run
  rw [timesOnto]
  rcases h : r bs with ⟨e | a, rest⟩
  · rfl
  · simp only
    rw [timesOnto_eq]
    change _ = (times r n >>= fun as => pure (a :: as)).run rest
    rw [run_bind]
    unfold run
    rcases times r n rest with ⟨e | as, rest'⟩ <;> simp
    rfl

/-- Read `inner` from the bytes given, not from those at hand. -/
def within (bs : Bytes) (inner : Reader α) : Reader α := fun rest => ((inner bs).1, rest)

end Reader

end GuestShare
