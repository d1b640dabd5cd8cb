import GuestShare.Proofs.Host.Count
import GuestShare.Proofs.Metadata.Flush

/-!
# What writing the records leaves as it was

Writing changes the metadata directory and the files in it that it replaces, and makes directories
where the metadata path does not lead to one yet. Below any other node everything stays as it was,
link counts included.

* `Store.Touches`: the nodes that writing may change.
* **`flush_sameBelow`**: everything below a node stays if none of it is touched.
-/

namespace GuestShare

namespace Host

variable {h h' : Host} {ps : List Path} {k : Ino}

theorem Makes.namesOf (hm : Makes ps h h') (hk : k < h.nodes.size) :
    h'.namesOf k = h.namesOf k := by
  ext ⟨d, name⟩
  exact ⟨hm.puts.child?_old hk, hm.child?⟩

end Host

namespace Store

variable {s : Store} {h h' top : Host} {i k : Ino}

/-- The nodes that writing the records may change: the directories of the metadata path if some of
them are missing, the metadata directory, and the category files in it. -/
def Touches (s : Store) (h : Host) (i : Ino) : Prop :=
  (h.leadsToDirectory (dirPath s.dir) = false ∧
      (Host.makeDirs (dirPath s.dir) h).2.OnWay (dirPath s.dir) i) ∨
    ∃ place, (Host.makeDirs (dirPath s.dir) h).2.HasDir (dirPath s.dir) place ∧
      (i = place.ino ∨ ∃ c : Category,
        (Host.makeDirs (dirPath s.dir) h).2.child? place.ino (Name.ofText c.fileName) = some i)

theorem Writes.namesOf (hw : Writes s top h h') (hk : k < h.nodes.size)
    (hfree : ∀ place (c : Category), top.HasDir (dirPath s.dir) place →
      h.child? place.ino (Name.ofText c.fileName) ≠ some k) : h'.namesOf k = h.namesOf k := by
  induction hw with
  | refl => rfl
  | touch _ _ ih =>
    rw [← ih]
    ext ⟨d, name⟩
    rw [Host.mem_namesOf_iff, Host.mem_namesOf_iff, Host.child?_modifyEntries_id]
  | @write h₁ q c bs hw hq hd _ _ ih =>
    have hlt : k < h₁.nodes.size := Nat.lt_of_lt_of_le hk hw.puts.size_le
    have hno : h₁.child? q.ino (Name.ofText c.fileName) ≠ some k := fun hc => by
      rw [← Host.mem_namesOf_iff, ih, Host.mem_namesOf_iff] at hc
      exact hfree q c hq hc
    rw [← ih]
    ext ⟨d, name⟩
    rw [Host.mem_namesOf_iff, Host.mem_namesOf_iff, written,
      Host.child?_create (Body.bare_file _) hd]
    split_ifs with hnew
    · obtain ⟨rfl, rfl⟩ := hnew
      exact iff_of_false (fun hc => Nat.ne_of_gt hlt (Option.some.inj hc)) hno
    · rfl

theorem makeDirs_touches :
    Host.Puts (s.Touches h) h (Host.makeDirs (dirPath s.dir) h).2 := by
  cases hl : h.leadsToDirectory (dirPath s.dir) with
  | true =>
    rw [Host.makeDirs_of_leadsToDirectory hl]
    exact .refl
  | false => exact Host.makeDirs_puts.mono fun _ hi => .inl ⟨hl, hi⟩

/-- **Below a node of which writing touches nothing, everything stays as it was.** -/
theorem flush_sameBelow (hlt : ∀ ns j, h.descend i ns = some j → j < h.nodes.size)
    (ht : ∀ ns j, h.descend i ns = some j → ¬ s.Touches h j) :
    h.SameBelow (s.flush h).2.2 i := by
  obtain hsame | hw := s.flush_writes (h := h)
  · rw [hsame]
    exact .refl h i
  set top := (Host.makeDirs (dirPath s.dir) h).2 with htop
  have hmade : Host.Puts (s.Touches h) h top := makeDirs_touches
  have hputs : Host.Puts (s.Touches h) h (s.flush h).2.2 := by
    refine hmade.trans (hw.puts.mono ?_)
    rintro _ ⟨q, hq, rfl⟩
    exact .inr ⟨q, hq, .inl rfl⟩
  refine Host.sameBelow_of_node? (fun ns j hj => hputs.node?_eq (hlt ns j hj) (ht ns j hj))
    fun ns j hj _ => ?_
  have hmk : top.namesOf j = h.namesOf j := Host.makeDirs_makes.namesOf (hlt ns j hj)
  rw [hw.namesOf (Nat.lt_of_lt_of_le (hlt ns j hj) hmade.size_le) fun place c hplace hc =>
    ht ns j hj (.inr ⟨place, hplace, .inr ⟨c, hc⟩⟩), hmk]

end Store

end GuestShare
