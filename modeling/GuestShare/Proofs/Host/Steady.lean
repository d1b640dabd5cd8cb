import GuestShare.Proofs.Host.Relocation

/-!
# Nodes under changing names

What gives nodes names or takes names away, and what puts new nodes beside others, leaves each node
as it was: only directories get other entries and other times.

* `Inode.Like`: two nodes that differ, as directories, in their entries and times at most.
* `Host.Steady`: every node of a host is still there, and like before.
* **`Puts.steady`**, **`move_steady`**: what keeps all nodes so.
-/

namespace GuestShare

theorem Body.isDirectory_iff {b : Body} : b.isDirectory = true ↔ ∃ es, b = .directory es := by
  cases b <;> simp [isDirectory]

/-- The other node is the same but for the entries and the times of a directory. -/
structure Inode.Like (n n' : Inode) : Prop where
  mode : n'.mode = n.mode
  body : n'.body = n.body ∨ n.body.isDirectory = true ∧ n'.body.isDirectory = true

namespace Inode.Like

variable {n n' n'' : Inode}

theorem refl (n : Inode) : n.Like n := ⟨rfl, .inl rfl⟩

theorem trans (h₁ : n.Like n') (h₂ : n'.Like n'') : n.Like n'' where
  mode := h₂.mode.trans h₁.mode
  body := by
    rcases h₂.body with h₂ | ⟨hd, hd'⟩
    · rw [h₂]
      exact h₁.body
    · rcases h₁.body with h₁ | ⟨hd₁, -⟩
      · exact .inr ⟨h₁ ▸ hd, hd'⟩
      · exact .inr ⟨hd₁, hd'⟩

theorem body_eq (hl : n.Like n') (hd : n.body.isDirectory = false) : n'.body = n.body := by
  rcases hl.body with hb | ⟨hd', -⟩
  · exact hb
  · rw [hd] at hd'
    cases hd'

end Inode.Like

namespace Host

variable {h h' h'' : Host} {i j d d' : Ino} {name name' : Name} {b : Body} {mode : UInt32}

/-- Every node is still there, and like before. -/
def Steady (h h' : Host) : Prop :=
  ∀ i n, h.node? i = some n → ∃ n', h'.node? i = some n' ∧ n.Like n'

theorem Steady.refl (h : Host) : Steady h h := fun _ n hn => ⟨n, hn, .refl n⟩

theorem Steady.trans (h₁ : Steady h h') (h₂ : Steady h' h'') : Steady h h'' := by
  intro i n hn
  obtain ⟨n', hn', hl⟩ := h₁ i n hn
  obtain ⟨n'', hn'', hl'⟩ := h₂ i n' hn'
  exact ⟨n'', hn'', hl.trans hl'⟩

theorem Steady.file (hs : Steady h h') {c : Contents} (hc : h.body? i = some (.file c)) :
    h'.body? i = some (.file c) := by
  unfold body? at hc
  obtain ⟨n, hn, hb⟩ := Option.map_eq_some_iff.mp hc
  obtain ⟨n', hn', hl⟩ := hs i n hn
  rw [body?_of_node? hn', hl.body_eq (by rw [hb]; rfl), hb]

theorem modifyEntries_steady {g : Entries → Entries} : Steady h (h.modifyEntries d g) := by
  intro i n hn
  by_cases hi : i = d
  · subst hi
    unfold modifyEntries
    cases hes : h.entries? i with
    | none => exact ⟨n, hn, .refl n⟩
    | some es =>
      have hb : n.body = .directory es :=
        Option.some.inj ((body?_of_node? hn).symm.trans (entries?_eq_some_iff.mp hes))
      have hn' : (h.setBody i (.directory (g es))).node? i =
          some { n with body := .directory (g es), modified := h.clock } := by
        rw [setBody, node?_modify, if_pos rfl, hn, Option.map_some]
      exact ⟨_, hn', rfl, .inr ⟨by rw [hb]; rfl, rfl⟩⟩
  · exact ⟨n, by rw [node?_modifyEntries_ne hi, hn], .refl n⟩

theorem bind_steady : Steady h (h.bind d name i) := fun j n hn => by
  rw [node?_bind]
  exact modifyEntries_steady j n hn

theorem unbind_steady : Steady h (h.unbind d name) := fun j n hn => by
  rw [node?_unbind]
  exact modifyEntries_steady j n hn

theorem create_steady : Steady h (h.create d name b mode).2 := by
  rw [create_snd]
  refine Steady.trans (fun i n hn => ⟨n, ?_, .refl n⟩) bind_steady
  rw [node?_alloc, if_neg (Nat.ne_of_lt (lt_size_of_node? hn)), hn]

/-- **New nodes leave the old ones as they are.** -/
theorem Puts.steady {I : Ino → Prop} (hp : Puts I h h') : Steady h h' := by
  induction hp with
  | refl => exact .refl h
  | touch _ _ ih => exact ih.trans modifyEntries_steady
  | put _ _ _ _ _ _ ih => exact ih.trans create_steady

/-- **Moving an entry changes directories only.** -/
theorem move_steady : Steady h ((h.unbind d name).bind d' name' i) :=
  unbind_steady.trans bind_steady

end Host

end GuestShare
