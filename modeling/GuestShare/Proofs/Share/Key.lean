import GuestShare.Proofs.Metadata.Ledger
import GuestShare.Share.Walk

/-!
# Keys of paths

Records are kept under keys, which are the names of a path between slashes. The names of entries are
not empty and hold no slash, so a key tells its path, and keys lie below each other as their paths
do.

* `GuestPath.Valid`: the paths that are made of names of entries.
* `GuestPath.keyTail`: what names add to a key.
* **`Valid.eq_of_key_eq`**: a key tells its path.
* **`Valid.suffix?_key_eq_some_iff`**: a key is below another one if its path goes on behind the
  other one.
-/

namespace GuestShare

/-! ## Names of entries -/

theorem slash_not_mem_of_isEntryName {name : String} (hn : isEntryName name = true) :
    '/' ∉ name.toList := by
  unfold isEntryName isPlainName at hn
  simp only [Bool.and_eq_true, Bool.not_eq_true', String.contains_char_eq,
    decide_eq_false_iff_not] at hn
  exact hn.1.1.1.2

theorem ne_dot_of_isEntryName {name : String} (hn : isEntryName name = true) : name ≠ "." := by
  rintro rfl
  simp [isEntryName] at hn

theorem isEntryName_iff {name : String} :
    isEntryName name = true ↔ isPlainName name = true ∧ name ≠ "." ∧ name ≠ ".." := by
  simp [isEntryName, and_assoc]

/-- Where two texts begin with pieces without slashes and go on with nothing or with a slash, the
pieces are the same. -/
theorem append_inj_of_slash {a b x y : List Char} (ha : '/' ∉ a) (hb : '/' ∉ b)
    (hx : x = [] ∨ x.head? = some '/') (hy : y = [] ∨ y.head? = some '/') (he : a ++ x = b ++ y) :
    a = b ∧ x = y := by
  induction a generalizing b with
  | nil =>
    cases b with
    | nil => exact ⟨rfl, he⟩
    | cons c b =>
      have hx' : x = c :: (b ++ y) := he
      rcases hx with hx | hx
      · rw [hx] at hx'
        cases hx'
      · rw [hx'] at hx
        cases hx
        exact absurd List.mem_cons_self hb
  | cons c a ih =>
    cases b with
    | nil =>
      have hy' : y = c :: (a ++ x) := he.symm
      rcases hy with hy | hy
      · rw [hy] at hy'
        cases hy'
      · rw [hy'] at hy
        cases hy
        exact absurd List.mem_cons_self ha
    | cons c' b =>
      obtain ⟨rfl, he'⟩ := List.cons.inj he
      obtain ⟨rfl, rfl⟩ := ih (fun hc => ha (List.mem_cons_of_mem _ hc))
        (fun hc => hb (List.mem_cons_of_mem _ hc)) he'
      exact ⟨rfl, rfl⟩

namespace GuestPath

/-- Paths that are made of names of entries. -/
def Valid (p : GuestPath) : Prop := ∀ name ∈ p, isEntryName name = true

/-- What names add to the key of the directory above them. -/
def keyTail : GuestPath → String
  | [] => ""
  | name :: p => "/" ++ name ++ keyTail p

variable {p q rest : GuestPath} {name t : String}

theorem valid_nil : Valid [] := fun _ hn => absurd hn List.not_mem_nil

theorem Valid.append (hp : p.Valid) (hq : q.Valid) : Valid (p ++ q) := by
  intro name hn
  rcases List.mem_append.mp hn with hn | hn
  · exact hp name hn
  · exact hq name hn

theorem Valid.concat (hp : p.Valid) (hn : isEntryName name = true) : Valid (p ++ [name]) :=
  hp.append fun m hm => by
    obtain rfl := List.mem_singleton.mp hm
    exact hn

theorem Valid.of_append_right (hp : Valid (p ++ q)) : q.Valid := fun name hn =>
  hp name (List.mem_append_right p hn)

theorem Valid.next (hp : p.Valid) (hn : isPlainName name = true) : (p.next name).Valid := by
  unfold GuestPath.next
  split_ifs with hdot hdots
  · exact hp
  · exact fun m hm => hp m (List.dropLast_subset p hm)
  · exact hp.concat (isEntryName_iff.mpr ⟨hn, hdot, hdots⟩)

/-! ## Keys -/

theorem key_cons : key (name :: p) = name ++ keyTail p := by
  have hkey : key (name :: p) = "/".intercalate (name :: p) := rfl
  rw [hkey]
  clear hkey
  induction p generalizing name with
  | nil => simp [keyTail]
  | cons m p ih =>
    rw [String.intercalate_cons_cons, ih, keyTail]
    simp only [String.append_assoc]

theorem keyTail_append : keyTail (p ++ q) = keyTail p ++ keyTail q := by
  induction p with
  | nil => simp [keyTail]
  | cons name p ih =>
    simp only [List.cons_append, keyTail, ih, String.append_assoc]

theorem key_append (hp : p ≠ []) : key (p ++ rest) = p.key ++ keyTail rest := by
  cases p with
  | nil => exact absurd rfl hp
  | cons name p => rw [List.cons_append, key_cons, key_cons, keyTail_append, String.append_assoc]

theorem head?_keyTail (p : GuestPath) : keyTail p = "" ∨ (keyTail p).toList.head? = some '/' := by
  cases p with
  | nil => exact .inl rfl
  | cons name p => exact .inr (by simp [keyTail])

theorem keyTail_eq_empty_iff : keyTail p = "" ↔ p = [] := by
  cases p with
  | nil => simp [keyTail]
  | cons name p => simp [keyTail]

theorem head?_keyTail_append (ht : t = "" ∨ t.toList.head? = some '/') :
    keyTail p ++ t = "" ∨ (keyTail p ++ t).toList.head? = some '/' := by
  rcases head?_keyTail p with hp | hp
  · rw [hp, String.empty_append]
    exact ht
  · refine .inr ?_
    rw [String.toList_append, List.head?_append, hp]
    rfl

theorem name_append_inj {m x y : String} (hn : '/' ∉ name.toList) (hm : '/' ∉ m.toList)
    (hx : x = "" ∨ x.toList.head? = some '/') (hy : y = "" ∨ y.toList.head? = some '/')
    (he : name ++ x = m ++ y) : name = m ∧ x = y := by
  have hchars : ∀ {s : String}, s = "" ∨ s.toList.head? = some '/' →
      s.toList = [] ∨ s.toList.head? = some '/' := by
    rintro s (rfl | hs)
    · exact .inl rfl
    · exact .inr hs
  have he' : name.toList ++ x.toList = m.toList ++ y.toList := by
    rw [← String.toList_append, ← String.toList_append, he]
  obtain ⟨hnm, hxy⟩ := append_inj_of_slash hn hm (hchars hx) (hchars hy) he'
  exact ⟨String.toList_inj.mp hnm, String.toList_inj.mp hxy⟩

theorem Valid.eq_append_of_keyTail (hp : p.Valid) (hq : q.Valid)
    (ht : t = "" ∨ t.toList.head? = some '/') (he : keyTail q = keyTail p ++ t) :
    ∃ rest, q = p ++ rest ∧ t = keyTail rest := by
  induction p generalizing q with
  | nil => exact ⟨q, rfl, by rw [he, keyTail, String.empty_append]⟩
  | cons name p ih =>
    cases q with
    | nil => simp [keyTail] at he
    | cons m q =>
      simp only [keyTail, String.append_assoc] at he
      obtain ⟨rfl, he'⟩ := name_append_inj
        (slash_not_mem_of_isEntryName (hq m List.mem_cons_self))
        (slash_not_mem_of_isEntryName (hp name List.mem_cons_self))
        (head?_keyTail q) (head?_keyTail_append ht) ((String.append_right_inj "/").mp he)
      obtain ⟨rest, rfl, rfl⟩ := ih (fun n hn => hp n (List.mem_cons_of_mem _ hn))
        (fun n hn => hq n (List.mem_cons_of_mem _ hn)) he'
      exact ⟨rest, rfl, rfl⟩

/-- **A key is below another one if its path goes on behind the other one.** -/
theorem Valid.suffix?_key_eq_some_iff (hp : p.Valid) (hq : q.Valid) (hne : p ≠ []) :
    suffix? p.key q.key = some t ↔ ∃ rest, q = p ++ rest ∧ t = keyTail rest := by
  rw [suffix?_eq_some_iff]
  constructor
  · rintro ⟨he, ht⟩
    obtain ⟨name, p, rfl⟩ := List.exists_cons_of_ne_nil hne
    have hname := hp name List.mem_cons_self
    rw [key_cons, String.append_assoc] at he
    cases q with
    | nil =>
      -- The key of the root is no name of an entry, and has no slash in it.
      have hroot : "." ++ "" = name ++ (keyTail p ++ t) := he
      obtain ⟨hdot, -⟩ := name_append_inj (by decide) (slash_not_mem_of_isEntryName hname)
        (.inl rfl) (head?_keyTail_append ht) hroot
      exact absurd hdot.symm (ne_dot_of_isEntryName hname)
    | cons m q =>
      rw [key_cons] at he
      obtain ⟨rfl, he'⟩ := name_append_inj
        (slash_not_mem_of_isEntryName (hq m List.mem_cons_self))
        (slash_not_mem_of_isEntryName hname) (head?_keyTail q) (head?_keyTail_append ht) he
      obtain ⟨rest, rfl, rfl⟩ := Valid.eq_append_of_keyTail
        (fun n hn => hp n (List.mem_cons_of_mem _ hn))
        (fun n hn => hq n (List.mem_cons_of_mem _ hn)) ht he'
      exact ⟨rest, rfl, rfl⟩
  · rintro ⟨rest, rfl, rfl⟩
    exact ⟨key_append hne, head?_keyTail rest⟩

theorem Valid.covers_key_iff (hp : p.Valid) (hq : q.Valid) (hne : p ≠ []) :
    covers p.key q.key = true ↔ p <+: q := by
  rw [covers_iff]
  simp only [hp.suffix?_key_eq_some_iff hq hne]
  constructor
  · rintro ⟨t, rest, rfl, -⟩
    exact List.prefix_append p rest
  · rintro ⟨rest, rfl⟩
    exact ⟨_, rest, rfl, rfl⟩

/-- **A key tells its path.** -/
theorem Valid.eq_of_key_eq (hp : p.Valid) (hq : q.Valid) (he : p.key = q.key) : p = q := by
  have hself : ∀ {a b : GuestPath}, a.Valid → b.Valid → a ≠ [] → a.key = b.key → a = b := by
    intro a b ha hb hne he
    have hs : suffix? a.key b.key = some "" :=
      suffix?_eq_some_iff.mpr ⟨by rw [he, String.append_empty], .inl rfl⟩
    obtain ⟨rest, rfl, hrest⟩ := (ha.suffix?_key_eq_some_iff hb hne).mp hs
    rw [keyTail_eq_empty_iff.mp hrest.symm, List.append_nil]
  by_cases hne : p = []
  · by_cases hne' : q = []
    · rw [hne, hne']
    · exact (hself hq hp hne' he.symm).symm
  · exact hself hp hq hne he

end GuestPath

end GuestShare
