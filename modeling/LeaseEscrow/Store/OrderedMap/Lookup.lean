import LeaseEscrow.Store.OrderedMap

/-!
# Looking up in ordered maps

What a look-up finds after each operation. A map is determined by its look-ups
(`ext_get?`), so putting back what a key held before a write undoes the write
(`restore_restore`).
-/

namespace LeaseEscrow.OrderedMap

variable {κ α : Type} [Ord κ]

/-! ## Look-ups after a write -/

theorem get?_empty (key : κ) : (empty : OrderedMap κ α).get? key = none := rfl

variable [Std.LawfulEqOrd κ]

theorem find?_insertEntry [DecidableEq κ] (key k : κ) (value : α) (l : List (κ × α)) :
    (insertEntry key value l).find? (fun e => compare k e.1 == .eq) =
      if k = key then some (key, value) else l.find? fun e => compare k e.1 == .eq := by
  induction l with
  | nil => by_cases h : k = key <;> simp [insertEntry, h]
  | cons a l ih =>
    unfold insertEntry
    split
    · by_cases hk : k = key <;> simp [hk]
    · next heq =>
      have ha : key = a.1 := Std.LawfulEqCmp.eq_of_compare heq
      by_cases hk : k = key <;> simp [hk, ← ha]
    · next hgt =>
      by_cases ha : k = a.1
      · have hk : k ≠ key := fun h => by simp [← h, ha] at hgt
        simp [← ha, hk]
      · simp [ha, ih]

theorem get?_insert [Std.TransOrd κ] [DecidableEq κ] (m : OrderedMap κ α) (key k : κ)
    (value : α) : (m.insert key value).get? k = if k = key then some value else m.get? k := by
  unfold get? insert
  rw [find?_insertEntry]
  split <;> rfl

theorem get?_erase [DecidableEq κ] (m : OrderedMap κ α) (key k : κ) :
    (m.erase key).get? k = if k = key then none else m.get? k := by
  unfold get? erase
  rw [List.find?_filter]
  by_cases hk : k = key
  · simp [hk]
  · rw [if_neg hk]
    congr 2
    funext e
    by_cases he : k = e.1
    · have : key ≠ e.1 := fun h => hk (he.trans h.symm)
      simp [he, this]
    · simp [he]

theorem get?_restore [Std.TransOrd κ] [DecidableEq κ] (m : OrderedMap κ α) (key k : κ)
    (prior : Option α) :
    (m.restore key prior).get? k = if k = key then prior else m.get? k := by
  cases prior with
  | none => exact m.get?_erase key k
  | some value => exact m.get?_insert key k value

/-! ## Look-ups and entries -/

theorem get?_eq_some_iff (m : OrderedMap κ α) (key : κ) (value : α) :
    m.get? key = some value ↔ (key, value) ∈ m.entries := by
  unfold get?
  constructor
  · intro h
    obtain ⟨e, he, rfl⟩ := Option.map_eq_some_iff.1 h
    have hk : key = e.1 := by simpa using List.find?_some he
    exact hk ▸ List.mem_of_find?_eq_some he
  · intro h
    have ascending := m.ascending
    generalize m.entries = l at h ascending
    induction l with
    | nil => cases h
    | cons a l ih =>
      rw [List.pairwise_cons] at ascending
      rcases List.mem_cons.1 h with h | h
      · simp [← h]
      · have : key ≠ a.1 := fun hk => by
          have := ascending.1 _ h
          simp [← hk] at this
        simp [this, ih h ascending.2]

/-- Ascending lists with the same members are the same. -/
theorem eq_of_mem_iff [Std.TransOrd κ] {l l' : List (κ × α)}
    (h : l.Pairwise fun a b => compare a.1 b.1 = .lt)
    (h' : l'.Pairwise fun a b => compare a.1 b.1 = .lt)
    (hmem : ∀ e, e ∈ l ↔ e ∈ l') : l = l' := by
  induction l generalizing l' with
  | nil =>
    cases l' with
    | nil => rfl
    | cons y l' => exact absurd ((hmem y).2 List.mem_cons_self) List.not_mem_nil
  | cons x l ih =>
    cases l' with
    | nil => exact absurd ((hmem x).1 List.mem_cons_self) List.not_mem_nil
    | cons y l' =>
      rw [List.pairwise_cons] at h h'
      have hxy : x = y := by
        rcases List.mem_cons.1 ((hmem x).1 List.mem_cons_self) with hx | hx
        · exact hx
        · rcases List.mem_cons.1 ((hmem y).2 List.mem_cons_self) with hy | hy
          · exact hy.symm
          · exact absurd (h'.1 x hx) (Std.OrientedCmp.not_lt_of_lt (h.1 y hy))
      subst hxy
      have hne {e : κ × α} (he : compare x.1 e.1 = .lt) : e ≠ x := fun hx => by simp [hx] at he
      rw [ih h.2 h'.2 fun e => ?_]
      constructor
      · intro he
        exact (List.mem_cons.1 ((hmem e).1 (List.mem_cons_of_mem _ he))).resolve_left
          (hne (h.1 e he))
      · intro he
        exact (List.mem_cons.1 ((hmem e).2 (List.mem_cons_of_mem _ he))).resolve_left
          (hne (h'.1 e he))

/-- Maps that answer every look-up alike are the same. -/
theorem ext_get? [Std.TransOrd κ] {a b : OrderedMap κ α}
    (h : ∀ key, a.get? key = b.get? key) : a = b :=
  ext (eq_of_mem_iff a.ascending b.ascending fun e => by
    rw [← get?_eq_some_iff, ← get?_eq_some_iff, h])

/-- Putting back what a key held before a write undoes the write. -/
theorem restore_restore [Std.TransOrd κ] [DecidableEq κ] (m : OrderedMap κ α) (key : κ)
    (value : Option α) : (m.restore key value).restore key (m.get? key) = m := by
  apply ext_get?
  intro k
  rw [get?_restore, get?_restore]
  by_cases h : k = key <;> simp [h]

end LeaseEscrow.OrderedMap
