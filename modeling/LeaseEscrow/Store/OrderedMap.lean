/-!
# Ordered maps

A finite map whose entries are listed in ascending order of their keys. Two maps with the
same entries are equal, and iteration has one possible order.
-/

namespace LeaseEscrow

structure OrderedMap (κ α : Type) [Ord κ] where
  entries : List (κ × α)
  ascending : entries.Pairwise fun a b => compare a.1 b.1 = .lt

namespace OrderedMap

variable {κ α : Type} [Ord κ]

def empty : OrderedMap κ α := ⟨[], .nil⟩

instance : Inhabited (OrderedMap κ α) := ⟨empty⟩

instance [DecidableEq κ] [DecidableEq α] : DecidableEq (OrderedMap κ α) := fun a b =>
  if h : a.entries = b.entries then
    .isTrue (by cases a; cases b; cases h; rfl)
  else .isFalse fun hab => h (by rw [hab])

@[ext]
theorem ext {a b : OrderedMap κ α} (h : a.entries = b.entries) : a = b := by
  cases a; cases b; cases h; rfl

/-! ## Reading -/

def get? (m : OrderedMap κ α) (key : κ) : Option α :=
  (m.entries.find? fun e => compare key e.1 == .eq).map Prod.snd

def contains (m : OrderedMap κ α) (key : κ) : Bool := (m.get? key).isSome

def keys (m : OrderedMap κ α) : List κ := m.entries.map Prod.fst

def size (m : OrderedMap κ α) : Nat := m.entries.length

/-! ## Inserting -/

/-- The entry at its place; an entry of the same key gives way. -/
def insertEntry (key : κ) (value : α) : List (κ × α) → List (κ × α)
  | [] => [(key, value)]
  | e :: rest =>
    match compare key e.1 with
    | .lt => (key, value) :: e :: rest
    | .eq => (key, value) :: rest
    | .gt => e :: insertEntry key value rest

theorem mem_insertEntry {key : κ} {value : α} {l : List (κ × α)} {e : κ × α}
    (h : e ∈ insertEntry key value l) : e = (key, value) ∨ e ∈ l := by
  induction l with
  | nil => simpa [insertEntry] using h
  | cons a l ih =>
    unfold insertEntry at h
    split at h
    · simpa using h
    · rcases List.mem_cons.1 h with h | h
      · exact .inl h
      · exact .inr (List.mem_cons_of_mem _ h)
    · rcases List.mem_cons.1 h with h | h
      · exact .inr (h ▸ List.mem_cons_self)
      · rcases ih h with h | h
        · exact .inl h
        · exact .inr (List.mem_cons_of_mem _ h)

theorem ascending_insertEntry [Std.TransOrd κ] {key : κ} {value : α} {l : List (κ × α)}
    (h : l.Pairwise fun a b => compare a.1 b.1 = .lt) :
    (insertEntry key value l).Pairwise fun a b => compare a.1 b.1 = .lt := by
  induction l with
  | nil => simp [insertEntry]
  | cons a l ih =>
    rw [List.pairwise_cons] at h
    unfold insertEntry
    split
    · next hlt =>
      refine .cons (fun e he => ?_) (.cons h.1 h.2)
      rcases List.mem_cons.1 he with rfl | he
      · exact hlt
      · exact Std.TransCmp.lt_trans hlt (h.1 e he)
    · next heq =>
      refine .cons (fun e he => ?_) h.2
      exact Std.TransCmp.lt_of_eq_of_lt heq (h.1 e he)
    · next hgt =>
      refine .cons (fun e he => ?_) (ih h.2)
      rcases mem_insertEntry he with rfl | he
      · exact Std.OrientedCmp.lt_of_gt hgt
      · exact h.1 e he

def insert [Std.TransOrd κ] (m : OrderedMap κ α) (key : κ) (value : α) : OrderedMap κ α :=
  ⟨insertEntry key value m.entries, ascending_insertEntry m.ascending⟩

/-! ## Erasing -/

def erase (m : OrderedMap κ α) (key : κ) : OrderedMap κ α :=
  ⟨m.entries.filter fun e => compare key e.1 != .eq, m.ascending.filter _⟩

/-- The map with the key set to a value, or without it. -/
def restore [Std.TransOrd κ] (m : OrderedMap κ α) (key : κ) : Option α → OrderedMap κ α
  | some value => m.insert key value
  | none => m.erase key

/-- The map of these entries; of two with one key the later stays. -/
def ofList [Std.TransOrd κ] (entries : List (κ × α)) : OrderedMap κ α :=
  entries.foldl (fun m e => m.insert e.1 e.2) empty

end OrderedMap

end LeaseEscrow
