import LeaseEscrow.Proofs.Registry.Sound

/-!
# Histories

The history of a resource is what its life leaves on record: who registered it and when, how far
it has come, when it was closed, and the deposits. A change of a market *follows* a relation when
that relation takes the history of each id further, and when only active resources have their
leases changed. Changes that leave every status alone follow a relation together when each of them
does (`Follows.trans`).
-/

namespace LeaseEscrow

/-- How far along its life a resource is. -/
def Status.stage : Status → Nat
  | .pending => 0
  | .active => 1
  | .closed => 2

theorem Status.stage_le_closed (s : Status) : s.stage ≤ closed.stage := by
  cases s <;> decide

structure History where
  id : ResourceId
  owner : Account
  registeredAt : Instant
  status : Status
  closedAt : Option Instant
  deposits : List Deposit

def Resource.history (x : Resource) : History :=
  ⟨x.id, x.owner, x.registeredAt, x.status, x.closedAt, x.deposits⟩

/-- `h'` is the history of the same resource, not at an earlier time. -/
structure History.Precedes (h h' : History) : Prop where
  id_eq : h'.id = h.id
  owner_eq : h'.owner = h.owner
  registeredAt_eq : h'.registeredAt = h.registeredAt
  stage_le : h.status.stage ≤ h'.status.stage
  closedAt_eq : ∀ t, h.closedAt = some t → h'.closedAt = some t

theorem History.Precedes.refl (h : History) : h.Precedes h :=
  ⟨rfl, rfl, rfl, Nat.le_refl _, fun _ ht => ht⟩

theorem History.Precedes.trans {h₁ h₂ h₃ : History} (h : h₁.Precedes h₂) (h' : h₂.Precedes h₃) :
    h₁.Precedes h₃ where
  id_eq := h'.id_eq.trans h.id_eq
  owner_eq := h'.owner_eq.trans h.owner_eq
  registeredAt_eq := h'.registeredAt_eq.trans h.registeredAt_eq
  stage_le := h.stage_le.trans h'.stage_le
  closedAt_eq t ht := h'.closedAt_eq t (h.closedAt_eq t ht)

/-- The release of the deposits of a closed resource, or no change. -/
inductive Released : Option History → Option History → Prop where
  | kept (o : Option History) : Released o o
  | emptied {h : History} (hclosed : h.status = .closed) :
    Released (some h) (some { h with deposits := [] })

theorem Released.trans {o₁ o₂ o₃ : Option History} (h : Released o₁ o₂) (h' : Released o₂ o₃) :
    Released o₁ o₃ := by
  cases h with
  | kept => exact h'
  | emptied hclosed =>
    cases h' with
    | kept => exact .emptied hclosed
    | emptied => exact .emptied hclosed

theorem Released.status_eq {o o' : Option History} (h : Released o o') :
    o'.map History.status = o.map History.status := by
  cases h with
  | kept => rfl
  | emptied => rfl

namespace Market

def history (m : Market) (id : ResourceId) : Option History := (m.resource id).map Resource.history

def IsActive (m : Market) (id : ResourceId) : Prop :=
  (m.history id).map History.status = some .active

variable {m m' m₁ m₂ m₃ : Market} {id : ResourceId} {x : Resource} {l : Lease}
  {R R' : ResourceId → Option History → Option History → Prop}

theorem history_of_resource (hx : m.resource id = some x) : m.history id = some x.history := by
  rw [history, hx]
  rfl

theorem exists_of_history {h : History} (hh : m.history id = some h) :
    ∃ x, m.resource id = some x ∧ x.history = h := Option.map_eq_some_iff.1 hh

theorem isActive_iff : m.IsActive id ↔ ∃ x, m.resource id = some x ∧ x.status = .active := by
  rw [IsActive, history, Option.map_map]
  exact Option.map_eq_some_iff

theorem Sound.isActive_of_lease {p : Params} (h : m.Sound p) (hl : m.lease id = some l) :
    m.IsActive id := by
  obtain ⟨x, hx, -⟩ := (h.lease hl).owner
  have hfits := h.resource hx
  have hleased := hfits.leased_iff.2 (Option.isSome_iff_exists.2 ⟨l, hl⟩)
  exact isActive_iff.2 ⟨x, hx, hfits.valid.active hleased⟩

/-! ## Changes that follow a relation -/

structure Follows (R : ResourceId → Option History → Option History → Prop) (m m' : Market) :
    Prop where
  history : ∀ id, R id (m.history id) (m'.history id)
  lease : ∀ id, m'.lease id = m.lease id ∨ m.IsActive id ∧ m'.IsActive id

/-- The histories stay as they are. -/
abbrev SameHistory : Market → Market → Prop := Follows fun _ o o' => o' = o

theorem SameHistory.refl (m : Market) : SameHistory m m := ⟨fun _ => rfl, fun _ => .inl rfl⟩

theorem Follows.mono (h : Follows R m m') (hR : ∀ {id o o'}, R id o o' → R' id o o') :
    Follows R' m m' := ⟨fun id => hR (h.history id), h.lease⟩

theorem SameHistory.follows (h : SameHistory m m') (hR : ∀ id o, R id o o) : Follows R m m' :=
  h.mono fun hsame => hsame ▸ hR _ _

theorem Follows.trans (hR : ∀ {id o₁ o₂ o₃}, R id o₁ o₂ → R id o₂ o₃ → R id o₁ o₃)
    (hstatus : ∀ {id o o'}, R id o o' → o'.map History.status = o.map History.status)
    (h : Follows R m₁ m₂) (h' : Follows R m₂ m₃) : Follows R m₁ m₃ where
  history id := hR (h.history id) (h'.history id)
  lease id := by
    have hactive : m₂.IsActive id ↔ m₁.IsActive id := by
      rw [IsActive, IsActive, hstatus (h.history id)]
    have hactive' : m₃.IsActive id ↔ m₂.IsActive id := by
      rw [IsActive, IsActive, hstatus (h'.history id)]
    rcases h'.lease id with hsame' | ⟨hbefore, hafter⟩
    · rcases h.lease id with hsame | ⟨hbefore, hafter⟩
      · exact .inl (hsame'.trans hsame)
      · exact .inr ⟨hbefore, hactive'.2 hafter⟩
    · exact .inr ⟨hactive.1 hbefore, hafter⟩

theorem SameHistory.trans (h : SameHistory m₁ m₂) (h' : SameHistory m₂ m₃) : SameHistory m₁ m₃ :=
  Follows.trans (fun h h' => h'.trans h) (fun h => congrArg _ h) h h'

/-! ## Single records -/

theorem history_withResource (m : Market) (x : Resource) (id : ResourceId) :
    (m.withResource x).history id = if x.id = id then some x.history else m.history id := by
  split
  · next h =>
    subst h
    exact history_of_resource (resource_withResource m x)
  · next h => rw [history, ((sameOff_withResource m x) id (Ne.symm h)).1, history]

theorem follows_withResource (hat : R x.id (m.history x.id) (some x.history))
    (helsewhere : ∀ id, x.id ≠ id → R id (m.history id) (m.history id)) :
    Follows R m (m.withResource x) where
  history id := by
    rw [history_withResource]
    split
    · next h => exact h ▸ hat
    · next h => exact helsewhere id h
  lease _ := .inl rfl

theorem sameHistory_withResource {old : Resource} (hold : m.resource x.id = some old)
    (hsame : x.history = old.history) : SameHistory m (m.withResource x) :=
  follows_withResource (by rw [history_of_resource hold, hsame]) fun _ _ => rfl

theorem sameHistory_withLease (hactive : m.IsActive l.resourceId) :
    SameHistory m (m.withLease l) where
  history _ := rfl
  lease id := by
    by_cases hid : id = l.resourceId
    · subst hid
      exact .inr ⟨hactive, hactive⟩
    · exact .inl (sameOff_withLease m l id hid).2

theorem sameHistory_ended (hx : m.resource x.id = some x) (hactive : m.IsActive x.id) :
    SameHistory m (m.ended x) := by
  have hwithout : SameHistory m (m.withoutLease x.id) := by
    refine ⟨fun _ => rfl, fun id => ?_⟩
    by_cases hid : id = x.id
    · subst hid
      exact .inr ⟨hactive, hactive⟩
    · exact .inl (Function.update_of_ne hid _ _)
  exact hwithout.trans (sameHistory_withResource (x := { x with leased := false }) hx rfl)

end Market

end LeaseEscrow
