import LeaseEscrow.Keeper.Handlers
import LeaseEscrow.Proofs.Outcome

/-!
# Running actions

The run of an action, step by step: one equation for each primitive, and what a run that
succeeded did.
-/

namespace LeaseEscrow.Keeper

variable {L α β : Type} {k k' : Keeper L}

/-! ## Equations -/

theorem run_pure (k : Keeper L) (a : α) : k.run (pure a : Action L α) = (.ok a, k) := rfl

theorem run_bind (k : Keeper L) (x : Action L α) (f : α → Action L β) :
    k.run (x >>= f) =
      match k.run x with
      | (.ok a, k₁) => k₁.run (f a)
      | (.error e, k₁) => (.error e, k₁) := by
  unfold run
  rw [ExceptT.run_bind, StateT.run_bind]
  generalize (ExceptT.run x).run k = p
  rcases p with ⟨_ | _, k₁⟩ <;> rfl

theorem run_liftM (k : Keeper L) (x : Except Fault α) :
    k.run (liftM x : Action L α) = (x, k) := by
  cases x <;> rfl

theorem run_liftM_refusal (k : Keeper L) (x : Except Refusal α) :
    k.run (liftM x : Action L α) = (liftM x, k) := by
  cases x <;> rfl

theorem run_configNow (k : Keeper L) : k.run configNow = (.ok k.config, k) := rfl

theorem run_read (k : Keeper L) (f : Registry → Except Refusal α) :
    k.run (read f) = (liftM (f k.registry), k) := run_liftM_refusal k _

theorem run_change (k : Keeper L) (f : Registry → Except Refusal Registry) :
    k.run (change f) =
      match f k.registry with
      | .ok r => (.ok (), { k with registry := r })
      | .error e => (.error (.refused e), k) := by
  show k.run (liftM (f k.registry) >>= setRegistry) = _
  rw [run_bind, run_liftM_refusal]
  cases f k.registry <;> rfl

theorem run_emit (k : Keeper L) (b : Block) (kind : EventKind) (id : Option ResourceId)
    (detail : EventDetail) :
    k.run (emit b kind id detail) =
      (.ok (), { k with events := k.events ++ [⟨kind, b.height, id, detail⟩] }) := rfl

theorem run_send [Ledger L] (k : Keeper L) (source target : Account) (amount : Coin) :
    k.run (send source target amount) =
      if amount.isZero then (.ok (), k)
      else
        match Ledger.transfer k.ledger source target amount with
        | .ok ledger => (.ok (), { k with ledger })
        | .error e => (.error e, k) := by
  unfold send
  split
  · rfl
  · show k.run (liftM (Ledger.transfer k.ledger source target amount) >>= _) = _
    rw [run_bind, run_liftM]
    cases Ledger.transfer k.ledger source target amount <;> rfl

theorem run_allocateId (k : Keeper L) :
    k.run allocateId =
      match k.registry.firstFree? k.registry.nextId with
      | some n => (.ok (.ofCounter n), { k with registry := k.registry.setNextId (n + 1) })
      | none => (.error .outOfRange, k) := by
  show k.run (liftM k.registry.allocateId >>= _) = _
  rw [run_bind, run_liftM, Registry.allocateId]
  cases k.registry.firstFree? k.registry.nextId <;> rfl

theorem run_branch [Ledger L] (k : Keeper L) (action : Action L α) :
    k.run (branch action) =
      match k.enter.run action with
      | (.ok a, after) => (.ok a, after.keep)
      | (.error fault, after) => (.error fault, after.undo k.events.length) := rfl

theorem run_attempt (k : Keeper L) (action : Action L α) :
    k.run (attempt action) = (Fault.caught (k.run action).1, (k.run action).2) := rfl

/-! ## Runs that succeed -/

theorem run_of_fst {x : Action L α} {a : α} (h : (k.run x).1 = .ok a) :
    k.run x = (.ok a, (k.run x).2) := Prod.ext h rfl

theorem run_pure_eq_ok {a b : α} :
    k.run (pure a : Action L α) = (.ok b, k') ↔ a = b ∧ k = k' := by
  simp [run_pure]

theorem run_bind_eq_ok {x : Action L α} {f : α → Action L β} {b : β} :
    k.run (x >>= f) = (.ok b, k') ↔
      ∃ a k₁, k.run x = (.ok a, k₁) ∧ k₁.run (f a) = (.ok b, k') := by
  rw [run_bind]
  rcases k.run x with ⟨_ | a, k₁⟩
  · simp
  · simp [and_assoc]

theorem run_liftM_eq_ok {x : Except Fault α} {a : α} :
    k.run (liftM x : Action L α) = (.ok a, k') ↔ x = .ok a ∧ k = k' := by
  simp [run_liftM]

theorem run_liftM_refusal_eq_ok {x : Except Refusal α} {a : α} :
    k.run (liftM x : Action L α) = (.ok a, k') ↔ x = .ok a ∧ k = k' := by
  rw [run_liftM_refusal, Prod.mk.injEq, liftM_eq_ok]

theorem run_change_eq_ok {f : Registry → Except Refusal Registry} {u : Unit} :
    k.run (change f) = (.ok u, k') ↔
      ∃ r, f k.registry = .ok r ∧ { k with registry := r } = k' := by
  rw [run_change]
  cases f k.registry <;> simp

theorem run_emit_eq_ok {b : Block} {kind : EventKind} {id : Option ResourceId}
    {detail : EventDetail} {u : Unit} :
    k.run (emit b kind id detail) = (.ok u, k') ↔
      { k with events := k.events ++ [⟨kind, b.height, id, detail⟩] } = k' := by
  simp [run_emit]

/-- The ledger after a send: an amount of zero leaves it alone. -/
def Sent [Ledger L] (ledger : L) (source target : Account) (amount : Coin) (ledger' : L) : Prop :=
  if amount.isZero then ledger' = ledger
  else Ledger.transfer ledger source target amount = .ok ledger'

theorem run_send_eq_ok [Ledger L] {source target : Account} {amount : Coin} {u : Unit} :
    k.run (send source target amount) = (.ok u, k') ↔
      ∃ ledger, Sent k.ledger source target amount ledger ∧ { k with ledger } = k' := by
  rw [run_send]
  unfold Sent
  split
  · simp
  · cases Ledger.transfer k.ledger source target amount <;> simp

theorem run_branch_eq_ok [Ledger L] {action : Action L α} {a : α} :
    k.run (branch action) = (.ok a, k') ↔ ∃ k₁, k.enter.run action = (.ok a, k₁) ∧ k₁.keep = k' := by
  rw [run_branch]
  generalize k.enter.run action = p
  rcases p with ⟨_ | a', k₁⟩
  · simp
  · constructor
    · rintro ⟨⟩
      exact ⟨k₁, rfl, rfl⟩
    · rintro ⟨_, ⟨⟩, rfl⟩
      rfl

/-! ## First steps of runs that succeed -/

section

variable {b : β}

theorem run_lift_bind_eq_ok {x : Except Fault α} {f : α → Action L β} :
    k.run (liftM x >>= f) = (.ok b, k') ↔ ∃ a, x = .ok a ∧ k.run (f a) = (.ok b, k') := by
  rw [run_bind, run_liftM]
  cases x <;> simp

theorem run_refusal_bind_eq_ok {x : Except Refusal α} {f : α → Action L β} :
    k.run (liftM x >>= f) = (.ok b, k') ↔ ∃ a, x = .ok a ∧ k.run (f a) = (.ok b, k') := by
  rw [run_bind, run_liftM_refusal]
  cases x with
  | error e =>
    show (Except.error (Fault.refused e), k) = _ ↔ _
    simp
  | ok a =>
    show k.run (f a) = _ ↔ _
    simp

theorem run_configNow_bind_eq_ok {f : Config → Action L β} :
    k.run (configNow >>= f) = (.ok b, k') ↔ k.run (f k.config) = (.ok b, k') := Iff.rfl

theorem run_read_bind_eq_ok {f : Registry → Except Refusal α} {g : α → Action L β} :
    k.run (read f >>= g) = (.ok b, k') ↔
      ∃ a, f k.registry = .ok a ∧ k.run (g a) = (.ok b, k') := run_refusal_bind_eq_ok

theorem run_change_bind_eq_ok {f : Registry → Except Refusal Registry} {g : Unit → Action L β} :
    k.run (change f >>= g) = (.ok b, k') ↔
      ∃ r, f k.registry = .ok r ∧ run { k with registry := r } (g ()) = (.ok b, k') := by
  rw [run_bind, run_change]
  cases f k.registry <;> simp

theorem run_emit_bind_eq_ok {block : Block} {kind : EventKind} {id : Option ResourceId}
    {detail : EventDetail} {f : Unit → Action L β} :
    k.run (emit block kind id detail >>= f) = (.ok b, k') ↔
      run { k with events := k.events ++ [⟨kind, block.height, id, detail⟩] } (f ()) =
        (.ok b, k') := Iff.rfl

theorem run_send_bind_eq_ok [Ledger L] {source target : Account} {amount : Coin}
    {f : Unit → Action L β} :
    k.run (send source target amount >>= f) = (.ok b, k') ↔
      ∃ ledger, Sent k.ledger source target amount ledger ∧
        run { k with ledger } (f ()) = (.ok b, k') := by
  rw [run_bind_eq_ok]
  simp only [run_send_eq_ok]
  constructor
  · rintro ⟨_, _, ⟨ledger, hsent, rfl⟩, hrest⟩
    exact ⟨ledger, hsent, hrest⟩
  · rintro ⟨ledger, hsent, hrest⟩
    exact ⟨(), _, ⟨ledger, hsent, rfl⟩, hrest⟩

end

end LeaseEscrow.Keeper
