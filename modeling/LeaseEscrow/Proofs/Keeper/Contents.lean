import LeaseEscrow.Proofs.Keeper.Run
import LeaseEscrow.Proofs.Ledger.Undo
import LeaseEscrow.Proofs.Store.Undo

/-!
# The contents of a keeper

The contents of a keeper are the records, the book, the configuration and the pending events,
without the checkpoints. An action is *contained* when it leaves the open checkpoints alone
and only adds events; two actions *match* when they are contained and do the same to equal
contents. Matching is closed under everything that actions are built from, and a journaled
branch matches one that keeps a copy of the keeper.
-/

namespace LeaseEscrow.Keeper

variable {α β : Type}

structure SameContents (k k' : Keeper Bank) : Prop where
  registry : k.registry ≈ k'.registry
  book : k.ledger.current = k'.ledger.current
  config : k.config = k'.config
  events : k.events = k'.events

/-- Keepers are equivalent when they have the same contents. -/
instance : HasEquiv (Keeper Bank) := ⟨SameContents⟩

theorem SameContents.refl (k : Keeper Bank) : k ≈ k := ⟨rfl, rfl, rfl, rfl⟩

theorem SameContents.symm {k k' : Keeper Bank} (h : k ≈ k') : k' ≈ k :=
  ⟨h.registry.symm, h.book.symm, h.config.symm, h.events.symm⟩

theorem SameContents.trans {k₁ k₂ k₃ : Keeper Bank} (h : k₁ ≈ k₂) (h' : k₂ ≈ k₃) : k₁ ≈ k₃ :=
  ⟨h.registry.trans h'.registry, h.book.trans h'.book, h.config.trans h'.config,
    h.events.trans h'.events⟩

/-- `k'` goes back to the same snapshots as `k` and has its events, maybe more. -/
structure Contained (k k' : Keeper Bank) : Prop where
  store : k'.registry.store.snapshots = k.registry.store.snapshots
  ledger : k'.ledger.snapshots = k.ledger.snapshots
  config : k'.config = k.config
  events : k.events <+: k'.events

theorem Contained.refl (k : Keeper Bank) : Contained k k :=
  ⟨rfl, rfl, rfl, List.prefix_refl _⟩

theorem Contained.trans {k₁ k₂ k₃ : Keeper Bank} (h : Contained k₁ k₂) (h' : Contained k₂ k₃) :
    Contained k₁ k₃ :=
  ⟨h'.store.trans h.store, h'.ledger.trans h.ledger, h'.config.trans h.config,
    h.events.trans h'.events⟩

/-- Two actions do the same to equal contents, and neither touches the open checkpoints. -/
structure Matches (a a' : Action Bank α) : Prop where
  agree : ∀ {k k' : Keeper Bank}, k ≈ k' → (k.run a).1 = (k'.run a').1 ∧ (k.run a).2 ≈ (k'.run a').2
  contained : ∀ k, Contained k (k.run a).2
  contained' : ∀ k, Contained k (k.run a').2

/-- What an action does depends on the contents alone. -/
abbrev Tame (a : Action Bank α) : Prop := Matches a a

/-! ## Building blocks -/

theorem Matches.bind {a a' : Action Bank α} {f f' : α → Action Bank β} (ha : Matches a a')
    (hf : ∀ x, Matches (f x) (f' x)) : Matches (a >>= f) (a' >>= f') where
  agree {k k'} h := by
    obtain ⟨hresult, hafter⟩ := ha.agree h
    rw [run_bind, run_bind]
    generalize k.run a = p at hresult hafter
    generalize k'.run a' = p' at hresult hafter
    obtain ⟨result, after⟩ := p
    obtain ⟨result', after'⟩ := p'
    -- Either both stop here, or both go on from equal contents.
    obtain rfl : result = result' := hresult
    cases result with
    | error e => exact ⟨rfl, hafter⟩
    | ok x => exact (hf x).agree hafter
  contained k := by
    have hk := ha.contained k
    rw [run_bind]
    generalize k.run a = p at hk
    rcases p with ⟨_ | x, after⟩
    · exact hk
    · exact hk.trans ((hf x).contained after)
  contained' k := by
    have hk := ha.contained' k
    rw [run_bind]
    generalize k.run a' = p at hk
    rcases p with ⟨_ | x, after⟩
    · exact hk
    · exact hk.trans ((hf x).contained' after)

/-- An action that leaves the keeper as it is and gives the same for equal contents. -/
theorem Matches.of_run_eq {a : Action Bank α} (f : Keeper Bank → Except Fault α)
    (hrun : ∀ k, k.run a = (f k, k)) (hf : ∀ k k', k ≈ k' → f k = f k') : Tame a where
  agree {k k'} h := by
    rw [hrun, hrun]
    exact ⟨hf k k' h, h⟩
  contained k := by
    rw [hrun]
    exact .refl k
  contained' k := by
    rw [hrun]
    exact .refl k

theorem Matches.pure (x : α) : Tame (pure x) := .of_run_eq (fun _ => .ok x) (fun _ => rfl) fun _ _ _ => rfl

theorem Matches.lift (x : Except Fault α) : Tame (liftM x) :=
  .of_run_eq (fun _ => x) (fun k => run_liftM k x) fun _ _ _ => rfl

theorem Matches.lift_refusal (x : Except Refusal α) : Tame (liftM x : Action Bank α) :=
  .of_run_eq (fun _ => liftM x) (fun k => run_liftM_refusal k x) fun _ _ _ => rfl

theorem Matches.configNow : Tame configNow :=
  .of_run_eq (fun k => .ok k.config) run_configNow fun _ _ h => congrArg Except.ok h.config

theorem Matches.read {f : Registry → Except Refusal α} (hf : Registry.Reads f) : Tame (read f) :=
  .of_run_eq (fun k => liftM (f k.registry)) (fun k => run_read k f)
    fun _ _ h => by rw [hf _ _ h.registry]

theorem Matches.emit (b : Block) (kind : EventKind) (id : Option ResourceId) (detail : EventDetail) :
    Tame (emit b kind id detail) where
  agree {k k'} h := by
    rw [run_emit, run_emit]
    exact ⟨rfl, h.registry, h.book, h.config, by rw [h.events]⟩
  contained k := by
    rw [run_emit]
    exact ⟨rfl, rfl, rfl, List.prefix_append ..⟩
  contained' k := by
    rw [run_emit]
    exact ⟨rfl, rfl, rfl, List.prefix_append ..⟩

theorem Matches.of_agree {a : Action Bank α}
    (agree : ∀ {k k' : Keeper Bank}, k ≈ k' → (k.run a).1 = (k'.run a).1 ∧ (k.run a).2 ≈ (k'.run a).2)
    (contained : ∀ k, Contained k (k.run a).2) : Tame a :=
  ⟨agree, contained, contained⟩

theorem Matches.change {f : Registry → Except Refusal Registry} (hf : Registry.Writes f) :
    Tame (change f) := by
  refine .of_agree (fun {k k'} h => ?_) fun k => ?_
  · have hrecords := hf.records _ _ h.registry
    rw [run_change, run_change]
    cases hr : f k.registry with
    | error e =>
      cases hr' : f k'.registry with
      | error e' =>
        rw [hr, hr'] at hrecords
        cases hrecords
        exact ⟨rfl, h⟩
      | ok r' => rw [hr, hr'] at hrecords; cases hrecords
    | ok r =>
      cases hr' : f k'.registry with
      | error e' => rw [hr, hr'] at hrecords; cases hrecords
      | ok r' =>
        rw [hr, hr'] at hrecords
        exact ⟨rfl, Except.ok.inj hrecords, h.book, h.config, h.events⟩
  · rw [run_change]
    cases hr : f k.registry with
    | error e => exact .refl k
    | ok r => exact ⟨hf.snapshots _ _ hr, rfl, rfl, List.prefix_refl _⟩

/-- A change of the ledger that takes the book to another one or fails. -/
def onLedger (f : Bank → Except Fault Bank) : Action Bank Unit := do
  let ledger ← f (← get).ledger
  modify fun k => { k with ledger }

theorem run_onLedger (k : Keeper Bank) (f : Bank → Except Fault Bank) :
    k.run (onLedger f) =
      match f k.ledger with
      | .ok ledger => (.ok (), { k with ledger })
      | .error e => (.error e, k) := by
  show k.run (liftM (f k.ledger) >>= fun ledger => modify fun k => { k with ledger }) = _
  rw [run_bind, run_liftM]
  cases f k.ledger <;> rfl

theorem Matches.onLedger {f : Bank → Except Fault Bank} (hf : Bank.Writes f) : Tame (onLedger f) := by
  refine .of_agree (fun {k k'} h => ?_) fun k => ?_
  · have hbook := hf.book _ _ h.book
    rw [run_onLedger, run_onLedger]
    cases hl : f k.ledger with
    | error e =>
      cases hl' : f k'.ledger with
      | error e' =>
        rw [hl, hl'] at hbook
        cases hbook
        exact ⟨rfl, h⟩
      | ok l' => rw [hl, hl'] at hbook; cases hbook
    | ok l =>
      cases hl' : f k'.ledger with
      | error e' => rw [hl, hl'] at hbook; cases hbook
      | ok l' =>
        rw [hl, hl'] at hbook
        exact ⟨rfl, h.registry, Except.ok.inj hbook, h.config, h.events⟩
  · rw [run_onLedger]
    cases hl : f k.ledger with
    | error e => exact .refl k
    | ok l => exact ⟨rfl, hf.snapshots _ _ hl, rfl, List.prefix_refl _⟩

theorem Matches.send (source target : Account) (amount : Coin) :
    Tame (send source target amount) := by
  unfold Keeper.send
  split
  · exact .pure _
  · exact .onLedger (Bank.writes_transfer source target amount)

theorem Matches.attempt {a a' : Action Bank α} (ha : Matches a a') :
    Matches (attempt a) (attempt a') where
  agree {k k'} h := by
    obtain ⟨hresult, hafter⟩ := ha.agree h
    rw [run_attempt, run_attempt, hresult]
    exact ⟨rfl, hafter⟩
  contained := ha.contained
  contained' := ha.contained'

end LeaseEscrow.Keeper
