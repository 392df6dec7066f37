import LeaseEscrow.Proofs.Keeper.Built

/-!
# What actions keep

A sequence of actions keeps what each of them keeps. A branch that fails puts the records back,
whatever the ledger is: what is built leaves the checkpoints of the store alone
(`Built.snapshots`). So a property of the records that requests, settlements and releases keep
when they succeed is kept by every handler and by every block.
-/

namespace LeaseEscrow.Keeper

variable {L α β γ : Type}

/-- The action keeps the property, also when it fails. -/
def Keeps (P : Keeper L → Prop) (a : Action L α) : Prop := ∀ k, P k → P (k.run a).2

/-- The action keeps the property when it succeeds. -/
def KeepsOk (P : Keeper L → Prop) (a : Action L α) : Prop :=
  ∀ k x k', P k → k.run a = (.ok x, k') → P k'

/-! ## Sequences -/

section

variable {P : Keeper L → Prop}

/-- What follows an action keeps what held after it. -/
theorem Keeps.after_bind {k : Keeper L} {a : Action L α} {f : α → Action L β}
    (hafter : P (k.run a).2) (hf : ∀ x, Keeps P (f x)) : P (k.run (a >>= f)).2 := by
  rw [run_bind]
  generalize k.run a = p at hafter
  rcases p with ⟨_ | x, k₁⟩
  · exact hafter
  · exact hf x k₁ hafter

theorem Keeps.bind {a : Action L α} {f : α → Action L β} (ha : Keeps P a)
    (hf : ∀ x, Keeps P (f x)) : Keeps P (a >>= f) := fun k hk => Keeps.after_bind (ha k hk) hf

theorem Keeps.pure (x : α) : Keeps P (pure x) := fun _ hk => hk

theorem Keeps.lift (x : Except Fault α) : Keeps P (liftM x) := by
  intro k hk
  rw [run_liftM]
  exact hk

theorem Keeps.lift_refusal (x : Except Refusal α) : Keeps P (liftM x : Action L α) := by
  intro k hk
  rw [run_liftM_refusal]
  exact hk

theorem Keeps.read (f : Registry → Except Refusal α) : Keeps P (read f) := by
  intro k hk
  rw [run_read]
  exact hk

theorem Keeps.attempt {a : Action L α} (ha : Keeps P a) : Keeps P (attempt a) := ha

theorem Keeps.foldlM (l : List γ) {f : α → γ → Action L α} (hf : ∀ x y, Keeps P (f x y))
    (start : α) : Keeps P (l.foldlM f start) := by
  induction l generalizing start with
  | nil => exact .pure _
  | cons y l ih => exact .bind (hf start y) ih

end

/-! ## Branches -/

variable [Ledger L] {P : Keeper L → Prop}

/-- A property that the report of a failure keeps, and that a branch keeps when success in it
does. -/
structure Recoverable (P : Keeper L → Prop) : Prop where
  failure : ∀ b id reason, Keeps P (emitFailure b id reason)
  branch : ∀ {α : Type} {a : Action L α}, Built a → KeepsOk P a → Keeps P (branch a)

namespace Recoverable

/-- Checkpoints must not matter for the property, and a branch that fails must put it back. -/
theorem of_failed (failure : ∀ b id reason, Keeps P (emitFailure b id reason))
    (enter : ∀ k, P k → P k.enter) (keep : ∀ k, P k → P k.keep)
    (failed : ∀ {α : Type} {a : Action L α} {k : Keeper L} {e : Fault}, Built a →
      (k.run (Keeper.branch a)).1 = .error e → P k → P (k.run (Keeper.branch a)).2) :
    Recoverable P where
  failure := failure
  branch {α a} ha hok k hk := by
    cases hresult : (k.run (Keeper.branch a)).1 with
    | error e => exact failed ha hresult hk
    | ok x =>
      have hrun := run_of_fst hresult
      obtain ⟨k₁, hrun₁, hkeep⟩ := run_branch_eq_ok.1 hrun
      rw [← hkeep]
      exact keep k₁ (hok k.enter x k₁ (enter k hk) hrun₁)

theorem handle (hP : Recoverable P) (b : Block) {m : Request α}
    (hm : m.check = .ok () → KeepsOk P (m.perform b)) : Keeps P (m.handle b) := by
  rw [Request.handle_eq]
  cases hcheck : m.check with
  | error e => exact fun k hk => hk
  | ok _ => exact .bind (.lift _) fun _ => hP.branch (built_perform b m) (hm hcheck)

theorem recordFailure (hP : Recoverable P) (b : Block) (report : Report) (phase : Phase)
    (id : ResourceId) (cause : Refusal) :
    Keeps P (Engine.recordFailure b report phase id cause) :=
  .bind (hP.failure b id cause.message) fun _ => .pure _

theorem settleOne (hP : Recoverable P) {b : Block} {id : ResourceId}
    (hsettle : KeepsOk P (settleLease b id)) (report : Report) :
    Keeps P (Engine.settleOne b report id) := by
  refine .bind (.attempt (hP.branch (built_settleLease b id) hsettle)) fun result => ?_
  cases result with
  | ok _ => exact .pure _
  | error _ => exact hP.recordFailure _ _ _ _ _

theorem releaseOne (hP : Recoverable P) {b : Block} {id : ResourceId}
    (hrelease : KeepsOk P (Keeper.releaseDeposits b id)) (report : Report) :
    Keeps P (Engine.releaseOne b report id) := by
  refine .bind (.attempt (hP.branch (built_releaseDeposits b id) hrelease)) fun result => ?_
  cases result with
  | ok _ => exact .pure _
  | error _ => exact hP.recordFailure _ _ _ _ _

theorem releaseDeposits (hP : Recoverable P) {b : Block}
    (hrelease : ∀ id, KeepsOk P (Keeper.releaseDeposits b id)) (report : Report) :
    Keeps P (Engine.releaseDeposits b report) := by
  refine .bind (.read _) fun _ => .bind (.read _) fun _ => .foldlM _ (fun report id => ?_) report
  exact hP.releaseOne (hrelease id) report

/-- What settlement of single records keeps, a block keeps. -/
theorem beginBlock (hP : Recoverable P) (e : Engine) (b : Block)
    (hsettle : ∀ id, KeepsOk P (settleLease b id))
    (hrelease : ∀ id, KeepsOk P (Keeper.releaseDeposits b id)) : Keeps P (e.beginBlock b) := by
  refine .bind (.lift_refusal _) fun _ => .bind ?_ fun report => .bind ?_ fun _ => .pure _
  · refine .bind (.read _) fun ids => .foldlM ids (fun report id => ?_) _
    exact hP.settleOne (hsettle id) report
  · exact hP.releaseDeposits hrelease report

end Recoverable

/-! ## Properties of the records -/

/-- What is built leaves alone what the checkpoints of the store would go back to. -/
theorem Built.snapshots {a : Action L α} (ha : Built a) (k : Keeper L) :
    (k.run a).2.registry.store.snapshots = k.registry.store.snapshots := by
  induction ha generalizing k with
  | pure x => rfl
  | lift x => rw [run_liftM]
  | lift_refusal x => rw [run_liftM_refusal]
  | configNow => rfl
  | allocateId =>
    rw [run_allocateId]
    cases k.registry.firstFree? k.registry.nextId with
    | none => rfl
    | some n => exact Registry.snapshots_set ..
  | read hf => rw [run_read]
  | @change f hf =>
    rw [run_change]
    cases hr : f k.registry with
    | error e => rfl
    | ok r => exact hf.writes.snapshots _ _ hr
  | send source target amount =>
    rw [run_send]
    split
    · rfl
    · cases Ledger.transfer k.ledger source target amount <;> rfl
  | emit b kind id detail => rfl
  | @bind _ _ a f _ _ ha hf =>
    have hk := ha k
    rw [run_bind]
    generalize k.run a = p at hk
    rcases p with ⟨_ | x, k₁⟩
    · exact hk
    · exact (hf x k₁).trans hk
  | @branch _ a _ ha =>
    -- The branch opens a checkpoint, and closes it whether it succeeds or fails.
    have henter : (k.enter.run a).2.registry.store.snapshots =
        k.registry.store.current :: k.registry.store.snapshots := ha k.enter
    rw [run_branch]
    generalize k.enter.run a = p at henter
    rcases p with ⟨_ | x, k₁⟩
    · exact (Journaled.snapshots_revert _).trans (congrArg List.tail henter)
    · exact (Journaled.snapshots_commit _).trans (congrArg List.tail henter)
  | @attempt _ a _ ha => exact ha k

/-- A branch that fails puts the records back. -/
theorem registry_of_branch_error {k : Keeper L} {a : Action L α} {e : Fault} (ha : Built a)
    (h : (k.run (branch a)).1 = .error e) : (k.run (branch a)).2.registry ≈ k.registry := by
  have henter : (k.enter.run a).2.registry.store.snapshots =
      k.registry.store.current :: k.registry.store.snapshots := ha.snapshots k.enter
  rw [run_branch] at h ⊢
  generalize k.enter.run a = p at h henter
  rcases p with ⟨_ | x, k₁⟩
  · show k₁.registry.store.revert.current = _
    rw [Journaled.current_revert, henter]
    rfl
  · cases h

/-- A handler that fails leaves the records as they are. -/
theorem registry_of_handle_error {k : Keeper L} {b : Block} {m : Request α} {e : Fault}
    (h : (k.run (m.handle b)).1 = .error e) : (k.run (m.handle b)).2.registry ≈ k.registry := by
  rw [Request.handle_eq, run_bind, run_liftM] at h ⊢
  cases hcheck : m.check with
  | error _ => rfl
  | ok _ =>
    rw [hcheck] at h
    exact registry_of_branch_error (built_perform b m) h

/-- A property of the records alone. -/
def OfRecords (P : Keeper L → Prop) : Prop := ∀ k k', k'.registry ≈ k.registry → P k → P k'

theorem OfRecords.recoverable (hP : OfRecords P) : Recoverable P :=
  .of_failed (fun _ _ _ k => hP k _ rfl) (fun k => hP k _ rfl)
    (fun k => hP k _ (Journaled.current_commit _))
    fun ha hresult => hP _ _ (registry_of_branch_error ha hresult)

end LeaseEscrow.Keeper
