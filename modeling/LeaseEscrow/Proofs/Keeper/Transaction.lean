import LeaseEscrow.Proofs.Keeper.Branch
import LeaseEscrow.Proofs.Sample

/-!
# Transactions

A host puts programs together from requests, settlement, ledger operations and nested branches.
Main statement (`transactional`): handlers that fail leave the contents as they were, no handler
leaves a checkpoint open, and no program can tell branches on journals from branches on copies.
-/

namespace LeaseEscrow

/-! ## Programs -/

/-- What a host may put together: requests, settlement and ledger operations, in sequence and in
branches. The error of a part ends the program unless an enclosing `attempt` catches it. -/
inductive Program : Type → Type 1 where
  | done {α : Type} (a : α) : Program α
  | refuse {α : Type} (cause : Refusal) : Program α
  | bind {α β : Type} (p : Program α) (next : α → Program β) : Program β
  | attempt {α : Type} (p : Program α) : Program (Except Refusal α)
  | branch {α : Type} (p : Program α) : Program α
  | request {α : Type} (b : Block) (m : Request α) : Program α
  | settle (b : Block) (id : ResourceId) : Program Outcome
  | release (b : Block) (id : ResourceId) : Program (List (Account × Coin))
  | mint (account : Account) (coin : Coin) : Program Unit
  | burn (account : Account) (coin : Coin) : Program Unit
  | transfer (source target : Account) (coin : Coin) : Program Unit

namespace Program

open Keeper

variable {α : Type}

/-- The action of a program, for one way to run transactions. Requests run in one too. -/
def action (transact : {β : Type} → Action Bank β → Action Bank β) {α : Type} :
    Program α → Action Bank α
  | .done a => pure a
  | .refuse cause => Keeper.refuse cause
  | .bind p next => do (next (← p.action transact)).action transact
  | .attempt p => Keeper.attempt (p.action transact)
  | .branch p => transact (p.action transact)
  | .request b m => do
    m.check
    transact (m.perform b)
  | .settle b id => settleLease b id
  | .release b id => releaseDeposits b id
  | .mint account coin => onLedger fun ledger => ledger.mint account coin
  | .burn account coin => onLedger fun ledger => ledger.burn account coin
  | .transfer source target coin => onLedger fun ledger => ledger.transfer source target coin

/-- On journals, a request runs its handler. -/
theorem action_request (b : Block) (m : Request α) :
    (request b m).action Keeper.branch = m.handle b := (m.handle_eq b).symm

/-- A program does the same on journals and on copies. -/
theorem matches_action (p : Program α) : Matches (p.action Keeper.branch) (p.action copying) := by
  induction p with
  | done a => exact .pure a
  | refuse cause => exact .lift (.error (.refused cause))
  | bind p next ihp ihnext => exact .bind ihp ihnext
  | attempt p ih => exact .attempt ih
  | branch p ih => exact ih.branch_copying
  | request b m => exact .bind (.lift _) fun _ => (tame_perform b m).branch_copying
  | settle b id => exact tame_settleLease b id
  | release b id => exact tame_releaseDeposits b id
  | mint account coin => exact .onLedger (Bank.writes_mint account coin)
  | burn account coin => exact .onLedger (Bank.writes_burn account coin)
  | transfer source target coin => exact .onLedger (Bank.writes_transfer source target coin)

end Program

/-- A handler that fails leaves entries, book and events as they were, every handler leaves the
depths of both journals as they were, and no program can tell branches that undo by notes from
branches on a copy of the whole keeper. -/
theorem transactional :
    (∀ {α : Type} (k : Keeper Bank) (b : Block) (m : Request α) (result : Except Fault α)
        (after : Keeper Bank), k.run (m.handle b) = (result, after) →
      after.registry.store.depth = k.registry.store.depth ∧
      after.ledger.depth = k.ledger.depth ∧
      ∀ e, result = .error e →
        after.registry.store.entries = k.registry.store.entries ∧
        after.ledger.current.balances = k.ledger.current.balances ∧
        after.ledger.current.supply = k.ledger.current.supply ∧
        after.events = k.events) ∧
    ∀ {α : Type} (k : Keeper Bank) (p : Program α),
      let journaled := k.run (p.action Keeper.branch)
      let copied := k.run (p.action Keeper.copying)
      journaled.1 = copied.1 ∧
      journaled.2.registry.store.entries = copied.2.registry.store.entries ∧
      journaled.2.registry.store.snapshots = copied.2.registry.store.snapshots ∧
      journaled.2.ledger.current = copied.2.ledger.current ∧
      journaled.2.ledger.snapshots = copied.2.ledger.snapshots ∧
      journaled.2.events = copied.2.events := by
  constructor
  · intro α k b m result after hrun
    have hcontained := (Keeper.tame_handle b m).contained k
    rw [hrun] at hcontained
    refine ⟨?_, ?_, ?_⟩
    · rw [← Journaled.length_snapshots, ← Journaled.length_snapshots, hcontained.store]
    · rw [← Journaled.length_snapshots, ← Journaled.length_snapshots, hcontained.ledger]
    · rintro e rfl
      have hsame := Keeper.equiv_of_handle_error b (congrArg Prod.fst hrun)
      rw [hrun] at hsame
      exact ⟨congrArg OrderedMap.entries (Registry.equiv_def.1 hsame.registry),
        congrArg Book.balances hsame.book, congrArg Book.supply hsame.book, hsame.events⟩
  · intro α k p
    have hmatches := p.matches_action
    obtain ⟨hresult, hsame⟩ := hmatches.agree (Keeper.SameContents.refl k)
    have hleft := hmatches.contained k
    have hright := hmatches.contained' k
    refine ⟨hresult, ?_, hleft.store.trans hright.store.symm, hsame.book,
      hleft.ledger.trans hright.ledger.symm, hsame.events⟩
    exact congrArg OrderedMap.entries (Registry.equiv_def.1 hsame.registry)

/-- A registration that leaves the choice of its id to the keeper. -/
def unnamedNode : Message.RegisterResource := { Sample.registration with id := none }

/-- Registering without funds fails after the id was drawn, and the counter is put back, here under
an open checkpoint. -/
theorem registration_without_funds_undone :
    let k := (Sample.keeperOver .empty).enter
    let drawn := k.run (Keeper.performRegistration (Sample.block 0) unnamedNode)
    let failed := k.run ((Request.register unnamedNode).handle (Sample.block 0))
    k.registry.nextId = 1 ∧ drawn.2.registry.nextId = 2 ∧
      failed.1 = .error (.refused (.insufficientFunds (.ofUInt64 1000) .zero)) ∧
      failed.2.registry.store.entries = k.registry.store.entries := by
  intro k drawn failed
  have hfail : failed.1 = .error (.refused (.insufficientFunds (.ofUInt64 1000) .zero)) := by
    decide +kernel
  have hundone := transactional.1 k (Sample.block 0) (.register unnamedNode) _ _ rfl
  exact ⟨by decide +kernel, by decide +kernel, hfail, (hundone.2.2 _ hfail).1⟩

end LeaseEscrow
