import LeaseEscrow.Proofs.Keeper.Run

/-!
# Requests

The eight messages as one type, indexed by what they are answered with. Handling a request is
checking it and performing it in a branch.
-/

namespace LeaseEscrow

inductive Request : Type → Type where
  | register (m : Message.RegisterResource) : Request Reply.Registered
  | update (m : Message.UpdateResource) : Request Unit
  | deposit (m : Message.AddDeposit) : Request Reply.Deposited
  | lease (m : Message.TakeLease) : Request Reply.Leased
  | extend (m : Message.ExtendLease) : Request Reply.Leased
  | cancel (m : Message.CancelLease) : Request Reply.Cancelled
  | close (m : Message.CloseResource) : Request Unit
  | setParams (m : Message.UpdateParams) : Request Unit

namespace Request

variable {α L : Type}

def sender : Request α → Account
  | .register m => m.sender
  | .update m => m.sender
  | .deposit m => m.sender
  | .lease m => m.sender
  | .extend m => m.sender
  | .cancel m => m.sender
  | .close m => m.sender
  | .setParams m => m.authority

/-- The checks that need no state. -/
def check : Request α → Except Fault Unit
  | .register m => m.validate
  | .update m => m.validate
  | .deposit m => m.validate
  | .lease m => m.validate
  | .extend m => m.validate
  | .cancel m => m.validate
  | .close m => m.validate
  | .setParams m => m.validate

variable [Ledger L]

def perform (b : Block) : Request α → Action L α
  | .register m => Keeper.performRegistration b m
  | .update m => Keeper.performUpdate b m
  | .deposit m => Keeper.performDeposit b m
  | .lease m => Keeper.performLease b m
  | .extend m => Keeper.performExtension b m
  | .cancel m => Keeper.performCancellation b m
  | .close m => Keeper.performClosing b m
  | .setParams m => Keeper.performParamsUpdate b m

/-- The handler of a request. -/
def handle (b : Block) : Request α → Action L α
  | .register m => Keeper.registerResource b m
  | .update m => Keeper.updateResource b m
  | .deposit m => Keeper.addDeposit b m
  | .lease m => Keeper.takeLease b m
  | .extend m => Keeper.extendLease b m
  | .cancel m => Keeper.cancelLease b m
  | .close m => Keeper.closeResource b m
  | .setParams m => Keeper.updateParams b m

theorem handle_eq (b : Block) (m : Request α) :
    (m.handle b : Action L α) = (do m.check; Keeper.branch (m.perform b)) := by
  cases m <;> rfl

end Request

/-- A handler succeeds when the checks pass and the request can be performed. -/
theorem Keeper.run_handle_eq_ok {L α : Type} [Ledger L] (b : Block) {k k' : Keeper L}
    {m : Request α} {reply : α} :
    k.run (m.handle b) = (.ok reply, k') ↔
      m.check = .ok () ∧ ∃ k₁, k.enter.run (m.perform b) = (.ok reply, k₁) ∧ k₁.keep = k' := by
  rw [Request.handle_eq, run_lift_bind_eq_ok]
  simp only [run_branch_eq_ok]
  constructor
  · rintro ⟨_, hcheck, hperform⟩
    exact ⟨hcheck, hperform⟩
  · rintro ⟨hcheck, hperform⟩
    exact ⟨(), hcheck, hperform⟩

end LeaseEscrow
