import LeaseEscrow.Keeper.Basic

/-!
# Invariants of the module

Leased flags agree with the leases, no lease has settled more than its total, and escrow
holds at least what is owed: all deposits and what leases have not settled.
-/

namespace LeaseEscrow.Keeper

variable {L : Type}

def checkFlag (leases : List Lease) (r : Resource) : Except Refusal Unit :=
  require (r.leased = leases.any fun l => l.resourceId = r.id)
    (.invariantViolation s!"resource {r.id} leased={r.leased} disagrees with lease store")

def checkLease (registry : Registry) (l : Lease) : Except Refusal Unit := do
  require (registry.hasResource l.resourceId)
    (.invariantViolation s!"lease {l.resourceId} has no resource")
  require (l.settled.amount ≤ l.total.amount)
    (.invariantViolation s!"lease {l.resourceId} settled {l.settled} exceeds total {l.total}")

/-- Why the obligations have no sum. -/
def unsummed (cause : Refusal) : Refusal :=
  .invariantViolation s!"escrow obligations cannot be summed: {cause}"

/-- The sum of all deposits. -/
def depositsOwed (denom : String) (resources : List Resource) : Except Refusal Coin := do
  Coin.sum denom (← resources.mapM Resource.totalDeposit)

def checkInvariants [Ledger L] (k : Keeper L) : Except Fault Unit := do
  let resources ← k.registry.resources
  let leases ← k.registry.leases
  requireAll (checkFlag leases) resources
  requireAll (checkLease k.registry) leases
  let denom := (← k.registry.params).denom
  let deposits ← Refusal.rephrase unsummed (depositsOwed denom resources)
  let parts ← leases.mapM Lease.unsettled
  let unsettled ← Refusal.rephrase unsummed (Coin.sum denom parts)
  let owed ← Refusal.rephrase unsummed (deposits.add unsettled)
  let held := Ledger.balance k.ledger k.config.escrow denom
  require (owed.amount ≤ held.amount)
    (.invariantViolation
      (s!"escrow holds {held} but owes {deposits} in deposits and {unsettled} in leases"))

end LeaseEscrow.Keeper
