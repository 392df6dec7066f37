import LeaseEscrow.Keeper.Basic

/-!
# Settlement of single records

Paying out the hours that a lease has accrued, and refunding the deposits of a closed
resource. Both change several records and are meant to run in a branch.
-/

namespace LeaseEscrow

/-- What settling a lease did. -/
inductive Outcome where
  /-- Less than a whole hour has passed since the last settlement. -/
  | idle
  /-- Whole hours were paid out and the lease goes on. -/
  | settled (amount : Coin)
  /-- The last hours, or none, were paid out and the lease is gone. -/
  | completed (amount : Coin)
deriving DecidableEq

/-- What left escrow. -/
def Outcome.amount? : Outcome → Option Coin
  | idle => none
  | settled amount => some amount
  | completed amount => some amount

namespace Keeper

variable {L : Type} [Ledger L]

/-- Removes a lease and frees its resource. -/
def endLease (id : ResourceId) : Action L Unit := do
  change fun r => return (← r.deleteLease id).2
  let resource ← read (·.resource id)
  change (·.setResource { resource with leased := false })

/-- Stores a settled lease, or completes it when nothing is left to settle. -/
def finishSettlement (b : Block) (id : ResourceId) (lease : Lease) (paid : Coin) :
    Action L Outcome := do
  if lease.isFullySettled then
    endLease id
    emit b .leaseCompleted (some id) (.lease lease.lessee lease.hours lease.settled lease.total)
    return .completed paid
  else
    change (·.setLease lease)
    return .settled paid

/-- Pays the whole hours accrued on a lease out of escrow: commission to the fee collector
and the community pool, the rest to the owner. A lease that is fully settled is removed
and its resource freed. -/
def settleLease (b : Block) (id : ResourceId) : Action L Outcome := do
  let lease ← read (·.lease id)
  let params ← read Registry.params
  match ← lease.accrualAt b.time with
  | some accrual =>
    let parts ← params.split accrual.amount
    let config ← configNow
    send config.escrow lease.owner parts.payment
    send config.escrow config.feeCollector parts.feeCollector
    send config.escrow config.communityPool parts.communityPool
    let lease ← lease.settle accrual
    let commission ← parts.feeCollector.add parts.communityPool
    emit b .leasePaymentSettled (some id)
      (.settlement lease.owner parts.payment commission lease.settled lease.total)
    finishSettlement b id lease accrual.amount
  | none =>
    if lease.isFullySettled then finishSettlement b id lease (.zero lease.total.denom)
    else return .idle

/-- Refunds every deposit of a closed resource to its depositor and clears the list. -/
def releaseDeposits (b : Block) (id : ResourceId) : Action L (List (Account × Coin)) := do
  let resource ← read (·.resource id)
  resource.expectStatus .closed
  if resource.deposits.isEmpty then return []
  let escrow := (← configNow).escrow
  resource.deposits.forM fun d => send escrow d.depositor d.amount
  change (·.setResource { resource with deposits := [] })
  let refunds := resource.deposits.map fun d => (d.depositor, d.amount)
  emit b .depositsReleased (some id) (.release refunds)
  return refunds

/-- Records that a settlement step failed and was undone. -/
def emitFailure (b : Block) (id : ResourceId) (reason : String) : Action L Unit :=
  emit b .settlementFailed (some id) (.failure reason)

end Keeper

end LeaseEscrow
