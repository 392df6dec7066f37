import LeaseEscrow.Coin
import LeaseEscrow.Ident.Account

/-!
# Events

Every change of state, and every settlement step that failed, leaves one event with the
height of its block. An indexer that reads only events can follow all that happens.
-/

namespace LeaseEscrow

inductive EventKind where
  | resourceRegistered
  | resourceUpdated
  | resourceDeposited
  | resourceLeased
  | leaseExtended
  | leaseCancelled
  | resourceClosed
  /-- Accrued hours were paid out of escrow. -/
  | leasePaymentSettled
  /-- The whole contract is settled and the lease gone. -/
  | leaseCompleted
  | depositsReleased
  /-- A settlement step failed and was rolled back. -/
  | settlementFailed
  | paramsUpdated
deriving DecidableEq

def EventKind.label : EventKind → String
  | resourceRegistered => "RESOURCE_REGISTERED"
  | resourceUpdated => "RESOURCE_UPDATED"
  | resourceDeposited => "RESOURCE_DEPOSITED"
  | resourceLeased => "RESOURCE_LEASED"
  | leaseExtended => "LEASE_EXTENDED"
  | leaseCancelled => "LEASE_CANCELLED"
  | resourceClosed => "RESOURCE_CLOSED"
  | leasePaymentSettled => "LEASE_PAYMENT_SETTLED"
  | leaseCompleted => "LEASE_COMPLETED"
  | depositsReleased => "DEPOSITS_RELEASED"
  | settlementFailed => "SETTLEMENT_FAILED"
  | paramsUpdated => "PARAMS_UPDATED"

/-- What an event tells besides its kind. -/
inductive EventDetail where
  | resource (owner : Account) (status : Status) (totalDeposit : Coin)
  | deposit (depositor : Account) (amount totalDeposit : Coin) (status : Status)
  | lease (lessee : Account) (hours : UInt64) (amount total : Coin)
  | cancellation (lessee : Account) (settled refunded : Coin)
  | settlement (owner : Account) (payment commission settled total : Coin)
  | release (refunds : List (Account × Coin))
  | failure (reason : String)
  | params
deriving DecidableEq

structure Event where
  kind : EventKind
  height : UInt64
  /-- The resource concerned, if the event concerns one. -/
  resourceId : Option ResourceId
  detail : EventDetail
deriving DecidableEq

end LeaseEscrow
