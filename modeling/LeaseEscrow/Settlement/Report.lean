import LeaseEscrow.Refusal

/-!
# Settlement reports

What settlement did in one block, and which records failed and were undone.
-/

namespace LeaseEscrow

inductive Phase where
  /-- Hourly payments of leases. -/
  | settleLeases
  /-- Refunds of deposits of closed resources. -/
  | releaseDeposits
deriving DecidableEq

def Phase.label : Phase → String
  | settleLeases => "SETTLE_LEASES"
  | releaseDeposits => "RELEASE_DEPOSITS"

structure Failure where
  phase : Phase
  resourceId : ResourceId
  cause : Refusal
deriving DecidableEq

structure Report where
  height : UInt64
  /-- Leases that paid out at least one hour. -/
  leasesSettled : Nat
  /-- Leases that reached their total and were removed. -/
  leasesCompleted : Nat
  /-- Closed resources whose deposits were refunded. -/
  depositsReleased : Nat
  failures : List Failure
deriving DecidableEq

namespace Report

def empty (height : UInt64) : Report := ⟨height, 0, 0, 0, []⟩

/-- No record failed. -/
def isClean (r : Report) : Bool := r.failures.isEmpty

/-- Nothing happened. -/
def isIdle (r : Report) : Bool :=
  r.leasesSettled == 0 && r.leasesCompleted == 0 && r.depositsReleased == 0 && r.isClean

end Report

end LeaseEscrow
