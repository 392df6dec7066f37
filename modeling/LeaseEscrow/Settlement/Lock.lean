import LeaseEscrow.Params
import LeaseEscrow.Resource

/-!
# The deposit lock

Deposits of a closed resource stay in escrow for a period, so that disputes can still be
raised, and are due for release afterwards.
-/

namespace LeaseEscrow

structure DepositLock where
  period : Span
deriving DecidableEq

namespace DepositLock

def ofParams (p : Params) : DepositLock := ⟨p.releasePeriod⟩

/-- When the deposits unlock, if the resource is closed and the calendar reaches so far. -/
def unlocksAt? (lock : DepositLock) (r : Resource) : Option Instant :=
  if r.status = .closed then r.closedAt.bind fun closed => closed.add? lock.period else none

/-- Closed, with deposits left, and past the lock. -/
def isDue (lock : DepositLock) (r : Resource) (now : Instant) : Bool :=
  !r.deposits.isEmpty && (lock.unlocksAt? r).any fun unlocked => unlocked ≤ now

end DepositLock

end LeaseEscrow
