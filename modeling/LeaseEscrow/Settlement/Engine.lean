import LeaseEscrow.Keeper.Settlement
import LeaseEscrow.Settlement.Lock
import LeaseEscrow.Settlement.Report

/-!
# The settlement engine

Once per block, before its messages: first every lease is settled, then the deposits that are
due are released, both in the order of ids and each record in a branch of its own. A record
that fails is undone, reported, and tried again in the next block.
-/

namespace LeaseEscrow

/-- The engine remembers only the last height that it settled. -/
structure Engine where
  lastHeight : Option UInt64
deriving DecidableEq

namespace Engine

def fresh : Engine := ⟨none⟩

variable {L : Type} [Ledger L]

/-- Reports a record that failed and was undone. -/
def recordFailure (b : Block) (report : Report) (phase : Phase) (id : ResourceId)
    (cause : Refusal) : Action L Report := do
  Keeper.emitFailure b id cause.message
  return { report with failures := report.failures ++ [⟨phase, id, cause⟩] }

/-- What an outcome adds to a report; a completion without payment settles nothing. -/
def countOutcome (report : Report) : Outcome → Report
  | .idle => report
  | .settled _ => { report with leasesSettled := report.leasesSettled + 1 }
  | .completed amount =>
    { report with
      leasesSettled := if amount.isPositive then report.leasesSettled + 1 else report.leasesSettled
      leasesCompleted := report.leasesCompleted + 1 }

def settleOne (b : Block) (report : Report) (id : ResourceId) : Action L Report := do
  match ← Keeper.attempt (Keeper.branch (Keeper.settleLease b id)) with
  | .ok outcome => return countOutcome report outcome
  | .error cause => recordFailure b report .settleLeases id cause

def releaseOne (b : Block) (report : Report) (id : ResourceId) : Action L Report := do
  match ← Keeper.attempt (Keeper.branch (Keeper.releaseDeposits b id)) with
  | .ok _ => return { report with depositsReleased := report.depositsReleased + 1 }
  | .error cause => recordFailure b report .releaseDeposits id cause

/-- Pays out the whole accrued hours of every lease. -/
def settleLeases (b : Block) (report : Report) : Action L Report := do
  (← Keeper.read Registry.leaseIds).foldlM (settleOne b) report

/-- Refunds the deposits of closed resources whose lock has expired. -/
def releaseDeposits (b : Block) (report : Report) : Action L Report := do
  let lock := DepositLock.ofParams (← Keeper.read Registry.params)
  let due := (← Keeper.read Registry.resources).filter fun r => lock.isDue r b.time
  (due.map Resource.id).foldlM (releaseOne b) report

/-- Settles a block, unless this height or a later one has been settled. -/
def beginBlock (e : Engine) (b : Block) : Action L (Report × Engine) := do
  require (e.lastHeight.all (· < b.height)) (.blockAlreadySettled b.height)
  let report ← settleLeases b (.empty b.height)
  let report ← releaseDeposits b report
  return (report, ⟨some b.height⟩)

end Engine

end LeaseEscrow
