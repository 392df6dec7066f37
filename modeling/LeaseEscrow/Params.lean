import LeaseEscrow.Coin
import LeaseEscrow.Time.Instant

/-!
# Parameters

What governance may set: bounds on hours, deposits and their release, and the commission
withheld from every lease payment.
-/

namespace LeaseEscrow

/-- How commission is shared. -/
structure Distribution where
  feeCollector : Decimal
  communityPool : Decimal
deriving DecidableEq

def Distribution.plain (d : Distribution) : Distribution :=
  ⟨d.feeCollector.plain, d.communityPool.plain⟩

structure Params where
  minLeaseHours : UInt64
  maxLeaseHours : UInt64
  /-- The deposit at which a resource becomes active. -/
  minDeposit : Coin
  /-- The share of `minDeposit` due at registration, above 0 and at most 1. -/
  initialDepositShare : Decimal
  /-- The share of a payment withheld as commission, from 0 to below 1. -/
  leaseCommission : Decimal
  distribution : Distribution
  /-- Seconds between the closing of a resource and the release of its deposits. -/
  releaseSeconds : UInt64
deriving DecidableEq

/-- The parts of a settled amount. -/
structure Split where
  payment : Coin
  feeCollector : Coin
  communityPool : Coin
deriving DecidableEq

namespace Params

/-- The parameters with unsigned zeros for signed ones. -/
def plain (p : Params) : Params :=
  { p with
    minDeposit := p.minDeposit.plain
    initialDepositShare := p.initialDepositShare.plain
    leaseCommission := p.leaseCommission.plain
    distribution := p.distribution.plain }

/-- The parameters before governance changes any: leases of an hour to thirty days,
deposits of 1000, a tenth of it at registration, a tenth of commission, and a release
after seven days. -/
def default : Params where
  minLeaseHours := 1
  maxLeaseHours := 720
  minDeposit := ⟨"umedia", .ofUInt64 1000⟩
  initialDepositShare := .percent 10
  leaseCommission := .percent 10
  distribution := ⟨.percent 50, .percent 50⟩
  releaseSeconds := 604800

/-- The one denomination of all deposits and prices. -/
def denom (p : Params) : String := p.minDeposit.denom

/-- The least deposit at registration: the share of `minDeposit`, a fraction counting as
one unit more. -/
def minInitialDeposit (p : Params) : Except Fault Coin := do
  let share ← Fault.inRange (p.minDeposit.amount.mul? p.initialDepositShare)
  return ⟨p.denom, share.awayFromZero⟩

/-- The time from closing to release, at most the longest span of whole seconds. -/
def releasePeriod (p : Params) : Span where
  nanos := min p.releaseSeconds.toNat 9223372036854775 * nanosPerSecond
  bounded := by simp only [nanosPerSecond, Span.longest]; omega

def checkLeaseHours (p : Params) (hours : UInt64) : Except Refusal Unit :=
  require (p.minLeaseHours ≤ hours ∧ hours ≤ p.maxLeaseHours)
    (.invalidLeaseHours hours p.minLeaseHours p.maxLeaseHours)

/-- Splits a settled amount. Commission and the collector's share of it are cut to whole
units; the pool takes the rest of the commission and the payment the rest of the amount. -/
def split (p : Params) (settled : Coin) : Except Fault Split := do
  let commission := (← Fault.inRange (settled.amount.mul? p.leaseCommission)).trunc
  let fee := (← Fault.inRange (commission.mul? p.distribution.feeCollector)).trunc
  let pool ← Fault.inRange (commission.sub? fee)
  let payment ← Fault.inRange (settled.amount.sub? commission)
  return {
    payment := ⟨settled.denom, payment⟩
    feeCollector := ⟨settled.denom, fee⟩
    communityPool := ⟨settled.denom, pool⟩ }

def validate (p : Params) : Except Fault Unit := do
  require (p.minLeaseHours ≠ 0) (.invalidParams "min_lease_hours must be at least 1")
  require (p.minLeaseHours ≤ p.maxLeaseHours)
    (.invalidParams
      s!"max_lease_hours {p.maxLeaseHours} below min_lease_hours {p.minLeaseHours}")
  Refusal.rephrase (fun cause => .invalidParams s!"min_deposit: {cause}")
    p.minDeposit.validatePositive
  require (.zero < p.initialDepositShare ∧ p.initialDepositShare ≤ .one)
    (.invalidParams
      s!"initial_deposit_percentage {p.initialDepositShare} must be in (0, 1]")
  require (.zero ≤ p.leaseCommission ∧ p.leaseCommission < .one)
    (.invalidParams s!"lease_commission {p.leaseCommission} must be in [0, 1)")
  require (.zero ≤ p.distribution.feeCollector ∧ .zero ≤ p.distribution.communityPool)
    (.invalidParams "commission distribution shares must be non-negative")
  let total ← Fault.inRange (p.distribution.feeCollector.add? p.distribution.communityPool)
  require (total ≈ .one)
    (.invalidParams s!"commission distribution must sum to 1, got {total}")
  require (p.releaseSeconds ≠ 0) (.invalidParams "deposit_release_period_secs must be positive")

end Params

end LeaseEscrow
