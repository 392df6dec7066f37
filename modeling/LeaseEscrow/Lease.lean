import LeaseEscrow.Coin
import LeaseEscrow.Ident.Account
import LeaseEscrow.Time.Instant
import LeaseEscrow.Word

/-!
# Leases

A lessee pays for all hours of a lease in advance. Settlement moves the price of whole
elapsed hours out of escrow and advances `settledAt` by exactly these hours, so that a
started hour is carried over. A lease ends when all of its total is settled.
-/

namespace LeaseEscrow

structure Lease where
  resourceId : ResourceId
  lessee : Account
  /-- The owner of the resource when the lease was made. -/
  owner : Account
  /-- The price when the lease was made. -/
  pricePerHour : Coin
  hours : UInt64
  startedAt : Instant
  total : Coin
  settled : Coin
  settledAt : Instant
deriving DecidableEq

/-- Whole hours that can be billed, and what is due for them. -/
structure Accrual where
  hours : UInt64
  amount : Coin
deriving DecidableEq

namespace Lease

/-- The lease with unsigned zeros for signed ones. -/
def plain (l : Lease) : Lease :=
  { l with
    pricePerHour := l.pricePerHour.plain, total := l.total.plain, settled := l.settled.plain }

/-- A lease that starts now, with nothing settled. -/
def start (resourceId : ResourceId) (lessee owner : Account) (pricePerHour : Coin)
    (hours : UInt64) (now : Instant) : Except Refusal Lease := do
  let total ← pricePerHour.times hours
  return { resourceId, lessee, owner, pricePerHour, hours, total
           startedAt := now, settled := .zero pricePerHour.denom, settledAt := now }

/-! ## Settlement -/

/-- What is still in escrow for the lease. -/
def unsettled (l : Lease) : Except Fault Coin := do
  return ⟨l.total.denom, ← Fault.inRange (l.total.amount.sub? l.settled.amount)⟩

/-- Hours not paid for yet; a started hour counts whole. Hours below zero and hours that no
word can hold count as the largest word. -/
def remainingHours (l : Lease) : Except Fault UInt64 := do
  let unsettled ← l.unsettled
  match unsettled.amount.div? l.pricePerHour.amount with
  | some hours =>
    if hours.isNegative then return largestWord
    else return (wordOf? hours.ceil).getD largestWord
  | none => return largestWord

def isFullySettled (l : Lease) : Bool := l.total.amount ≤ l.settled.amount

/-- What can be billed now: nothing before a whole hour has passed since the last
settlement or when nothing is left, and never more than what is left. -/
def accrualAt (l : Lease) (now : Instant) : Except Fault (Option Accrual) := do
  let elapsed := now.hoursSince l.settledAt
  if elapsed < 1 then return none
  let remaining ← l.unsettled
  if !remaining.isPositive then return none
  let hours := min (UInt64.ofNat elapsed.toNat) (← l.remainingHours)
  let due := match l.pricePerHour.times hours with
    | .ok due => due.amount.min remaining.amount
    | .error _ => remaining.amount
  return some ⟨hours, ⟨remaining.denom, due⟩⟩

/-- Records that an accrual has been paid out. -/
def settle (l : Lease) (accrual : Accrual) : Except Refusal Lease := do
  let settled ← l.settled.add accrual.amount
  require (settled.amount ≤ l.total.amount)
    (.invariantViolation s!"lease {l.resourceId} would settle {settled} of {l.total}")
  match l.settledAt.addHours? accrual.hours.toNat with
  | some settledAt => return { l with settled, settledAt }
  | none => throw (.internal "billed hours overflow")

/-! ## Contract -/

/-- The lease with more hours at its own price. -/
def extend (l : Lease) (extra : UInt64) : Except Refusal Lease := do
  require (l.hours.toNat + extra.toNat < UInt64.size)
    (.invalidLeaseHours extra 1 (largestWord - l.hours))
  let total ← l.total.add (← l.pricePerHour.times extra)
  return { l with hours := l.hours + extra, total }

/-- When the contract ends, if the calendar reaches so far. -/
def expectedEnd? (l : Lease) : Option Instant := l.startedAt.addHours? l.hours.toNat

def validate (l : Lease) : Except Refusal Unit := do
  l.pricePerHour.validatePositive
  l.total.validate
  l.settled.validate
  l.total.expectDenom l.pricePerHour.denom
  l.settled.expectDenom l.pricePerHour.denom
  require (l.hours ≠ 0) (.invalidResource s!"lease {l.resourceId} has zero hours")
  require (l.pricePerHour.costs l.hours l.total)
    (.invalidResource
      s!"lease {l.resourceId} total {l.total} != {l.pricePerHour} × {l.hours}h")
  require (l.settled.amount ≤ l.total.amount)
    (.invalidResource s!"lease {l.resourceId} settled {l.settled} exceeds total {l.total}")
  require (l.startedAt ≤ l.settledAt)
    (.invalidResource s!"lease {l.resourceId} last settled before it started")

end Lease

end LeaseEscrow
