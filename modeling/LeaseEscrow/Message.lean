import LeaseEscrow.Lease
import LeaseEscrow.Params
import LeaseEscrow.Resource

/-!
# Messages

What accounts ask the keeper to do, with the checks that need no state, and what it
answers.
-/

namespace LeaseEscrow

namespace Message

structure RegisterResource where
  /-- The id that the sender chose, if any. -/
  id : Option ResourceId
  url : String
  info : NodeInfo
  hardware : Hardware
  pricePerHour : Coin
  deposit : Coin
  sender : Account
deriving DecidableEq

/-- Fields that are absent stay as they are. -/
structure UpdateResource where
  id : ResourceId
  url : Option String
  info : Option NodeInfo
  hardware : Option Hardware
  pricePerHour : Option Coin
  sender : Account
deriving DecidableEq

structure AddDeposit where
  id : ResourceId
  amount : Coin
  sender : Account
deriving DecidableEq

structure TakeLease where
  id : ResourceId
  hours : UInt64
  amount : Coin
  sender : Account
deriving DecidableEq

structure ExtendLease where
  id : ResourceId
  hours : UInt64
  amount : Coin
  sender : Account
deriving DecidableEq

structure CancelLease where
  id : ResourceId
  sender : Account
deriving DecidableEq

structure CloseResource where
  id : ResourceId
  sender : Account
deriving DecidableEq

structure UpdateParams where
  params : Params
  authority : Account
deriving DecidableEq

/-! ## Checks without state -/

def RegisterResource.validate (m : RegisterResource) : Except Refusal Unit := do
  validateUrl m.url
  m.info.validate
  m.hardware.validate
  m.pricePerHour.validatePositive
  m.deposit.validatePositive
  m.deposit.expectDenom m.pricePerHour.denom

/-- The message provides no field. -/
def UpdateResource.isEmpty (m : UpdateResource) : Bool :=
  m.url.isNone && m.info.isNone && m.hardware.isNone && m.pricePerHour.isNone

def UpdateResource.validate (m : UpdateResource) : Except Refusal Unit := do
  require (!m.isEmpty) (.invalidResource "update carries no fields")
  m.url.forM validateUrl
  m.info.forM NodeInfo.validate
  m.hardware.forM Hardware.validate
  m.pricePerHour.forM Coin.validatePositive

def AddDeposit.validate (m : AddDeposit) : Except Refusal Unit := m.amount.validatePositive

/-- A lease is made and extended by whole hours, at least one. -/
def validateHours (hours : UInt64) : Except Refusal Unit :=
  require (hours ≠ 0) (.invalidLeaseHours hours 1 largestWord)

def TakeLease.validate (m : TakeLease) : Except Refusal Unit := do
  validateHours m.hours
  m.amount.validatePositive

def ExtendLease.validate (m : ExtendLease) : Except Refusal Unit := do
  validateHours m.hours
  m.amount.validatePositive

/-- Ids and accounts are valid by their types, so nothing is left to check. -/
def CancelLease.validate (_ : CancelLease) : Except Refusal Unit := .ok ()

/-- Ids and accounts are valid by their types, so nothing is left to check. -/
def CloseResource.validate (_ : CloseResource) : Except Refusal Unit := .ok ()

def UpdateParams.validate (m : UpdateParams) : Except Fault Unit := m.params.validate

end Message

/-! ## Replies -/

namespace Reply

structure Registered where
  id : ResourceId
  status : Status
deriving DecidableEq

structure Deposited where
  totalDeposit : Coin
  status : Status
deriving DecidableEq

/-- The lease that was made or extended. -/
structure Leased where
  lease : Lease
deriving DecidableEq

structure Cancelled where
  /-- Paid to the owner for the hours until the cancellation. -/
  settled : Coin
  /-- Returned to the lessee. -/
  refunded : Coin
deriving DecidableEq

end Reply

end LeaseEscrow
