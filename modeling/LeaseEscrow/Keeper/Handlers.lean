import LeaseEscrow.Keeper.Settlement
import LeaseEscrow.Message

/-!
# Handling messages

What each message does to the keeper, and its handler: the message is checked on its own
first and then performed in a branch, so that a message that is refused leaves no trace.
-/

namespace LeaseEscrow.Keeper

variable {L : Type} [Ledger L]

def expectSender (sender expected : Account) (reason : String) : Except Refusal Unit :=
  require (sender = expected) (.unauthorized reason)

/-- A resource as events show it. -/
def detailOf (r : Resource) : Except Refusal EventDetail := do
  return .resource r.owner r.status (← r.totalDeposit)

/-- An id from the counter. -/
def allocateId : Action L ResourceId := do
  let (id, registry) ← (← registryNow).allocateId
  setRegistry registry
  return id

/-- The id that the sender chose, unless it is taken, or else one from the counter. -/
def chooseId (chosen : Option ResourceId) : Action L ResourceId := do
  match chosen with
  | some id =>
    require (!(← read fun r => pure (r.hasResource id))) (.alreadyExists id)
    return id
  | none => allocateId

/-! ## What messages do -/

/-- The resource that a registration makes. -/
def registered (b : Block) (m : Message.RegisterResource) (params : Params) (id : ResourceId) :
    Resource where
  id
  owner := m.sender
  url := m.url
  info := m.info
  hardware := m.hardware
  pricePerHour := m.pricePerHour
  status := if params.minDeposit.amount ≤ m.deposit.amount then .active else .pending
  leased := false
  deposits := [⟨m.sender, m.deposit, b.time⟩]
  registeredAt := b.time
  closedAt := none

/-- Registers a resource and puts its first deposit into escrow. -/
def performRegistration (b : Block) (m : Message.RegisterResource) : Action L Reply.Registered := do
  let params ← read Registry.params
  m.pricePerHour.expectDenom params.denom
  m.deposit.expectDenom params.denom
  let least ← params.minInitialDeposit
  require (least.amount ≤ m.deposit.amount)
    (.insufficientDeposit least.amount m.deposit.amount)
  let id ← chooseId m.id
  send m.sender (← configNow).escrow m.deposit
  let resource := registered b m params id
  resource.validate
  change (·.setResource resource)
  emit b .resourceRegistered (some id) (← detailOf resource)
  return ⟨id, resource.status⟩

/-- A price that is given has the one denomination. -/
def checkPrice (price : Option Coin) : Action L Unit :=
  match price with
  | some price => do price.expectDenom (← read Registry.params).denom
  | none => return

/-- The resource with the fields that an update provides. -/
def updated (m : Message.UpdateResource) (old : Resource) : Resource :=
  { old with
    url := m.url.getD old.url
    info := m.info.getD old.info
    hardware := m.hardware.getD old.hardware
    pricePerHour := m.pricePerHour.getD old.pricePerHour }

/-- Changes the fields that the owner provides; a running lease keeps its price. -/
def performUpdate (b : Block) (m : Message.UpdateResource) : Action L Unit := do
  let old ← read (·.resource m.id)
  expectSender m.sender old.owner "only the owner may update a resource"
  require (old.status ≠ .closed) (.invalidStatus old.id .active old.status)
  checkPrice m.pricePerHour
  let resource := updated m old
  resource.validate
  change (·.setResource resource)
  emit b .resourceUpdated (some m.id) (← detailOf resource)

/-- A resource becomes active when its deposits come to the minimum. -/
def activate (params : Params) (total : Coin) (resource : Resource) : Except Refusal Resource :=
  if params.minDeposit.amount ≤ total.amount then resource.become .active else .ok resource

/-- Adds to the deposit of a pending resource, which becomes active when it has enough.
Anyone may deposit. -/
def performDeposit (b : Block) (m : Message.AddDeposit) : Action L Reply.Deposited := do
  let params ← read Registry.params
  let old ← read (·.resource m.id)
  old.expectStatus .pending
  m.amount.expectDenom params.denom
  send m.sender (← configNow).escrow m.amount
  let resource := { old with deposits := old.deposits ++ [⟨m.sender, m.amount, b.time⟩] }
  let total ← resource.totalDeposit
  let resource ← activate params total resource
  change (·.setResource resource)
  emit b .resourceDeposited (some m.id) (.deposit m.sender m.amount total resource.status)
  return ⟨total, resource.status⟩

/-- Leases an available resource and puts the whole price into escrow. -/
def performLease (b : Block) (m : Message.TakeLease) : Action L Reply.Leased := do
  let params ← read Registry.params
  let resource ← read (·.resource m.id)
  resource.expectStatus .active
  require (!resource.leased) (.alreadyLeased m.id)
  params.checkLeaseHours m.hours
  let price := resource.pricePerHour
  let cost ← price.times m.hours
  require (m.amount ≈ cost)
    (.invalidAmount s!"lease of {m.hours}h at {price} costs {cost}, got {m.amount}")
  send m.sender (← configNow).escrow m.amount
  let lease ← Lease.start m.id m.sender resource.owner price m.hours b.time
  change (·.setLease lease)
  change (·.setResource { resource with leased := true })
  emit b .resourceLeased (some m.id) (.lease m.sender lease.hours m.amount lease.total)
  return ⟨lease⟩

/-- Buys more hours of a lease at its own price. -/
def performExtension (b : Block) (m : Message.ExtendLease) : Action L Reply.Leased := do
  let params ← read Registry.params
  let old ← read (·.lease m.id)
  expectSender m.sender old.lessee "only the lessee may extend a lease"
  let hours := min (old.hours.toNat + m.hours.toNat) largestWord.toNat
  require (hours ≤ params.maxLeaseHours.toNat)
    (.invalidLeaseHours (.ofNat hours) params.minLeaseHours params.maxLeaseHours)
  let price := old.pricePerHour
  let cost ← price.times m.hours
  require (m.amount ≈ cost)
    (.invalidAmount s!"extension of {m.hours}h at {price} costs {cost}, got {m.amount}")
  let lease ← old.extend m.hours
  send m.sender (← configNow).escrow m.amount
  change (·.setLease lease)
  emit b .leaseExtended (some m.id) (.lease lease.lessee lease.hours m.amount lease.total)
  return ⟨lease⟩

/-- Returns what a lease has not earned to its lessee and removes it. -/
def refundLease (id : ResourceId) : Action L Coin := do
  let lease ← read (·.lease id)
  let refund ← lease.unsettled
  send (← configNow).escrow lease.lessee refund
  endLease id
  return refund

/-- Returns the rest of a lease that its settlement has not ended. -/
def refundRest (id : ResourceId) (nothing : Coin) : Outcome → Action L Coin
  | .completed _ => return nothing
  | _ => refundLease id

/-- Ends a lease early: accrued hours are paid to the owner, the rest goes back. -/
def performCancellation (b : Block) (m : Message.CancelLease) : Action L Reply.Cancelled := do
  let lease ← read (·.lease m.id)
  expectSender m.sender lease.lessee "only the lessee may cancel a lease"
  let nothing := Coin.zero lease.total.denom
  let outcome ← settleLease b m.id
  let settled := outcome.amount?.getD nothing
  let refunded ← refundRest m.id nothing outcome
  emit b .leaseCancelled (some m.id) (.cancellation m.sender settled refunded)
  return ⟨settled, refunded⟩

/-- Closes a resource for good. Its deposits stay in escrow until they are released. -/
def performClosing (b : Block) (m : Message.CloseResource) : Action L Unit := do
  let old ← read (·.resource m.id)
  expectSender m.sender old.owner "only the owner may close a resource"
  require (old.status ≠ .closed) (.invalidStatus old.id .active old.status)
  require (!old.leased) (.alreadyLeased m.id)
  let resource := { ← old.become .closed with closedAt := some b.time }
  change (·.setResource resource)
  emit b .resourceClosed (some m.id) (← detailOf resource)

/-- Replaces the parameters; the denomination stays while any resource exists. -/
def performParamsUpdate (b : Block) (m : Message.UpdateParams) : Action L Unit := do
  expectSender m.authority (← configNow).authority "only the authority may update params"
  let old := (← read Registry.params).denom
  let new := m.params.denom
  if old ≠ new then
    require (← read Registry.resources).isEmpty
      (.invalidParams s!"cannot change denom from {old} to {new} while resources exist")
  change fun r => return r.setParams m.params
  emit b .paramsUpdated none .params

/-! ## Handlers -/

def registerResource (b : Block) (m : Message.RegisterResource) : Action L Reply.Registered := do
  m.validate
  branch (performRegistration b m)

def updateResource (b : Block) (m : Message.UpdateResource) : Action L Unit := do
  m.validate
  branch (performUpdate b m)

def addDeposit (b : Block) (m : Message.AddDeposit) : Action L Reply.Deposited := do
  m.validate
  branch (performDeposit b m)

def takeLease (b : Block) (m : Message.TakeLease) : Action L Reply.Leased := do
  m.validate
  branch (performLease b m)

def extendLease (b : Block) (m : Message.ExtendLease) : Action L Reply.Leased := do
  m.validate
  branch (performExtension b m)

def cancelLease (b : Block) (m : Message.CancelLease) : Action L Reply.Cancelled := do
  m.validate
  branch (performCancellation b m)

def closeResource (b : Block) (m : Message.CloseResource) : Action L Unit := do
  m.validate
  branch (performClosing b m)

def updateParams (b : Block) (m : Message.UpdateParams) : Action L Unit := do
  m.validate
  branch (performParamsUpdate b m)

end LeaseEscrow.Keeper
