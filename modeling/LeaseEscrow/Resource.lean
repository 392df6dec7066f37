import LeaseEscrow.Coin
import LeaseEscrow.Ident.Account
import LeaseEscrow.Text.Blank
import LeaseEscrow.Time.Instant

/-!
# Resources

A resource is a leasable node that its owner registers with a deposit. Being leased is no
status of its own: an active resource carries a flag. Deposits stay on record until a closed
resource has them released.
-/

namespace LeaseEscrow

/-- What an owner tells about a node. -/
structure NodeInfo where
  moniker : String
  description : String
  contact : String
deriving DecidableEq

structure Hardware where
  cpus : UInt32
  ramGb : UInt32
  storageGb : UInt64
deriving DecidableEq

structure Deposit where
  depositor : Account
  amount : Coin
  time : Instant
deriving DecidableEq

def Deposit.plain (d : Deposit) : Deposit := { d with amount := d.amount.plain }

structure Resource where
  id : ResourceId
  owner : Account
  url : String
  info : NodeInfo
  hardware : Hardware
  pricePerHour : Coin
  status : Status
  /-- Whether a lease of this resource exists. -/
  leased : Bool
  deposits : List Deposit
  registeredAt : Instant
  closedAt : Option Instant
deriving DecidableEq

/-! ## Descriptive fields -/

def checkLength (field value : String) (bound : Nat) : Except Refusal Unit :=
  require (value.utf8ByteSize ≤ bound) (.invalidResource s!"{field} exceeds {bound} bytes")

namespace NodeInfo

def validate (i : NodeInfo) : Except Refusal Unit := do
  require (!i.moniker.toList.all Text.isBlank) (.invalidResource "moniker must not be empty")
  checkLength "moniker" i.moniker 64
  checkLength "description" i.description 512
  checkLength "contact" i.contact 128

end NodeInfo

namespace Hardware

def validate (h : Hardware) : Except Refusal Unit :=
  require (h.cpus ≠ 0 ∧ h.ramGb ≠ 0 ∧ h.storageGb ≠ 0)
    (.invalidResource "hardware specs must be non-zero")

end Hardware

/-- A web address of at most 256 bytes without blanks. -/
def validateUrl (url : String) : Except Refusal Unit := do
  require ("https://".toList.isPrefixOf url.toList ∨ "http://".toList.isPrefixOf url.toList)
    (.invalidResource "url must start with http:// or https://")
  require (!url.toList.any Text.isBlank) (.invalidResource "url must not contain whitespace")
  checkLength "url" url 256

/-! ## Resources -/

namespace Resource

/-- The resource with unsigned zeros for signed ones. -/
def plain (r : Resource) : Resource :=
  { r with pricePerHour := r.pricePerHour.plain, deposits := r.deposits.map Deposit.plain }

/-- The sum of the recorded deposits, in the denomination of the price. -/
def totalDeposit (r : Resource) : Except Refusal Coin :=
  Coin.sum r.pricePerHour.denom (r.deposits.map Deposit.amount)

def isAvailable (r : Resource) : Bool := r.status == .active && !r.leased

def expectStatus (r : Resource) (expected : Status) : Except Refusal Unit :=
  require (r.status = expected) (.invalidStatus r.id expected r.status)

/-- The resource in its next status. -/
def become (r : Resource) (next : Status) : Except Refusal Resource := do
  require (r.status.canBecome next) (.invalidStatus r.id next r.status)
  return { r with status := next }

def validateDeposit (r : Resource) (d : Deposit) : Except Refusal Unit := do
  d.amount.validatePositive
  d.amount.expectDenom r.pricePerHour.denom

/-- The time of closing is on record exactly for a closed resource. -/
def validateClosing (r : Resource) : Except Refusal Unit :=
  match r.status, r.closedAt with
  | .closed, none => .error (.invalidResource s!"{r.id} is closed without closed_at")
  | .pending, some _ => .error (.invalidResource s!"{r.id} has closed_at but is open")
  | .active, some _ => .error (.invalidResource s!"{r.id} has closed_at but is open")
  | _, _ => .ok ()

def validate (r : Resource) : Except Refusal Unit := do
  validateUrl r.url
  r.info.validate
  r.hardware.validate
  r.pricePerHour.validatePositive
  requireAll r.validateDeposit r.deposits
  discard r.totalDeposit
  r.validateClosing
  require (r.leased → r.status = .active)
    (.invalidResource s!"{r.id} is leased while {r.status}")

end Resource

end LeaseEscrow
