import LeaseEscrow.Lease
import LeaseEscrow.Params
import LeaseEscrow.Resource

/-!
# Genesis

The whole state of the module as one value, for import at the start of a chain and export
at its end. `Genesis.validate` accepts the states that the module itself can reach: valid
records of one denomination, no id twice, and a lease exactly for each leased resource.
-/

namespace LeaseEscrow

structure Genesis where
  params : Params
  resources : List Resource
  leases : List Lease
  /-- The next value of the id counter. -/
  nextId : UInt64
deriving DecidableEq

namespace Genesis

/-- The state before anything happened. -/
def initial : Genesis := ⟨.default, [], [], 1⟩

def invalid (reason : String) : Refusal := .invalidGenesis reason

/-- A resource on its own, and against those before it. -/
def validateResource (denom : String) (earlier : List Resource) (r : Resource) :
    Except Refusal Unit := do
  Refusal.rephrase (fun cause => invalid s!"resource {r.id}: {cause}") do
    r.validate
    r.pricePerHour.expectDenom denom
  require (∀ e ∈ earlier, e.id ≠ r.id) (invalid s!"duplicate resource {r.id}")

def validateResources (denom : String) (earlier : List Resource) :
    List Resource → Except Refusal Unit
  | [] => .ok ()
  | r :: rest => do
    validateResource denom earlier r
    validateResources denom (r :: earlier) rest

/-- A lease on its own, against its resource, and against the leases before it. -/
def validateLease (denom : String) (resources : List Resource) (earlier : List Lease)
    (l : Lease) : Except Refusal Unit := do
  Refusal.rephrase (fun cause => invalid s!"lease {l.resourceId}: {cause}") do
    l.validate
    l.pricePerHour.expectDenom denom
  match resources.find? fun r => r.id = l.resourceId with
  | none => throw (invalid s!"lease for unknown resource {l.resourceId}")
  | some r =>
    require (l.owner = r.owner)
      (invalid s!"lease {l.resourceId} owner does not match resource owner")
  require (∀ e ∈ earlier, e.resourceId ≠ l.resourceId)
    (invalid s!"duplicate lease {l.resourceId}")

def validateLeases (denom : String) (resources : List Resource) (earlier : List Lease) :
    List Lease → Except Refusal Unit
  | [] => .ok ()
  | l :: rest => do
    validateLease denom resources earlier l
    validateLeases denom resources (l :: earlier) rest

/-- A resource is flagged as leased exactly when it has a lease. -/
def validateFlag (leases : List Lease) (r : Resource) : Except Refusal Unit :=
  let found := leases.any fun l => l.resourceId = r.id
  let lease := if r.leased then "is missing" else "exists"
  require (r.leased = found)
    (invalid s!"resource {r.id} leased flag is {r.leased} but lease {lease}")

def validate (g : Genesis) : Except Fault Unit := do
  Fault.rephrase (fun cause => invalid cause.message) g.params.validate
  require (g.nextId ≠ 0) (invalid "next_resource_id must be at least 1")
  validateResources g.params.denom [] g.resources
  validateLeases g.params.denom g.resources [] g.leases
  requireAll (validateFlag g.leases) g.resources

end Genesis

end LeaseEscrow
