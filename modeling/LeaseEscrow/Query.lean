import LeaseEscrow.Registry

/-!
# Queries

Reads over the registry: single records, the records of an account through its index, and
listings cut into pages.
-/

namespace LeaseEscrow

structure PageRequest where
  offset : UInt64
  limit : UInt64
deriving DecidableEq

namespace PageRequest

def defaultLimit : UInt64 := 100

/-- The first page. -/
def first : PageRequest := ⟨0, defaultLimit⟩

end PageRequest

/-- A part of a listing, the size of the whole, and where the next part starts. -/
structure Page (α : Type) where
  items : List α
  total : Nat
  nextOffset : Option Nat
deriving DecidableEq

namespace Page

variable {α : Type}

/-- The page of a listing that was asked for; a limit of 0 stands for the default one. -/
def slice (all : List α) (request : PageRequest) : Page α :=
  let limit := if request.limit = 0 then PageRequest.defaultLimit else request.limit
  let items := (all.drop request.offset.toNat).take limit.toNat
  let next := min (request.offset.toNat + items.length) largestWord.toNat
  { items, total := all.length
    nextOffset := if next < all.length then some next else none }

end Page

namespace Registry

def resourcePage (r : Registry) (request : PageRequest) : Except Refusal (Page Resource) := do
  return .slice (← r.resources) request

def leasePage (r : Registry) (request : PageRequest) : Except Refusal (Page Lease) := do
  return .slice (← r.leases) request

def resourcesByOwner (r : Registry) (owner : Account) : Except Refusal (List Resource) := do
  (← r.resourceIdsByOwner owner).mapM r.resource

def leasesByLessee (r : Registry) (lessee : Account) : Except Refusal (List Lease) := do
  (← r.leaseIdsByLessee lessee).mapM r.lease

def availableResources (r : Registry) : Except Refusal (List Resource) := do
  return (← r.resources).filter Resource.isAvailable

end Registry

end LeaseEscrow
