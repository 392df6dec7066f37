import LeaseEscrow.Lease
import LeaseEscrow.Params
import LeaseEscrow.Resource
import LeaseEscrow.Store.Key

/-!
# The registry

Resources, leases, the id counter and the parameters in one store, with an index of
resources by owner and an index of leases by lessee that are kept in step. No rules of
leasing live here.
-/

namespace LeaseEscrow

/-- What the store holds. Index entries are marks without content. A record is kept as it was
set; what is read from it is plain, a signed zero being read without its sign. -/
inductive Record where
  | resource (r : Resource)
  | lease (l : Lease)
  | counter (n : UInt64)
  | params (p : Params)
  | mark
deriving DecidableEq

namespace Record

/-- A record of another kind than its key tells. -/
def misplaced : Refusal := .serialization "record of another kind"

def toResource : Record → Except Refusal Resource
  | .resource x => .ok x.plain
  | _ => .error misplaced

def toLease : Record → Except Refusal Lease
  | .lease x => .ok x.plain
  | _ => .error misplaced

def toParams : Record → Except Refusal Params
  | .params p => .ok p.plain
  | _ => .error misplaced

end Record

structure Registry where
  store : Store Record
deriving DecidableEq

namespace Registry

def empty : Registry := ⟨.empty⟩

def set (r : Registry) (key : Bytes) (record : Record) : Registry := ⟨r.store.set key record⟩

def delete (r : Registry) (key : Bytes) : Registry := ⟨(r.store.delete key).2⟩

/-- The ids in the keys that begin with `start`. -/
def idsBelow (r : Registry) (start : Bytes) : Except Refusal (List ResourceId) :=
  (r.store.scan start).mapM fun e =>
    match ResourceId.ofBytes? (e.1.drop start.length) with
    | some id => .ok id
    | none => .error (.serialization "malformed id in a key")

/-- Without the index entry of a record that another account held before. -/
def unindex (r : Registry) (i : Key.Index) (holder : Account) :
    Option (Account × ResourceId) → Registry
  | some (previous, id) => if previous ≠ holder then r.delete (Key.entry i previous id) else r
  | none => r

/-- Stores a record and its index entry; the entry of a previous holder goes. -/
def file (r : Registry) (i : Key.Index) (holder : Account) (id : ResourceId)
    (previous : Option (Account × ResourceId)) (key : Bytes) (record : Record) : Registry :=
  ((r.unindex i holder previous).set key record).set (Key.entry i holder id) .mark

/-- Removes a record and its index entry, if an account holds it. -/
def unfile (r : Registry) (i : Key.Index) (id : ResourceId) (key : Bytes) :
    Option Account → Registry
  | some holder => (r.delete key).delete (Key.entry i holder id)
  | none => r

/-! ## Resources -/

def resource? (r : Registry) (id : ResourceId) : Except Refusal (Option Resource) :=
  (r.store.get? (Key.resource id)).mapM Record.toResource

def resource (r : Registry) (id : ResourceId) : Except Refusal Resource := do
  match ← r.resource? id with
  | some x => return x
  | none => throw (.resourceNotFound id)

def hasResource (r : Registry) (id : ResourceId) : Bool := r.store.contains (Key.resource id)

/-- Stores a resource, indexed by its owner. -/
def setResource (r : Registry) (x : Resource) : Except Refusal Registry := do
  let old ← r.resource? x.id
  return r.file .owner x.owner x.id (old.map fun old => (old.owner, old.id))
    (Key.resource x.id) (.resource x)

/-- Whether the resource was stored, and the registry without it. -/
def deleteResource (r : Registry) (id : ResourceId) : Except Refusal (Bool × Registry) := do
  let old ← r.resource? id
  return (old.isSome, r.unfile .owner id (Key.resource id) (old.map Resource.owner))

/-- All resources in the order of their ids. -/
def resources (r : Registry) : Except Refusal (List Resource) :=
  (r.store.scan [Key.resourceKind]).mapM fun e => e.2.toResource

def resourceIds (r : Registry) : Except Refusal (List ResourceId) := r.idsBelow [Key.resourceKind]

def resourceIdsByOwner (r : Registry) (owner : Account) : Except Refusal (List ResourceId) :=
  r.idsBelow (Key.account .owner owner)

/-! ## Leases -/

def lease? (r : Registry) (id : ResourceId) : Except Refusal (Option Lease) :=
  (r.store.get? (Key.lease id)).mapM Record.toLease

def lease (r : Registry) (id : ResourceId) : Except Refusal Lease := do
  match ← r.lease? id with
  | some x => return x
  | none => throw (.leaseNotFound id)

def hasLease (r : Registry) (id : ResourceId) : Bool := r.store.contains (Key.lease id)

/-- Stores a lease, indexed by its lessee. -/
def setLease (r : Registry) (x : Lease) : Except Refusal Registry := do
  let old ← r.lease? x.resourceId
  return r.file .lessee x.lessee x.resourceId (old.map fun old => (old.lessee, old.resourceId))
    (Key.lease x.resourceId) (.lease x)

/-- Whether the lease was stored, and the registry without it. -/
def deleteLease (r : Registry) (id : ResourceId) : Except Refusal (Bool × Registry) := do
  let old ← r.lease? id
  return (old.isSome, r.unfile .lessee id (Key.lease id) (old.map Lease.lessee))

/-- All leases in the order of their resource ids. -/
def leases (r : Registry) : Except Refusal (List Lease) :=
  (r.store.scan [Key.leaseKind]).mapM fun e => e.2.toLease

def leaseIds (r : Registry) : Except Refusal (List ResourceId) := r.idsBelow [Key.leaseKind]

def leaseIdsByLessee (r : Registry) (lessee : Account) : Except Refusal (List ResourceId) :=
  r.idsBelow (Key.account .lessee lessee)

/-! ## Counter and parameters -/

/-- The next value of the id counter, which starts at 1. -/
def nextId (r : Registry) : UInt64 :=
  match r.store.get? Key.counter with
  | some (.counter n) => n
  | _ => 1

def setNextId (r : Registry) (n : UInt64) : Registry := r.set Key.counter (.counter n)

/-- Takes a value from the counter. -/
def takeId (r : Registry) : Except Fault (UInt64 × Registry) :=
  let n := r.nextId
  if n = largestWord then .error .outOfRange else .ok (n, r.setNextId (n + 1))

/-- The first value from `n` on whose id is not stored; none below the largest word may
be left. -/
def firstFree? (r : Registry) (n : UInt64) : Option UInt64 :=
  if h : n = largestWord then none
  else if r.hasResource (.ofCounter n) then firstFree? r (n + 1)
  else some n
termination_by largestWord.toNat - n.toNat
decreasing_by
  have hlt := n.toNat_lt
  have hne : n.toNat ≠ largestWord.toNat := fun he => h (UInt64.toNat_inj.1 he)
  have : (n + 1).toNat = n.toNat + 1 := by
    rw [UInt64.toNat_add]
    exact Nat.mod_eq_of_lt (by simp only [UInt64.toNat_one, largestWord_toNat] at *; omega)
  simp only [largestWord_toNat] at *
  omega

/-- An id from the counter that is not stored; the counter moves past it. -/
def allocateId (r : Registry) : Except Fault (ResourceId × Registry) := do
  let n ← Fault.inRange (r.firstFree? r.nextId)
  return (.ofCounter n, r.setNextId (n + 1))

def params (r : Registry) : Except Refusal Params :=
  match r.store.get? Key.params with
  | some record => record.toParams
  | none => .error (.internal "params not initialised")

def setParams (r : Registry) (p : Params) : Registry := r.set Key.params (.params p)

end Registry

end LeaseEscrow
