import LeaseEscrow.Codec.Amounts
import LeaseEscrow.Lease
import LeaseEscrow.Resource
import LeaseEscrow.Block

/-!
# JSON of resources, leases and blocks
-/

namespace LeaseEscrow

open Json

def Status.name : Status → String
  | .pending => "Pending"
  | .active => "Active"
  | .closed => "Closed"

instance : Codec Status where
  encode s := .str s.name
  decode? j := do
    let name ← j.alternative?
    [Status.pending, .active, .closed].find? fun s => s.name == name

def NodeInfo.fieldNames : List String :=
  ["moniker", "description", "contact"]

instance : Codec NodeInfo where
  encode x := .record NodeInfo.fieldNames
    [encode x.moniker, encode x.description, encode x.contact]
  decode? j := do
    let [moniker, description, contact] ← j.fields? NodeInfo.fieldNames | none
    return ⟨← required moniker, ← required description, ← required contact⟩

def Hardware.fieldNames : List String :=
  ["cpus", "ram_gb", "storage_gb"]

instance : Codec Hardware where
  encode x := .record Hardware.fieldNames [encode x.cpus, encode x.ramGb, encode x.storageGb]
  decode? j := do
    let [cpus, ramGb, storageGb] ← j.fields? Hardware.fieldNames | none
    return ⟨← required cpus, ← required ramGb, ← required storageGb⟩

def Deposit.fieldNames : List String :=
  ["depositor", "amount", "deposited_at"]

instance : Codec Deposit where
  encode x := .record Deposit.fieldNames [encode x.depositor, encode x.amount, encode x.time]
  decode? j := do
    let [depositor, amount, time] ← j.fields? Deposit.fieldNames | none
    return ⟨← required depositor, ← required amount, ← required time⟩

def Resource.fieldNames : List String :=
  ["id", "owner", "url", "info", "hardware_specs", "price_per_hour", "status", "leased",
   "deposits", "registered_at", "closed_at"]

instance : Codec Resource where
  encode x := .record Resource.fieldNames
    [encode x.id, encode x.owner, encode x.url, encode x.info, encode x.hardware,
     encode x.pricePerHour, encode x.status, encode x.leased, encode x.deposits,
     encode x.registeredAt, encode x.closedAt]
  decode? j := do
    let [id, owner, url, info, hardware, pricePerHour, status, leased, deposits, registeredAt,
      closedAt]
      ← j.fields? Resource.fieldNames | none
    return ⟨← required id, ← required owner, ← required url, ← required info,
      ← required hardware, ← required pricePerHour, ← required status, ← required leased,
      ← required deposits, ← required registeredAt, ← optionally closedAt⟩

def Lease.fieldNames : List String :=
  ["resource_id", "lessee", "owner", "price_per_hour", "leased_hours", "start_time",
   "total_lease_amount", "settled_lease_amount", "last_settled_at"]

instance : Codec Lease where
  encode x := .record Lease.fieldNames
    [encode x.resourceId, encode x.lessee, encode x.owner, encode x.pricePerHour, encode x.hours,
     encode x.startedAt, encode x.total, encode x.settled, encode x.settledAt]
  decode? j := do
    let [resourceId, lessee, owner, pricePerHour, hours, startedAt, total, settled, settledAt]
      ← j.fields? Lease.fieldNames | none
    return ⟨← required resourceId, ← required lessee, ← required owner, ← required pricePerHour,
      ← required hours, ← required startedAt, ← required total, ← required settled,
      ← required settledAt⟩

def Block.fieldNames : List String :=
  ["height", "block_time"]

instance : Codec Block where
  encode x := .record Block.fieldNames [encode x.height, encode x.time]
  decode? j := do
    let [height, time] ← j.fields? Block.fieldNames | none
    return ⟨← required height, ← required time⟩

end LeaseEscrow
