import LeaseEscrow.Codec.Records
import LeaseEscrow.Message

/-!
# JSON of messages and replies
-/

namespace LeaseEscrow

open Json

def Message.RegisterResource.fieldNames : List String :=
  ["id", "url", "info", "hardware_specs", "price_per_hour", "deposit", "sender"]

instance : Codec Message.RegisterResource where
  encode x := .record Message.RegisterResource.fieldNames
    [encode x.id, encode x.url, encode x.info, encode x.hardware, encode x.pricePerHour,
     encode x.deposit, encode x.sender]
  decode? j := do
    let [id, url, info, hardware, pricePerHour, deposit, sender]
      ← j.fields? Message.RegisterResource.fieldNames | none
    return ⟨← optionally id, ← required url, ← required info, ← required hardware,
      ← required pricePerHour, ← required deposit, ← required sender⟩

def Message.UpdateResource.fieldNames : List String :=
  ["id", "url", "info", "hardware_specs", "price_per_hour", "sender"]

instance : Codec Message.UpdateResource where
  encode x := .record Message.UpdateResource.fieldNames
    [encode x.id, encode x.url, encode x.info, encode x.hardware, encode x.pricePerHour,
     encode x.sender]
  decode? j := do
    let [id, url, info, hardware, pricePerHour, sender]
      ← j.fields? Message.UpdateResource.fieldNames | none
    return ⟨← required id, ← optionally url, ← optionally info, ← optionally hardware,
      ← optionally pricePerHour, ← required sender⟩

def Message.AddDeposit.fieldNames : List String :=
  ["id", "amount", "sender"]

instance : Codec Message.AddDeposit where
  encode x := .record Message.AddDeposit.fieldNames
    [encode x.id, encode x.amount, encode x.sender]
  decode? j := do
    let [id, amount, sender] ← j.fields? Message.AddDeposit.fieldNames | none
    return ⟨← required id, ← required amount, ← required sender⟩

def Message.TakeLease.fieldNames : List String :=
  ["id", "lease_hours", "amount", "sender"]

instance : Codec Message.TakeLease where
  encode x := .record Message.TakeLease.fieldNames
    [encode x.id, encode x.hours, encode x.amount, encode x.sender]
  decode? j := do
    let [id, hours, amount, sender] ← j.fields? Message.TakeLease.fieldNames | none
    return ⟨← required id, ← required hours, ← required amount, ← required sender⟩

def Message.ExtendLease.fieldNames : List String :=
  ["id", "lease_hours", "amount", "sender"]

instance : Codec Message.ExtendLease where
  encode x := .record Message.ExtendLease.fieldNames
    [encode x.id, encode x.hours, encode x.amount, encode x.sender]
  decode? j := do
    let [id, hours, amount, sender] ← j.fields? Message.ExtendLease.fieldNames | none
    return ⟨← required id, ← required hours, ← required amount, ← required sender⟩

def Message.CancelLease.fieldNames : List String :=
  ["id", "sender"]

instance : Codec Message.CancelLease where
  encode x := .record Message.CancelLease.fieldNames [encode x.id, encode x.sender]
  decode? j := do
    let [id, sender] ← j.fields? Message.CancelLease.fieldNames | none
    return ⟨← required id, ← required sender⟩

def Message.CloseResource.fieldNames : List String :=
  ["id", "sender"]

instance : Codec Message.CloseResource where
  encode x := .record Message.CloseResource.fieldNames [encode x.id, encode x.sender]
  decode? j := do
    let [id, sender] ← j.fields? Message.CloseResource.fieldNames | none
    return ⟨← required id, ← required sender⟩

def Message.UpdateParams.fieldNames : List String :=
  ["params", "authority"]

instance : Codec Message.UpdateParams where
  encode x := .record Message.UpdateParams.fieldNames [encode x.params, encode x.authority]
  decode? j := do
    let [params, authority] ← j.fields? Message.UpdateParams.fieldNames | none
    return ⟨← required params, ← required authority⟩

def Reply.Registered.fieldNames : List String :=
  ["id", "status"]

instance : Codec Reply.Registered where
  encode x := .record Reply.Registered.fieldNames [encode x.id, encode x.status]
  decode? j := do
    let [id, status] ← j.fields? Reply.Registered.fieldNames | none
    return ⟨← required id, ← required status⟩

def Reply.Deposited.fieldNames : List String :=
  ["total_deposit", "status"]

instance : Codec Reply.Deposited where
  encode x := .record Reply.Deposited.fieldNames [encode x.totalDeposit, encode x.status]
  decode? j := do
    let [totalDeposit, status] ← j.fields? Reply.Deposited.fieldNames | none
    return ⟨← required totalDeposit, ← required status⟩

def Reply.Leased.fieldNames : List String :=
  ["lease"]

instance : Codec Reply.Leased where
  encode x := .record Reply.Leased.fieldNames [encode x.lease]
  decode? j := do
    let [lease] ← j.fields? Reply.Leased.fieldNames | none
    return ⟨← required lease⟩

def Reply.Cancelled.fieldNames : List String :=
  ["settled", "refunded"]

instance : Codec Reply.Cancelled where
  encode x := .record Reply.Cancelled.fieldNames [encode x.settled, encode x.refunded]
  decode? j := do
    let [settled, refunded] ← j.fields? Reply.Cancelled.fieldNames | none
    return ⟨← required settled, ← required refunded⟩

end LeaseEscrow
