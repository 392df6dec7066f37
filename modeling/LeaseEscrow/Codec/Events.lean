import LeaseEscrow.Codec.Amounts
import LeaseEscrow.Codec.Records
import LeaseEscrow.Event

/-!
# JSON of events

The detail of an event is an object with one member, named for what the event tells.
-/

namespace LeaseEscrow

open Json

def EventKind.name : EventKind → String
  | resourceRegistered => "ResourceRegistered"
  | resourceUpdated => "ResourceUpdated"
  | resourceDeposited => "ResourceDeposited"
  | resourceLeased => "ResourceLeased"
  | leaseExtended => "LeaseExtended"
  | leaseCancelled => "LeaseCancelled"
  | resourceClosed => "ResourceClosed"
  | leasePaymentSettled => "LeasePaymentSettled"
  | leaseCompleted => "LeaseCompleted"
  | depositsReleased => "DepositsReleased"
  | settlementFailed => "SettlementFailed"
  | paramsUpdated => "ParamsUpdated"

def EventKind.all : List EventKind :=
  [.resourceRegistered, .resourceUpdated, .resourceDeposited, .resourceLeased, .leaseExtended,
   .leaseCancelled, .resourceClosed, .leasePaymentSettled, .leaseCompleted, .depositsReleased,
   .settlementFailed, .paramsUpdated]

instance : Codec EventKind where
  encode k := .str k.name
  decode? j := do
    let name ← j.alternative?
    EventKind.all.find? fun k => k.name == name

namespace EventDetail

def resourceNames : List String := ["owner", "status", "total_deposit"]

def depositNames : List String := ["depositor", "amount", "total_deposit", "status"]

def leaseNames : List String := ["lessee", "leased_hours", "amount", "total_lease_amount"]

def cancellationNames : List String := ["lessee", "settled", "refunded"]

def settlementNames : List String :=
  ["owner", "payment", "commission", "settled_lease_amount", "total_lease_amount"]

def tagged (tag : String) (names : List String) (values : List Json) : Json :=
  .obj [(tag, .record names values)]

def toJson : EventDetail → Json
  | .resource owner status totalDeposit =>
    tagged "Resource" resourceNames [encode owner, encode status, encode totalDeposit]
  | .deposit depositor amount totalDeposit status =>
    tagged "Deposit" depositNames
      [encode depositor, encode amount, encode totalDeposit, encode status]
  | .lease lessee hours amount total =>
    tagged "Lease" leaseNames [encode lessee, encode hours, encode amount, encode total]
  | .cancellation lessee settled refunded =>
    tagged "Cancellation" cancellationNames [encode lessee, encode settled, encode refunded]
  | .settlement owner payment commission settled total =>
    tagged "Settlement" settlementNames
      [encode owner, encode payment, encode commission, encode settled, encode total]
  | .release refunds => tagged "Release" ["refunds"] [encode refunds]
  | .failure reason => tagged "Failure" ["reason"] [encode reason]
  | .params => .str "Params"

/-- The detail under a tag. -/
def ofTagged? (tag : String) (j : Json) : Option EventDetail :=
  match tag with
  | "Resource" => do
    let [owner, status, totalDeposit] ← j.fields? resourceNames | none
    return .resource (← required owner) (← required status) (← required totalDeposit)
  | "Deposit" => do
    let [depositor, amount, totalDeposit, status] ← j.fields? depositNames | none
    return .deposit (← required depositor) (← required amount) (← required totalDeposit)
      (← required status)
  | "Lease" => do
    let [lessee, hours, amount, total] ← j.fields? leaseNames | none
    return .lease (← required lessee) (← required hours) (← required amount) (← required total)
  | "Cancellation" => do
    let [lessee, settled, refunded] ← j.fields? cancellationNames | none
    return .cancellation (← required lessee) (← required settled) (← required refunded)
  | "Settlement" => do
    let [owner, payment, commission, settled, total] ← j.fields? settlementNames | none
    return .settlement (← required owner) (← required payment) (← required commission)
      (← required settled) (← required total)
  | "Release" => do
    let [refunds] ← j.fields? ["refunds"] | none
    return .release (← required refunds)
  | "Failure" => do
    let [reason] ← j.fields? ["reason"] | none
    return .failure (← required reason)
  | _ => none

def ofJson? (j : Json) : Option EventDetail :=
  if j.alternative? = some "Params" then some .params
  else
    match j with
    | .obj [(tag, body)] => ofTagged? tag body
    | _ => none

end EventDetail

instance : Codec EventDetail := ⟨EventDetail.toJson, EventDetail.ofJson?⟩

def Event.fieldNames : List String := ["event_type", "height", "resource_id", "payload"]

instance : Codec Event where
  encode x := .record Event.fieldNames
    [encode x.kind, encode x.height, encode x.resourceId, encode x.detail]
  decode? j := do
    let [kind, height, resourceId, detail] ← j.fields? Event.fieldNames | none
    return ⟨← required kind, ← required height, ← optionally resourceId, ← required detail⟩

end LeaseEscrow
