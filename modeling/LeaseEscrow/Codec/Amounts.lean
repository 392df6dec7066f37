import LeaseEscrow.Coin
import LeaseEscrow.Ident.Parse
import LeaseEscrow.Json.Record
import LeaseEscrow.Params
import LeaseEscrow.Time.Text

/-!
# JSON of identifiers, amounts and parameters

Identifiers and instants are strings and are checked when they are read. Coins are read
without validation.
-/

namespace LeaseEscrow

open Json

instance : Codec Account where
  encode a := .str a.text
  decode?
    | .str s => (Account.parse s).toOption
    | _ => none

instance : Codec ResourceId where
  encode id := .str id.text
  decode?
    | .str s => ResourceId.ofText? s
    | _ => none

instance : Codec Instant where
  encode t := .str t.toText
  decode?
    | .str s => Instant.ofText? s
    | _ => none

def Coin.fieldNames : List String :=
  ["denom", "amount"]

instance : Codec Coin where
  encode x := .record Coin.fieldNames [encode x.denom, encode x.amount]
  decode? j := do
    let [denom, amount] ← j.fields? Coin.fieldNames | none
    return ⟨← required denom, ← required amount⟩

def Distribution.fieldNames : List String :=
  ["fee_collector", "community_pool"]

instance : Codec Distribution where
  encode x := .record Distribution.fieldNames [encode x.feeCollector, encode x.communityPool]
  decode? j := do
    let [feeCollector, communityPool] ← j.fields? Distribution.fieldNames | none
    return ⟨← required feeCollector, ← required communityPool⟩

def Params.fieldNames : List String :=
  ["min_lease_hours", "max_lease_hours", "min_deposit", "initial_deposit_percentage",
   "lease_commission", "commission_distribution", "deposit_release_period_secs"]

instance : Codec Params where
  encode x := .record Params.fieldNames
    [encode x.minLeaseHours, encode x.maxLeaseHours, encode x.minDeposit,
     encode x.initialDepositShare, encode x.leaseCommission, encode x.distribution,
     encode x.releaseSeconds]
  decode? j := do
    let [minLeaseHours, maxLeaseHours, minDeposit, initialDepositShare, leaseCommission,
      distribution, releaseSeconds]
      ← j.fields? Params.fieldNames | none
    return ⟨← required minLeaseHours, ← required maxLeaseHours, ← required minDeposit,
      ← required initialDepositShare, ← required leaseCommission, ← required distribution,
      ← required releaseSeconds⟩

def Split.fieldNames : List String := ["payment", "fee_collector", "community_pool"]

/-- The parts as coins. -/
def Split.toJson (x : Split) : Json :=
  .record Split.fieldNames
    [encode x.payment, encode x.feeCollector, encode x.communityPool]

end LeaseEscrow
