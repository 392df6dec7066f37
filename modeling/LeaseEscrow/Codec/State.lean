import LeaseEscrow.Codec.Records
import LeaseEscrow.Genesis
import LeaseEscrow.Json.Printer
import LeaseEscrow.Json.Reader
import LeaseEscrow.Keeper.Config
import LeaseEscrow.Query

/-!
# JSON of states, configurations and pages

A genesis is exchanged as pretty text and validated when it is read; so is a configuration.
The values of the store are shown as compact text.
-/

namespace LeaseEscrow

open Json

def Genesis.fieldNames : List String :=
  ["params", "resources", "leases", "next_resource_id"]

instance : Codec Genesis where
  encode x := .record Genesis.fieldNames
    [encode x.params, encode x.resources, encode x.leases, encode x.nextId]
  decode? j := do
    let [params, resources, leases, nextId] ← j.fields? Genesis.fieldNames | none
    return ⟨← required params, ← required resources, ← required leases, ← required nextId⟩

def Config.fieldNames : List String :=
  ["authority", "escrow_account", "fee_collector", "community_pool"]

instance : Codec Config where
  encode x := .record Config.fieldNames
    [encode x.authority, encode x.escrow, encode x.feeCollector, encode x.communityPool]
  decode? j := do
    let [authority, escrow, feeCollector, communityPool] ← j.fields? Config.fieldNames | none
    return ⟨← required authority, ← required escrow, ← required feeCollector,
      ← required communityPool⟩

def PageRequest.fieldNames : List String :=
  ["offset", "limit"]

instance : Codec PageRequest where
  encode x := .record PageRequest.fieldNames [encode x.offset, encode x.limit]
  decode? j := do
    let [offset, limit] ← j.fields? PageRequest.fieldNames | none
    return ⟨← required offset, ← required limit⟩

instance {α : Type} [Codec α] : Codec (Page α) where
  encode x := .record ["items", "total", "next_offset"]
    [encode x.items, .nat x.total, (x.nextOffset.map Json.nat).getD .null]
  decode? j := do
    let [items, total, nextOffset] ← j.fields? ["items", "total", "next_offset"] | none
    let nextOffset ← optionally nextOffset
    return ⟨← required items, ← total.bind (natBelow? UInt64.size), nextOffset.map UInt64.toNat⟩

/-! ## Documents -/

/-- The value of a document, if it reads as one. -/
def Json.readDocument {α : Type} [Codec α] (text : String) : Except Refusal α :=
  match (Json.ofText? text).bind decode? with
  | some a => .ok a
  | none => .error (.serialization "malformed document")

def Genesis.toText (g : Genesis) : String := (encode g).pretty

/-- Reads and validates a genesis document. -/
def Genesis.ofText (text : String) : Except Fault Genesis := do
  let g : Genesis ← Json.readDocument text
  g.validate
  return g

/-- Reads and validates a configuration document. -/
def Config.ofText (text : String) : Except Refusal Config := do
  let c : Config ← Json.readDocument text
  c.validate
  return c

/-! ## The values of the store -/

/-- The eight bytes of a word, the highest first. -/
def wordBytes (n : UInt64) : Bytes :=
  ([56, 48, 40, 32, 24, 16, 8, 0] : List UInt64).map fun shift => (n >>> shift).toUInt8

/-- The text of a stored value: records as JSON, the counter as its bytes. -/
def Record.toText : Record → String
  | .resource x => (encode x).compact
  | .lease x => (encode x).compact
  | .counter n => Text.hex (wordBytes n)
  | .params x => (encode x).compact
  | .mark => ""

end LeaseEscrow
