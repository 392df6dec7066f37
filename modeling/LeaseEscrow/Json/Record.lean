import LeaseEscrow.Json.Amount

/-!
# Records in JSON

A record is written as an object with its fields in order. It is read from an object, where
unknown members are ignored and a known one may not come twice, or from an array that
holds exactly its fields in order. An absent field reads as absent, which only an optional
field allows.
-/

namespace LeaseEscrow.Json

/-- Types that have a JSON form. -/
class Codec (α : Type) where
  encode : α → Json
  decode? : Json → Option α

export Codec (encode decode?)

/-! ## Fields -/

/-- The object with these fields. -/
def record (names : List String) (values : List Json) : Json := .obj (names.zip values)

/-- The fields with these names, in this order, from an object or from an array. -/
def fields? (names : List String) : Json → Option (List (Option Json))
  | .obj members =>
    let known := members.filter fun m => names.contains m.1
    if (known.map Prod.fst).Nodup then some (names.map (List.lookup · known)) else none
  | .arr items => if items.length = names.length then some (items.map some) else none
  | _ => none

/-- A field that must be present. -/
def required {α : Type} [Codec α] (field : Option Json) : Option α := field.bind decode?

/-- A field that may be absent, which is the same as null. -/
def optionally {α : Type} [Codec (Option α)] : Option Json → Option (Option α)
  | none => some none
  | some j => decode? j

/-! ## Basic types -/

instance : Codec String where
  encode := .str
  decode?
    | .str s => some s
    | _ => none

instance : Codec Bool where
  encode := .bool
  decode?
    | .bool b => some b
    | _ => none

/-- The integer that a literal without fraction and exponent stands for. -/
def int? : Json → Option Int
  | .num (.int n) => some n
  | _ => none

/-- A natural number below a bound. -/
def natBelow? (bound : Nat) (j : Json) : Option Nat :=
  match j.int? with
  | some n => if 0 ≤ n ∧ n < bound then some n.toNat else none
  | none => none

instance : Codec UInt64 where
  encode n := .nat n.toNat
  decode? j := (j.natBelow? UInt64.size).map UInt64.ofNat

instance : Codec UInt32 where
  encode n := .nat n.toNat
  decode? j := (j.natBelow? UInt32.size).map UInt32.ofNat

instance {α : Type} [Codec α] : Codec (Option α) where
  encode
    | none => .null
    | some a => encode a
  decode?
    | .null => some none
    | j => (decode? j).map some

instance {α : Type} [Codec α] : Codec (List α) where
  encode as := .arr (as.map encode)
  decode?
    | .arr items => items.mapM decode?
    | _ => none

instance {α β : Type} [Codec α] [Codec β] : Codec (α × β) where
  encode p := .arr [encode p.1, encode p.2]
  decode?
    | .arr [a, b] => do return (← decode? a, ← decode? b)
    | _ => none

instance : Codec Decimal where
  encode d := .str d.toText
  decode?
    | .str s => Decimal.ofText? s
    | .num n => n.decimal?
    | _ => none

/-! ## Named alternatives -/

/-- The name of an alternative without content: a string, or an object that gives null for
the name. -/
def alternative? : Json → Option String
  | .str name => some name
  | .obj [(name, .null)] => some name
  | _ => none

end LeaseEscrow.Json
