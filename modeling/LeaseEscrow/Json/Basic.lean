/-!
# JSON values

A JSON value keeps what its text says: members in their order (repeated names included),
and numbers as literals, so that an integer beyond every word size stays exact. Some
well-formed values mean nothing, because a string in them escapes half of a surrogate
pair; such a value may be skipped but not used.
-/

namespace LeaseEscrow

namespace Json

/-- A number literal: an integer, or anything with a fraction, an exponent or a negative
zero, whose digits are kept as written. -/
inductive Number where
  | int (value : Int)
  | real (negative : Bool) (whole fraction : List Nat) (exponent : Int)
deriving DecidableEq

end Json

inductive Json where
  | null
  | bool (value : Bool)
  | num (value : Json.Number)
  | str (text : String)
  | arr (items : List Json)
  | obj (members : List (String × Json))
  /-- A string with half of a surrogate pair, or an object with such a name. -/
  | meaningless
deriving Inhabited

namespace Json

def nat (n : Nat) : Json := .num (.int n)

def int (n : Int) : Json := .num (.int n)

/-- The first member of an object with this name. -/
def member? (name : String) : Json → Option Json
  | .obj members => members.lookup name
  | _ => none

/-- A member of an object; an absent one reads as null. -/
def member (j : Json) (name : String) : Json := (j.member? name).getD .null

end Json

end LeaseEscrow
