import LeaseEscrow.Binary64.Shortest
import LeaseEscrow.Decimal.Text
import LeaseEscrow.Json.Token

/-!
# Numbers as decimals

An integer literal that fits a 64-bit word is read exactly. Any other literal is taken for
a binary floating-point number first, and the shortest text of that number is read.

The binary number is found as follows: the leading digits that fit a 64-bit word form a
significand, and that significand, as a binary number, is multiplied or divided once by the
power of ten that is left.
-/

namespace LeaseEscrow.Json

/-- Digits of a whole part: those past the capacity of a word only raise the exponent. -/
def takeWhole (significand : Nat) (exponent : Int) : List Nat → Nat × Int
  | [] => (significand, exponent)
  | d :: rest =>
    if 10 * significand + d < UInt64.size then takeWhole (10 * significand + d) exponent rest
    else (significand, exponent + (rest.length + 1))

/-- Digits after the point: those past the capacity of a word are dropped. -/
def takeFraction (significand : Nat) (exponent : Int) : List Nat → Nat × Int
  | [] => (significand, exponent)
  | d :: rest =>
    if 10 * significand + d < UInt64.size then
      takeFraction (10 * significand + d) (exponent - 1) rest
    else (significand, exponent)

/-- `x * 10 ^ exponent`. Powers below `10 ^ -308` are divided off in steps; a number that
such a division has made zero stays zero. -/
def scaled? (x : Binary64) (exponent : Int) : Option Binary64 :=
  if 0 ≤ exponent then
    if exponent ≤ 308 then do x.mul? (← Binary64.ofNat? (tenPow exponent.toNat))
    else if x.significand = 0 then some x
    else none
  else go (-exponent).toNat x
where
  go (places : Nat) (x : Binary64) : Option Binary64 :=
    if places ≤ 308 then do x.div? (← Binary64.ofNat? (tenPow places))
    else if x.significand = 0 then some x
    else do
      let power ← Binary64.ofNat? (tenPow 308)
      go (places - 308) (← x.div? power)
  termination_by places

/-- The digits of a literal and its exponent. -/
def Number.parts : Number → Bool × List Nat × List Nat × Int
  | .int n => (n < 0, (Nat.toDigits 10 n.natAbs).map fun c => c.toNat - '0'.toNat, [], 0)
  | .real negative whole fraction exponent => (negative, whole, fraction, exponent)

/-- The binary number that a literal stands for, without its sign. -/
def Number.magnitude? (n : Number) : Option Binary64 := do
  let (_, whole, fraction, exponent) := n.parts
  let (significand, raised) := takeWhole 0 0 whole
  let (significand, lowered) := takeFraction significand raised fraction
  scaled? (← Binary64.ofNat? significand) (lowered + exponent)

def Number.isNegative (n : Number) : Bool := n.parts.1

/-- The decimal that a number literal stands for. -/
def Number.decimal? (n : Number) : Option Decimal :=
  match n with
  | .int v =>
    if -9223372036854775808 ≤ v ∧ v < UInt64.size then Decimal.ofParts? v 0 else throughBinary n
  | n => throughBinary n
where
  throughBinary (n : Number) : Option Decimal := do
    let x ← n.magnitude?
    Decimal.ofPlain? ((if n.isNegative then ['-'] else []) ++ x.chars)

end LeaseEscrow.Json
