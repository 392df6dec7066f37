import LeaseEscrow.Power

/-!
# Binary floating point

The finite non-negative numbers of the 64-bit binary format, as `significand * 2 ^ exponent`,
and the rounding of a ratio to the nearest of them, a half going to the even significand.
-/

namespace LeaseEscrow

/-- A finite non-negative binary number. Rounding keeps the significand below `2 ^ 53` and
the exponent between `-1074` and `971`. -/
structure Binary64 where
  significand : Nat
  exponent : Int
deriving DecidableEq

namespace Binary64

def zero : Binary64 := ⟨0, 0⟩

/-- The exponent of the last place that a number of this size keeps: 53 places from its
leading one, but none below `2 ^ -1074`. -/
def lastPlace (num den : Nat) : Int :=
  let guess : Int := (Nat.log2 num : Int) - Nat.log2 den
  let leading : Int :=
    if num * twoPow (-guess).toNat < den * twoPow guess.toNat then guess - 1 else guess
  max (leading - 52) (-1074)

/-- The number nearest to `num / den`, unless it is too large for the format. -/
def ofRatio? (num den : Nat) : Option Binary64 :=
  if num = 0 then some zero
  else
    let place := lastPlace num den
    let n := num * twoPow (-place).toNat
    let d := den * twoPow place.toNat
    let whole := n / d
    let rest := 2 * (n % d)
    let rounded := if d < rest ∨ (rest = d ∧ whole % 2 = 1) then whole + 1 else whole
    let carried := decide (rounded = twoPow 53)
    let significand := if carried then twoPow 52 else rounded
    let exponent := if carried then place + 1 else place
    if 971 < exponent then none else some ⟨significand, exponent⟩

/-- The exact value as a ratio of natural numbers. -/
def ratio (x : Binary64) : Nat × Nat :=
  (x.significand * twoPow x.exponent.toNat, twoPow (-x.exponent).toNat)

def ofNat? (n : Nat) : Option Binary64 := ofRatio? n 1

def mul? (x y : Binary64) : Option Binary64 :=
  ofRatio? (x.ratio.1 * y.ratio.1) (x.ratio.2 * y.ratio.2)

/-- The rounded quotient by a number that is not zero. -/
def div? (x y : Binary64) : Option Binary64 :=
  ofRatio? (x.ratio.1 * y.ratio.2) (x.ratio.2 * y.ratio.1)

end Binary64

end LeaseEscrow
