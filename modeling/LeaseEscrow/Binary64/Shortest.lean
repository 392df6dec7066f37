import LeaseEscrow.Binary64.Basic

/-!
# The shortest decimal of a binary number

Many decimals are nearest to the same binary number; its written form is the one with the
fewest digits, and of those the nearest to its exact value. `shortest` tries grids of ever
more digits and takes the first that meets the interval of the number.
-/

namespace LeaseEscrow.Binary64

/-- The ends of the interval of values that round to `x`, as numerators over a common
denominator, with the exact value between them. The ends belong to the interval when the
significand is even. -/
structure Interval where
  low : Nat
  exact : Nat
  high : Nat
  den : Nat
  closed : Bool

/-- Below a power of two the next smaller number is only half a place away. -/
def interval (x : Binary64) : Interval :=
  let up := twoPow x.exponent.toNat
  let narrow := decide (x.significand = twoPow 52) && decide (-1074 < x.exponent)
  { low := (4 * x.significand - if narrow then 1 else 2) * up
    exact := 4 * x.significand * up
    high := (4 * x.significand + 2) * up
    den := 4 * twoPow (-x.exponent).toNat
    closed := x.significand % 2 == 0 }

/-- Whether `n * 10 ^ power` lies in the interval. -/
def Interval.holds (i : Interval) (n : Nat) (power : Int) : Bool :=
  let value := n * tenPow power.toNat * i.den
  let scale := tenPow (-power).toNat
  if i.closed then i.low * scale ≤ value && value ≤ i.high * scale
  else i.low * scale < value && value < i.high * scale

/-- The point of the grid of multiples of `10 ^ power` that lies in the interval, the nearer
of two, the upper of two equally near. -/
def Interval.gridPoint? (i : Interval) (power : Int) : Option Nat :=
  let num := i.exact * tenPow (-power).toNat
  let den := i.den * tenPow power.toNat
  let below := num / den
  let rest := num % den
  let lower := below ≠ 0 && i.holds below power
  let upper := i.holds (below + 1) power
  if lower && (!upper || 2 * rest < den) then some below
  else if upper then some (below + 1)
  else none

/-- The first grid, from the coarsest on, with a point in the interval. -/
def Interval.firstPoint (i : Interval) : (grids : Nat) → (power : Int) → Nat × Int
  | 0, power => (i.exact / i.den, power)
  | grids + 1, power =>
    match i.gridPoint? power with
    | some n => (n, power)
    | none => firstPoint i grids (power - 1)

/-- The fewest digits `n` and the power with `n * 10 ^ power` nearest to `x`. -/
def shortest (x : Binary64) : Nat × Int :=
  if x.significand = 0 then (0, 0)
  else
    let i := x.interval
    let size : Int := (Nat.toDigits 10 (i.exact / i.den)).length
    let start : Int :=
      if i.den ≤ i.exact then size
      else -((Nat.toDigits 10 (i.den / i.exact)).length : Int) + 1
    i.firstPoint 20 start

/-- Positional digits of `n * 10 ^ power`, without an exponent. -/
def positional (n : Nat) (power : Int) : List Char :=
  let digits := Nat.toDigits 10 n
  if 0 ≤ power then
    if n = 0 then ['0'] else digits ++ List.replicate power.toNat '0'
  else
    let places := (-power).toNat
    let padded := List.replicate (places + 1 - digits.length) '0' ++ digits
    padded.take (padded.length - places) ++ '.' :: padded.drop (padded.length - places)

def chars (x : Binary64) : List Char := positional x.shortest.1 x.shortest.2

end LeaseEscrow.Binary64
