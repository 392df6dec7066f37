import LeaseEscrow.Decimal.Basic

/-!
# Decimal arithmetic

The result of an operation is its exact value, kept at the largest scale at which it fits:
`fit?` rounds to that scale, a half going to the even neighbour, and fails when not even
the whole part fits. Addition starts from the larger scale of its operands, multiplication
from the sum of both, division from 28. A result of zero has no sign, but for the cases that
say so.
-/

namespace LeaseEscrow.Decimal

/-! ## Rounding into range -/

/-- The natural number nearest to `num / den`; a half goes to the even neighbour. -/
def roundHalfEven (num den : Nat) : Nat :=
  let whole := num / den
  let rest := 2 * (num % den)
  if den < rest ∨ (rest = den ∧ whole % 2 = 1) then whole + 1 else whole

/-- The coefficient of `num / den` at a scale, rounded to the nearest. -/
def coeffAt (num : Int) (den scale : Nat) : Int :=
  num.sign * roundHalfEven (num.natAbs * tenPow scale) den

/-- `num / den` at the largest scale, from `scale` downwards, at which it fits. -/
def fit? (num : Int) (den : Nat) : (scale : Nat) → Option Decimal
  | 0 => ofParts? (coeffAt num den 0) 0
  | scale + 1 =>
    match ofParts? (coeffAt num den (scale + 1)) (scale + 1) with
    | some d => some d
    | none => fit? num den scale

/-! ## Operations that may leave the range -/

/-- A zero operand yields the other one, with that one's scale and sign. -/
def add? (a b : Decimal) : Option Decimal :=
  if a.isZero then some b
  else if b.isZero then some a
  else
    let scale := max a.scale b.scale
    let total := a.coeff * tenPow (scale - a.scale) + b.coeff * tenPow (scale - b.scale)
    fit? total (tenPow scale) scale

def neg (a : Decimal) : Decimal := { a with negative := !a.negative }

/-- A zero less a zero is the second one as it stands. -/
def sub? (a b : Decimal) : Option Decimal :=
  if a.isZero && b.isZero then some b else a.add? b.neg

/-- The magnitude fits a word of 32 bits. -/
def isNarrow (a : Decimal) : Bool := a.magnitude < 4294967296

/-- A product with zero is the zero of scale 0. Where a factor is not narrow, a product that is
rounded off to zero keeps its sign. -/
def mul? (a b : Decimal) : Option Decimal :=
  if a.isZero || b.isZero then some zero
  else
    match fit? (a.coeff * b.coeff) (tenPow (a.scale + b.scale)) (a.scale + b.scale) with
    | some product =>
      if a.isNarrow && b.isNarrow then some product
      else some { product with negative := a.negative != b.negative }
    | none => none

def div? (a b : Decimal) : Option Decimal :=
  if b.isZero then none
  else fit? (a.coeff * b.coeff.sign * tenPow b.scale) (b.magnitude * tenPow a.scale) 28

/-! ## Whole parts -/

/-- The fraction is dropped; the sign stays, on a zero too. -/
def trunc (a : Decimal) : Decimal where
  negative := a.negative
  magnitude := a.magnitude / tenPow a.scale
  scale := 0
  magnitude_lt := Nat.lt_of_le_of_lt (Nat.div_le_self _ _) a.magnitude_lt
  scale_le := zero_le_scale

/-- The least whole number that is not below the amount. -/
def ceil (a : Decimal) : Int := -((-a.coeff) / (tenPow a.scale : Int))

theorem magnitude_div_add_one_lt {a : Decimal} (h : ¬ a.isWhole) :
    a.magnitude / tenPow a.scale + 1 < capacity := by
  have hs : a.scale ≠ 0 := by
    intro h0
    apply h
    simp [isWhole, h0, tenPow_zero, Nat.mod_one]
  have hdiv : a.magnitude / tenPow a.scale ≤ a.magnitude / 10 :=
    Nat.div_le_div_left (ten_le_tenPow hs) (by decide)
  have hlt := a.magnitude_lt
  simp only [capacity] at hlt ⊢
  omega

/-- The amount as a whole number of scale 0 with the same sign; a fraction moves it one
further from zero. -/
def awayFromZero (a : Decimal) : Decimal :=
  if h : a.isWhole then a.trunc
  else ⟨a.negative, a.magnitude / tenPow a.scale + 1, 0, magnitude_div_add_one_lt h, zero_le_scale⟩

end LeaseEscrow.Decimal
