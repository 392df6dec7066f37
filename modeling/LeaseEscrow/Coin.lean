import LeaseEscrow.Refusal
import LeaseEscrow.Text.Quoted

/-!
# Coins

A coin is an amount of one denomination. Amounts in circulation are whole and not negative;
a coin itself may hold any decimal, and `Coin.validate` tells. Arithmetic stays within one
denomination.
-/

namespace LeaseEscrow

structure Coin where
  denom : String
  amount : Decimal
deriving DecidableEq

namespace Coin

/-- Coins are equivalent when their denominations agree and their amounts have one value. -/
instance : HasEquiv Coin := ⟨fun a b => a.denom = b.denom ∧ a.amount ≈ b.amount⟩

instance (a b : Coin) : Decidable (a ≈ b) :=
  inferInstanceAs (Decidable (a.denom = b.denom ∧ a.amount ≈ b.amount))

/-- The coin with an unsigned zero for a signed one. -/
def plain (c : Coin) : Coin := { c with amount := c.amount.plain }

def zero (denom : String) : Coin := ⟨denom, .zero⟩

def isZero (c : Coin) : Bool := c.amount.isZero

def isPositive (c : Coin) : Bool := c.amount.isPositive

def toText (c : Coin) : String := s!"{c.amount}{c.denom}"

instance : ToString Coin := ⟨toText⟩

/-! ## Validation -/

def isDenomChar (c : Char) : Bool := c.isLower || c.isDigit || c == '/'

/-- 3 to 128 lowercase letters, digits and slashes, a letter first. -/
def isDenom (denom : String) : Bool :=
  let cs := denom.toList
  3 ≤ cs.length && cs.length ≤ 128 && cs.head?.any Char.isLower && cs.all isDenomChar

def validateDenom (denom : String) : Except Refusal Unit :=
  require (isDenom denom) (.invalidAmount s!"invalid denom {Text.quoted denom}")

/-- The denomination is well formed and the amount whole and not negative. -/
def validate (c : Coin) : Except Refusal Unit := do
  validateDenom c.denom
  require (!c.amount.isNegative) (.invalidAmount s!"{c} is negative")
  require c.amount.isWhole (.invalidAmount s!"{c} is not a whole number of base units")

def validatePositive (c : Coin) : Except Refusal Unit := do
  c.validate
  require c.isPositive (.invalidAmount s!"{c} must be positive")

def expectDenom (c : Coin) (denom : String) : Except Refusal Unit :=
  require (c.denom = denom) (.invalidAmount s!"expected denom {denom}, got {c.denom}")

/-! ## Arithmetic -/

def add (a b : Coin) : Except Refusal Coin := do
  b.expectDenom a.denom
  match a.amount.add? b.amount with
  | some amount => return ⟨a.denom, amount⟩
  | none => throw (.invalidAmount s!"{a} + {b} overflows")

/-- The difference, which must not be below zero. -/
def sub (a b : Coin) : Except Fault Coin := do
  b.expectDenom a.denom
  require (b.amount ≤ a.amount) (.invalidAmount s!"{a} - {b} would be negative")
  return ⟨a.denom, ← Fault.inRange (a.amount.sub? b.amount)⟩

/-- The coin `n` times, as a price per hour for `n` hours. -/
def times (c : Coin) (n : UInt64) : Except Refusal Coin :=
  match c.amount.mul? (.ofUInt64 n) with
  | some amount => .ok ⟨c.denom, amount⟩
  | none => .error (.invalidAmount s!"{c} × {n} overflows")

/-- Whether `n` times the coin is this total. -/
def costs (c : Coin) (n : UInt64) (total : Coin) : Bool :=
  match c.times n with
  | .ok cost => cost ≈ total
  | .error _ => false

/-- The sum of coins that are all of one denomination. -/
def sum (denom : String) (coins : List Coin) : Except Refusal Coin :=
  coins.foldlM add (zero denom)

end Coin

end LeaseEscrow
