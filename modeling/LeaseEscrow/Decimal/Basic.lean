import LeaseEscrow.Power

/-!
# Decimal amounts

A decimal is a sign and a magnitude read at a scale of at most 28 places; the magnitude stays
below `2 ^ 96`. Scale and sign belong to the written form of an amount (`1.0` and `1` are
written differently, and so are the zeros `0` and `-0`) but a zero's sign and the scale are no
part of its value: order and equivalence compare values only.
-/

namespace LeaseEscrow

/-- The capacity `2 ^ 96` of a magnitude. -/
abbrev Decimal.capacity : Nat := 79228162514264337593543950336

/-- The number `magnitude / 10 ^ scale`, or its negative. A zero carries a sign as well, which
shows only in its written form. -/
structure Decimal where
  negative : Bool
  magnitude : Nat
  scale : Nat
  magnitude_lt : magnitude < Decimal.capacity
  scale_le : scale ≤ 28
deriving DecidableEq

namespace Decimal

/-- A magnitude with its sign, as an integer. -/
def signed (negative : Bool) (magnitude : Nat) : Int :=
  if negative then -magnitude else magnitude

theorem natAbs_signed (negative : Bool) (n : Nat) : (signed negative n).natAbs = n := by
  unfold signed
  cases negative
  · exact Int.natAbs_natCast n
  · rw [if_pos rfl, Int.natAbs_neg, Int.natAbs_natCast]

theorem signed_natAbs (c : Int) : signed (decide (c < 0)) c.natAbs = c := by
  unfold signed
  by_cases h : c < 0
  · rw [if_pos (decide_eq_true h)]
    omega
  · rw [if_neg fun hd => h (of_decide_eq_true hd)]
    omega

/-- The magnitude with its sign: the value is `coeff / 10 ^ scale`. -/
def coeff (a : Decimal) : Int := signed a.negative a.magnitude

theorem natAbs_coeff (a : Decimal) : a.coeff.natAbs = a.magnitude := natAbs_signed _ _

/-- The decimal with this sign, magnitude and scale, if they are in range. -/
def ofSigned? (negative : Bool) (magnitude scale : Nat) : Option Decimal :=
  if h : magnitude < capacity ∧ scale ≤ 28 then some ⟨negative, magnitude, scale, h.1, h.2⟩
  else none

theorem ofSigned?_eq_some {negative : Bool} {m s : Nat} {d : Decimal} :
    ofSigned? negative m s = some d ↔ d.negative = negative ∧ d.magnitude = m ∧ d.scale = s := by
  unfold ofSigned?
  constructor
  · intro h
    split at h
    · cases h; exact ⟨rfl, rfl, rfl⟩
    · cases h
  · rintro ⟨rfl, rfl, rfl⟩
    rw [dif_pos ⟨d.magnitude_lt, d.scale_le⟩]

/-- The decimal with this coefficient and scale, if both are in range; zero has no sign. -/
def ofParts? (coeff : Int) (scale : Nat) : Option Decimal :=
  ofSigned? (coeff < 0) coeff.natAbs scale

theorem coeff_of_ofParts? {c : Int} {s : Nat} {d : Decimal} (h : ofParts? c s = some d) :
    d.coeff = c := by
  obtain ⟨hn, hm, -⟩ := ofSigned?_eq_some.1 h
  rw [coeff, hn, hm, signed_natAbs]

theorem scale_of_ofParts? {c : Int} {s : Nat} {d : Decimal} (h : ofParts? c s = some d) :
    d.scale = s := (ofSigned?_eq_some.1 h).2.2

theorem zero_le_scale : 0 ≤ 28 := Nat.zero_le 28

/-- A natural number at scale 0. -/
def ofNat (n : Nat) (h : n < capacity) : Decimal := ⟨false, n, 0, h, zero_le_scale⟩

def zero : Decimal := ofNat 0 (by decide)

def one : Decimal := ofNat 1 (by decide)

instance : Inhabited Decimal := ⟨zero⟩

/-- Every 64-bit word is a decimal of scale 0. -/
def ofUInt64 (n : UInt64) : Decimal :=
  ofNat n.toNat (by have := n.toNat_lt; simp only [capacity]; omega)

/-- So many hundredths, at scale 2. -/
def percent (n : UInt8) : Decimal where
  negative := false
  magnitude := n.toNat
  scale := 2
  magnitude_lt := by have := n.toNat_lt; simp only [capacity]; omega
  scale_le := by decide

/-! ## Order and equivalence of values -/

instance : LE Decimal := ⟨fun a b => a.coeff * tenPow b.scale ≤ b.coeff * tenPow a.scale⟩

instance : LT Decimal := ⟨fun a b => a.coeff * tenPow b.scale < b.coeff * tenPow a.scale⟩

/-- Two decimals are equivalent when their values agree, at whatever scale. -/
instance : HasEquiv Decimal := ⟨fun a b => a.coeff * tenPow b.scale = b.coeff * tenPow a.scale⟩

instance (a b : Decimal) : Decidable (a ≤ b) :=
  inferInstanceAs (Decidable (a.coeff * tenPow b.scale ≤ b.coeff * tenPow a.scale))

instance (a b : Decimal) : Decidable (a < b) :=
  inferInstanceAs (Decidable (a.coeff * tenPow b.scale < b.coeff * tenPow a.scale))

instance (a b : Decimal) : Decidable (a ≈ b) :=
  inferInstanceAs (Decidable (a.coeff * tenPow b.scale = b.coeff * tenPow a.scale))

theorem le_def {a b : Decimal} : a ≤ b ↔ a.coeff * tenPow b.scale ≤ b.coeff * tenPow a.scale :=
  Iff.rfl

theorem lt_def {a b : Decimal} : a < b ↔ a.coeff * tenPow b.scale < b.coeff * tenPow a.scale :=
  Iff.rfl

theorem equiv_def {a b : Decimal} : a ≈ b ↔ a.coeff * tenPow b.scale = b.coeff * tenPow a.scale :=
  Iff.rfl

def isZero (a : Decimal) : Bool := a.magnitude == 0

def isNegative (a : Decimal) : Bool := a.coeff < 0

def isPositive (a : Decimal) : Bool := 0 < a.coeff

/-- No digit after the point differs from zero. -/
def isWhole (a : Decimal) : Bool := a.magnitude % tenPow a.scale == 0

/-- The same amount, but a zero without a sign. -/
def plain (a : Decimal) : Decimal := { a with negative := a.negative && !a.isZero }

theorem coeff_plain (a : Decimal) : a.plain.coeff = a.coeff := by
  simp only [plain, isZero, coeff, signed]
  by_cases h : a.magnitude = 0 <;> simp [h]

theorem plain_plain (a : Decimal) : a.plain.plain = a.plain := by
  simp [plain, isZero]

/-- The smaller of two amounts; the first when they are equivalent. -/
def min (a b : Decimal) : Decimal := if b < a then b else a

end Decimal

end LeaseEscrow
