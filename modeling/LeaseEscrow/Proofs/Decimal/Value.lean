import LeaseEscrow.Decimal.Arithmetic
import Mathlib.Algebra.Order.Field.Rat
import Mathlib.Tactic.FieldSimp
import Mathlib.Tactic.Linarith
import Mathlib.Tactic.Positivity
import Mathlib.Tactic.Ring

/-!
# The value of a decimal

A decimal stands for the rational number `coeff / 10 ^ scale`. Order, equivalence and the
tests on decimals are those of their values; scale and the sign of a zero are not seen by it.
-/

namespace LeaseEscrow

theorem tenPow_cast_pos (n : Nat) : (0 : ℚ) < tenPow n := by
  exact_mod_cast tenPow_pos n

theorem tenPow_cast_ne_zero (n : Nat) : (tenPow n : ℚ) ≠ 0 := (tenPow_cast_pos n).ne'

namespace Decimal

def value (a : Decimal) : ℚ := a.coeff / tenPow a.scale

/-- The amount is a whole number. -/
def Whole (a : Decimal) : Prop := ∃ n : ℤ, a.value = n

/-! ## Order and equivalence -/

theorem equiv_iff_value {a b : Decimal} : a ≈ b ↔ a.value = b.value := by
  rw [equiv_def, value, value,
    div_eq_div_iff (tenPow_cast_ne_zero _) (tenPow_cast_ne_zero _)]
  exact_mod_cast Iff.rfl

theorem le_iff_value {a b : Decimal} : a ≤ b ↔ a.value ≤ b.value := by
  rw [le_def, value, value, div_le_div_iff₀ (tenPow_cast_pos _) (tenPow_cast_pos _)]
  exact_mod_cast Iff.rfl

theorem lt_iff_value {a b : Decimal} : a < b ↔ a.value < b.value := by
  rw [lt_def, value, value, div_lt_div_iff₀ (tenPow_cast_pos _) (tenPow_cast_pos _)]
  exact_mod_cast Iff.rfl

theorem value_min (a b : Decimal) : (a.min b).value = Min.min a.value b.value := by
  unfold Decimal.min
  split
  · next h => rw [min_eq_right (lt_iff_value.1 h).le]
  · next h => rw [min_eq_left (not_lt.1 fun hv => h (lt_iff_value.2 hv))]

theorem whole_min {a b : Decimal} (ha : a.Whole) (hb : b.Whole) : (a.min b).Whole := by
  unfold Decimal.min
  split <;> assumption

/-! ## Tests -/

theorem coeff_eq_zero_iff {a : Decimal} : a.coeff = 0 ↔ a.value = 0 := by
  rw [value, div_eq_zero_iff, or_iff_left (tenPow_cast_ne_zero _), Int.cast_eq_zero]

theorem isZero_iff {a : Decimal} : a.isZero = true ↔ a.value = 0 := by
  rw [isZero, beq_iff_eq, ← natAbs_coeff, Int.natAbs_eq_zero, coeff_eq_zero_iff]

theorem isNegative_iff {a : Decimal} : a.isNegative = true ↔ a.value < 0 := by
  rw [isNegative, decide_eq_true_iff, value, div_lt_iff₀ (tenPow_cast_pos _), zero_mul]
  exact_mod_cast Iff.rfl

theorem isPositive_iff {a : Decimal} : a.isPositive = true ↔ 0 < a.value := by
  rw [isPositive, decide_eq_true_iff, value, lt_div_iff₀ (tenPow_cast_pos _), zero_mul]
  exact_mod_cast Iff.rfl

theorem value_eq_iff_coeff {a : Decimal} {n : ℤ} :
    a.value = n ↔ a.coeff = n * tenPow a.scale := by
  rw [value, div_eq_iff (tenPow_cast_ne_zero _)]
  exact_mod_cast Iff.rfl

theorem isWhole_iff {a : Decimal} : a.isWhole = true ↔ a.Whole := by
  rw [isWhole, beq_iff_eq, ← Nat.dvd_iff_mod_eq_zero, ← natAbs_coeff, ← Int.natCast_dvd]
  constructor
  · rintro ⟨n, hn⟩
    exact ⟨n, value_eq_iff_coeff.2 (hn.trans (Int.mul_comm _ _))⟩
  · rintro ⟨n, hn⟩
    exact ⟨n, (value_eq_iff_coeff.1 hn).trans (Int.mul_comm _ _)⟩

/-- A whole amount stays within the capacity of magnitudes. -/
theorem natAbs_lt_of_value {a : Decimal} {n : ℤ} (h : a.value = n) : n.natAbs < capacity := by
  have hcoeff := congrArg Int.natAbs (value_eq_iff_coeff.1 h)
  rw [natAbs_coeff, Int.natAbs_mul, Int.natAbs_natCast] at hcoeff
  calc n.natAbs ≤ n.natAbs * tenPow a.scale := Nat.le_mul_of_pos_right _ (tenPow_pos _)
    _ = a.magnitude := hcoeff.symm
    _ < capacity := a.magnitude_lt

theorem exists_natCast {a : Decimal} (ha : a.Whole) (h : 0 ≤ a.value) : ∃ n : ℕ, a.value = n := by
  obtain ⟨m, hm⟩ := ha
  rw [hm] at h
  obtain ⟨n, rfl⟩ := Int.eq_ofNat_of_zero_le (Int.cast_nonneg_iff.1 h)
  exact ⟨n, hm⟩

/-! ## Values of particular decimals -/

theorem value_of_scale_zero {a : Decimal} (h : a.scale = 0) : a.value = a.coeff := by
  rw [value, h, tenPow_zero, Nat.cast_one, div_one]

theorem whole_of_scale_zero {a : Decimal} (h : a.scale = 0) : a.Whole :=
  ⟨a.coeff, value_of_scale_zero h⟩

theorem value_ofNat (n : Nat) (h : n < capacity) : (ofNat n h).value = n := by
  rw [value_of_scale_zero rfl]
  rfl

theorem value_zero : zero.value = 0 := value_ofNat 0 _

theorem value_one : one.value = 1 := (value_ofNat 1 _).trans Nat.cast_one

theorem whole_zero : zero.Whole := whole_of_scale_zero rfl

theorem value_ofUInt64 (n : UInt64) : (ofUInt64 n).value = n.toNat := value_ofNat _ _

theorem whole_trunc (a : Decimal) : a.trunc.Whole := whole_of_scale_zero rfl

theorem value_plain (a : Decimal) : a.plain.value = a.value := by
  rw [value, coeff_plain]
  rfl

theorem plain_of_not_isZero {a : Decimal} (h : a.isZero = false) : a.plain = a := by
  simp only [plain, h, Bool.not_false, Bool.and_true]

theorem value_neg (a : Decimal) : a.neg.value = -a.value := by
  have hcoeff : a.neg.coeff = -a.coeff := by
    cases hn : a.negative <;> simp [neg, coeff, signed, hn]
  rw [value, hcoeff, value, Int.cast_neg, neg_div]
  rfl

theorem whole_neg {a : Decimal} (h : a.Whole) : a.neg.Whole := by
  obtain ⟨n, hn⟩ := h
  exact ⟨-n, by rw [value_neg, hn, Int.cast_neg]⟩

end Decimal

end LeaseEscrow
