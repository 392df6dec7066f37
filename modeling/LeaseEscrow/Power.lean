/-!
# Powers of ten and of two

The weights of decimal and of binary places. Both are natural numbers; where a weight meets
a signed number it is cast.
-/

namespace LeaseEscrow

/-- The weight `10 ^ n` of the `n`-th decimal place. -/
def tenPow (n : Nat) : Nat := Nat.pow 10 n

theorem tenPow_zero : tenPow 0 = 1 := rfl

theorem tenPow_succ (n : Nat) : tenPow (n + 1) = tenPow n * 10 := rfl

theorem tenPow_pos (n : Nat) : 0 < tenPow n := by
  induction n with
  | zero => decide
  | succ n ih => rw [tenPow_succ]; omega

theorem tenPow_add (m n : Nat) : tenPow (m + n) = tenPow m * tenPow n := by
  induction n with
  | zero => rw [Nat.add_zero, tenPow_zero, Nat.mul_one]
  | succ n ih => rw [← Nat.add_assoc, tenPow_succ, tenPow_succ, ih, Nat.mul_assoc]

theorem ten_le_tenPow {n : Nat} (h : n ≠ 0) : 10 ≤ tenPow n := by
  cases n with
  | zero => exact absurd rfl h
  | succ n => have := tenPow_pos n; rw [tenPow_succ]; omega

/-- The weight `2 ^ n` of the `n`-th binary place. -/
def twoPow (n : Nat) : Nat := Nat.pow 2 n

end LeaseEscrow
