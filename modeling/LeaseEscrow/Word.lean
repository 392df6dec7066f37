/-!
# Words

Hours, heights and counters are 64-bit words.
-/

namespace LeaseEscrow

/-- The largest 64-bit word. -/
def largestWord : UInt64 := 0xFFFFFFFFFFFFFFFF

theorem largestWord_toNat : largestWord.toNat = 18446744073709551615 := rfl

theorem lt_largestWord {n : UInt64} (h : n ≠ largestWord) : n < largestWord := by
  have hlt := n.toNat_lt
  have hne : n.toNat ≠ largestWord.toNat := fun he => h (UInt64.toNat_inj.1 he)
  rw [largestWord_toNat] at hne
  rw [UInt64.lt_iff_toNat_lt, largestWord_toNat]
  omega

/-- Every other word has a successor. -/
theorem toNat_succ {n : UInt64} (h : n ≠ largestWord) : (n + 1).toNat = n.toNat + 1 := by
  have hlt := UInt64.lt_iff_toNat_lt.1 (lt_largestWord h)
  rw [largestWord_toNat] at hlt
  rw [UInt64.toNat_add, UInt64.toNat_one]
  omega

/-- A whole number as a 64-bit word, if it is one. -/
def wordOf? (n : Int) : Option UInt64 :=
  if 0 ≤ n ∧ n < UInt64.size then some (UInt64.ofNat n.toNat) else none

end LeaseEscrow
