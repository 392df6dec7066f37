import LeaseEscrow.Proofs.Decimal.Value

/-!
# Exact arithmetic on whole amounts

Rounding does not touch a whole number: whatever scale `fit?` ends at, a quotient that is
whole is kept as it is, and it is kept whenever it lies within capacity. So sums, differences,
products and whole quotients of whole amounts are exact, at any scales of the operands.
-/

namespace LeaseEscrow.Decimal

/-! ## Rounding whole quotients -/

theorem roundHalfEven_mul_right {den : Nat} (h : 0 < den) (n : Nat) :
    roundHalfEven (n * den) den = n := by
  unfold roundHalfEven
  rw [Nat.mul_div_cancel _ h, Nat.mul_mod_left]
  exact if_neg (by omega)

theorem sign_mul_natCast {den : Nat} (h : 0 < den) (n : ℤ) : (n * (den : ℤ)).sign = n.sign := by
  have hden : (den : ℤ).sign = 1 := Int.sign_eq_one_of_pos (by exact_mod_cast h)
  rw [Int.sign_mul, hden, mul_one]

theorem coeffAt_mul_right {den : Nat} (h : 0 < den) (n : ℤ) (scale : Nat) :
    coeffAt (n * den) den scale = n * tenPow scale := by
  have habs : (n * (den : ℤ)).natAbs * tenPow scale = n.natAbs * tenPow scale * den := by
    rw [Int.natAbs_mul, Int.natAbs_natCast, Nat.mul_right_comm]
  rw [coeffAt, habs, roundHalfEven_mul_right h, sign_mul_natCast h, Nat.cast_mul, ← mul_assoc,
    Int.sign_mul_natAbs]

/-- A whole quotient that fits at some scale is not rounded. -/
theorem value_of_fit? {den : Nat} (h : 0 < den) {n : ℤ} {scale : Nat} {d : Decimal}
    (hd : fit? (n * den) den scale = some d) : d.value = n := by
  have hparts : ∀ s, ofParts? (coeffAt (n * den) den s) s = some d → d.value = n := by
    intro s hs
    rw [coeffAt_mul_right h] at hs
    rw [value_eq_iff_coeff, coeff_of_ofParts? hs, scale_of_ofParts? hs]
  -- At every scale the quotient stays whole, so that it does not matter which one fits.
  induction scale with
  | zero => exact hparts 0 hd
  | succ scale ih =>
    unfold fit? at hd
    split at hd
    · next hs =>
      cases hd
      exact hparts _ hs
    · exact ih hd

theorem isSome_fit?_of_ofParts? {num : ℤ} {den : Nat} {d : Decimal}
    (h : ofParts? (coeffAt num den 0) 0 = some d) (scale : Nat) :
    ∃ e, fit? num den scale = some e := by
  induction scale with
  | zero => exact ⟨d, h⟩
  | succ scale ih =>
    unfold fit?
    split
    · next e _ => exact ⟨e, rfl⟩
    · exact ih

/-- A whole quotient within capacity fits. -/
theorem isSome_fit? {den : Nat} (h : 0 < den) {n : ℤ} (hn : n.natAbs < capacity) (scale : Nat) :
    ∃ d, fit? (n * den) den scale = some d := by
  refine isSome_fit?_of_ofParts? (d := ⟨decide (n < 0), n.natAbs, 0, hn, zero_le_scale⟩) ?_ scale
  rw [coeffAt_mul_right h, tenPow_zero, Nat.cast_one, mul_one]
  exact ofSigned?_eq_some.2 ⟨rfl, rfl, rfl⟩

/-! ## Addition and subtraction -/

/-- The coefficients of whole amounts, aligned at one scale, add up to the whole sum. -/
theorem aligned_sum {a b : Decimal} {m n : ℤ} (ha : a.value = m) (hb : b.value = n) :
    a.coeff * tenPow (max a.scale b.scale - a.scale) +
      b.coeff * tenPow (max a.scale b.scale - b.scale) =
        (m + n) * (tenPow (max a.scale b.scale) : ℤ) := by
  have hscale : ∀ {s : Nat}, s ≤ max a.scale b.scale →
      (tenPow s : ℤ) * tenPow (max a.scale b.scale - s) = tenPow (max a.scale b.scale) := by
    intro s hs
    rw [← Nat.cast_mul, ← tenPow_add, Nat.add_sub_cancel' hs]
  rw [value_eq_iff_coeff.1 ha, value_eq_iff_coeff.1 hb, mul_assoc, mul_assoc,
    hscale (Nat.le_max_left ..), hscale (Nat.le_max_right ..), add_mul]

/-- A sum of whole amounts is exact. -/
theorem value_add? {a b d : Decimal} (ha : a.Whole) (hb : b.Whole) (h : a.add? b = some d) :
    d.value = a.value + b.value := by
  obtain ⟨m, hm⟩ := ha
  obtain ⟨n, hn⟩ := hb
  unfold add? at h
  split at h
  · next hz =>
    cases h
    rw [isZero_iff.1 hz, zero_add]
  · split at h
    · next hz =>
      cases h
      rw [isZero_iff.1 hz, add_zero]
    · simp only [aligned_sum hm hn] at h
      rw [value_of_fit? (tenPow_pos _) h, hm, hn, Int.cast_add]

/-- Whole amounts have a sum as long as it lies within capacity. -/
theorem isSome_add? {a b : Decimal} {m n : ℤ} (ha : a.value = m) (hb : b.value = n)
    (h : (m + n).natAbs < capacity) : ∃ d, a.add? b = some d := by
  unfold add?
  split
  · exact ⟨b, rfl⟩
  · split
    · exact ⟨a, rfl⟩
    · simp only [aligned_sum ha hb]
      exact isSome_fit? (tenPow_pos _) h _

/-- Whole amounts that are not negative have a sum when it is not above another whole amount. -/
theorem exists_add? {a b bound : Decimal} (ha : a.Whole) (hb : b.Whole) (hbound : bound.Whole)
    (ha0 : 0 ≤ a.value) (hb0 : 0 ≤ b.value) (hle : a.value + b.value ≤ bound.value) :
    ∃ d, a.add? b = some d := by
  obtain ⟨m, hm⟩ := ha
  obtain ⟨n, hn⟩ := hb
  obtain ⟨t, ht⟩ := hbound
  have hcapacity := natAbs_lt_of_value ht
  rw [hm] at ha0
  rw [hn] at hb0
  rw [hm, hn, ht] at hle
  have hm0 : 0 ≤ m := by exact_mod_cast ha0
  have hn0 : 0 ≤ n := by exact_mod_cast hb0
  have hle' : m + n ≤ t := by exact_mod_cast hle
  exact isSome_add? hm hn (by omega)

theorem whole_add? {a b d : Decimal} (ha : a.Whole) (hb : b.Whole) (h : a.add? b = some d) :
    d.Whole := by
  have hd := value_add? ha hb h
  obtain ⟨m, hm⟩ := ha
  obtain ⟨n, hn⟩ := hb
  exact ⟨m + n, by rw [hd, hm, hn, Int.cast_add]⟩

/-- A difference of whole amounts is exact. -/
theorem value_sub? {a b d : Decimal} (ha : a.Whole) (hb : b.Whole) (h : a.sub? b = some d) :
    d.value = a.value - b.value := by
  unfold sub? at h
  split at h
  · next hz =>
    rw [Bool.and_eq_true] at hz
    cases h
    rw [isZero_iff.1 hz.1, isZero_iff.1 hz.2, sub_zero]
  · rw [value_add? ha (whole_neg hb) h, value_neg, sub_eq_add_neg]

theorem isSome_sub? {a b : Decimal} {m n : ℤ} (ha : a.value = m) (hb : b.value = n)
    (h : (m - n).natAbs < capacity) : ∃ d, a.sub? b = some d := by
  unfold sub?
  split
  · exact ⟨b, rfl⟩
  · exact isSome_add? (n := -n) ha (by rw [value_neg, hb, Int.cast_neg])
      (by rwa [← sub_eq_add_neg])

/-- A whole amount less another one that is not negative and not above it. -/
theorem exists_sub? {a b : Decimal} (ha : a.Whole) (hb : b.Whole) (hb0 : 0 ≤ b.value)
    (hle : b.value ≤ a.value) : ∃ d, a.sub? b = some d := by
  obtain ⟨m, hm⟩ := ha
  obtain ⟨n, hn⟩ := hb
  have hcapacity := natAbs_lt_of_value hm
  rw [hn] at hb0
  rw [hm, hn] at hle
  have hn0 : 0 ≤ n := by exact_mod_cast hb0
  have hle' : n ≤ m := by exact_mod_cast hle
  exact isSome_sub? hm hn (by omega)

theorem whole_sub? {a b d : Decimal} (ha : a.Whole) (hb : b.Whole) (h : a.sub? b = some d) :
    d.Whole := by
  have hd := value_sub? ha hb h
  obtain ⟨m, hm⟩ := ha
  obtain ⟨n, hn⟩ := hb
  exact ⟨m - n, by rw [hd, hm, hn, Int.cast_sub]⟩

/-! ## Multiplication -/

theorem coeff_mul_coeff {a b : Decimal} {m n : ℤ} (ha : a.value = m) (hb : b.value = n) :
    a.coeff * b.coeff = m * n * (tenPow (a.scale + b.scale) : ℤ) := by
  rw [value_eq_iff_coeff.1 ha, value_eq_iff_coeff.1 hb, tenPow_add, Nat.cast_mul]
  ring

/-- The sign of a product is already the one that its factors give it. -/
theorem value_withSign {a b d : Decimal} (h : d.value = a.value * b.value) :
    ({ d with negative := a.negative != b.negative } : Decimal).value = a.value * b.value := by
  have hd : (d.magnitude : ℚ) = |d.coeff| := by
    rw [← natAbs_coeff, Nat.cast_natAbs, Int.cast_abs]
  have habs : ({ d with negative := a.negative != b.negative } : Decimal).value =
      signed (a.negative != b.negative) d.magnitude / tenPow d.scale := rfl
  have hmag : (d.magnitude : ℚ) / tenPow d.scale =
      (a.magnitude : ℚ) / tenPow a.scale * ((b.magnitude : ℚ) / tenPow b.scale) := by
    have hvalue : ∀ e : Decimal, |e.value| = (e.magnitude : ℚ) / tenPow e.scale := by
      intro e
      rw [value, abs_div, abs_of_pos (tenPow_cast_pos e.scale), ← natAbs_coeff e,
        Nat.cast_natAbs, Int.cast_abs]
    rw [← hvalue, ← hvalue, ← hvalue, h, abs_mul]
  rw [habs, value, value, coeff, coeff]
  -- The magnitudes multiply, so that only the signs are left.
  cases a.negative <;> cases b.negative <;>
    simp only [signed, Bool.bne_true, Bool.bne_false, Bool.not_true, Bool.not_false, if_true,
      Bool.false_eq_true, if_false, Int.cast_neg, Int.cast_natCast, neg_div, hmag] <;> ring

/-- A product of whole amounts is exact. -/
theorem value_mul? {a b d : Decimal} (ha : a.Whole) (hb : b.Whole) (h : a.mul? b = some d) :
    d.value = a.value * b.value := by
  obtain ⟨m, hm⟩ := ha
  obtain ⟨n, hn⟩ := hb
  unfold mul? at h
  split at h
  · next hz =>
    cases h
    rw [Bool.or_eq_true, isZero_iff, isZero_iff] at hz
    rcases hz with hz | hz <;> rw [hz, value_zero] <;> ring
  · rw [coeff_mul_coeff hm hn] at h
    split at h
    · next product hfit =>
      have hproduct : product.value = a.value * b.value := by
        rw [value_of_fit? (tenPow_pos _) hfit, hm, hn, Int.cast_mul]
      split at h
      · cases h
        exact hproduct
      · cases h
        exact value_withSign hproduct
    · cases h

theorem isSome_mul? {a b : Decimal} {m n : ℤ} (ha : a.value = m) (hb : b.value = n)
    (h : (m * n).natAbs < capacity) : ∃ d, a.mul? b = some d := by
  unfold mul?
  split
  · exact ⟨zero, rfl⟩
  · obtain ⟨d, hd⟩ := isSome_fit? (tenPow_pos (a.scale + b.scale)) h (a.scale + b.scale)
    rw [coeff_mul_coeff ha hb, hd]
    simp only
    split
    · exact ⟨_, rfl⟩
    · exact ⟨_, rfl⟩

theorem whole_mul? {a b d : Decimal} (ha : a.Whole) (hb : b.Whole) (h : a.mul? b = some d) :
    d.Whole := by
  have hd := value_mul? ha hb h
  obtain ⟨m, hm⟩ := ha
  obtain ⟨n, hn⟩ := hb
  exact ⟨m * n, by rw [hd, hm, hn, Int.cast_mul]⟩

/-! ## Whole quotients -/

/-- A whole quotient of whole amounts is exact. -/
theorem div?_of_value {a b : Decimal} {m n : ℤ} (ha : a.value = n * m) (hb : b.value = m)
    (hm : m ≠ 0) (hn : n.natAbs < capacity) : ∃ d, a.div? b = some d ∧ d.value = n := by
  have hzero : ¬ b.isZero = true := by
    rw [isZero_iff, hb]
    exact_mod_cast hm
  have hacoeff := value_eq_iff_coeff.1 (ha.trans (Int.cast_mul n m).symm)
  have hbcoeff := value_eq_iff_coeff.1 hb
  have hsign : b.coeff.sign = m.sign := by rw [hbcoeff, sign_mul_natCast (tenPow_pos _)]
  have hmag : (b.magnitude : ℤ) = m * m.sign * tenPow b.scale := by
    rw [← natAbs_coeff, hbcoeff, Int.natAbs_mul, Int.natAbs_natCast, Nat.cast_mul,
      Int.mul_sign_self]
  have hnum : a.coeff * b.coeff.sign * tenPow b.scale =
      n * ((b.magnitude * tenPow a.scale : Nat) : ℤ) := by
    rw [Nat.cast_mul, hmag, hacoeff, hsign]
    ring
  have hden : 0 < b.magnitude * tenPow a.scale := by
    refine Nat.mul_pos (Nat.pos_of_ne_zero fun h0 => hzero ?_) (tenPow_pos _)
    rw [isZero, h0]
    rfl
  obtain ⟨d, hd⟩ := isSome_fit? hden hn 28
  refine ⟨d, ?_, value_of_fit? hden hd⟩
  rw [div?, if_neg hzero, hnum, hd]

theorem ceil_of_value {a : Decimal} {n : ℤ} (h : a.value = n) : a.ceil = n := by
  rw [ceil, value_eq_iff_coeff.1 h, ← neg_mul,
    Int.mul_ediv_cancel _ (by exact_mod_cast (tenPow_pos _).ne'), neg_neg]

end LeaseEscrow.Decimal
