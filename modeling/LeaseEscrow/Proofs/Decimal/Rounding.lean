import LeaseEscrow.Proofs.Decimal.Exact

/-!
# Rounding

Rounding to the nearest never crosses a whole number: a quotient up to a whole number within capacity
is kept, and what is kept is not above that number (`exists_fit?`, `bounds_of_fit?`). So the shares of
a distribution come to one only if they do so exactly (`add_eq_one_of_add?`).
-/

namespace LeaseEscrow.Decimal

/-! ## Rounding and whole numbers -/

theorem roundHalfEven_le {num den n : ℕ} (hden : 0 < den) (h : num ≤ n * den) :
    roundHalfEven num den ≤ n := by
  have hle : num / den ≤ n := Nat.div_le_of_le_mul (by rwa [Nat.mul_comm])
  rcases Nat.lt_or_eq_of_le hle with hlt | heq
  · have hround : roundHalfEven num den ≤ num / den + 1 := by
      simp only [roundHalfEven]
      split <;> omega
    omega
  · -- The quotient is the whole number itself, so that nothing is left to round.
    have hnum : num = n * den := by
      refine Nat.le_antisymm h ?_
      rw [← heq]
      exact Nat.div_mul_le_self num den
    rw [hnum, roundHalfEven_mul_right hden]

theorem coeffAt_natCast {den : ℕ} (hden : 0 < den) (num scale : ℕ) :
    coeffAt num den scale = roundHalfEven (num * tenPow scale) den := by
  rw [coeffAt, Int.natAbs_natCast]
  rcases Nat.eq_zero_or_pos num with rfl | hpos
  · have hzero : roundHalfEven 0 den = 0 := Nat.le_zero.1 (roundHalfEven_le hden (Nat.zero_le _))
    rw [Nat.zero_mul, hzero]
    rfl
  · rw [Int.sign_eq_one_of_pos (by exact_mod_cast hpos), one_mul]

theorem coeffAt_le {num den n : ℕ} (hden : 0 < den) (h : num ≤ n * den) (scale : ℕ) :
    coeffAt num den scale ≤ ((n * tenPow scale : ℕ) : ℤ) := by
  rw [coeffAt_natCast hden]
  refine Int.ofNat_le.2 (roundHalfEven_le hden ?_)
  calc num * tenPow scale ≤ n * den * tenPow scale := Nat.mul_le_mul_right _ h
    _ = n * tenPow scale * den := Nat.mul_right_comm ..

theorem le_roundHalfEven {num den n : ℕ} (hden : 0 < den) (h : n * den ≤ num) :
    n ≤ roundHalfEven num den := by
  have hle : n ≤ num / den := (Nat.le_div_iff_mul_le hden).2 h
  have hround : num / den ≤ roundHalfEven num den := by
    simp only [roundHalfEven]
    split <;> omega
  exact Nat.le_trans hle hround

/-- A quotient that is kept is not negative and not above a whole number that it was not above. -/
theorem bounds_of_fit? {num den n : ℕ} (hden : 0 < den) (h : num ≤ n * den) {scale : ℕ}
    {d : Decimal} (hd : fit? num den scale = some d) : d.negative = false ∧ d.value ≤ n := by
  have hparts : ∀ s, ofParts? (coeffAt num den s) s = some d → d.negative = false ∧ d.value ≤ n := by
    intro s hs
    have hcoeff := coeff_of_ofParts? hs
    have hscale := scale_of_ofParts? hs
    have hnonneg : 0 ≤ coeffAt num den s := by
      rw [coeffAt_natCast hden]
      exact Int.natCast_nonneg _
    constructor
    · rw [(ofSigned?_eq_some.1 hs).1, decide_eq_false_iff_not, not_lt]
      exact hnonneg
    · have hle : d.coeff ≤ ((n * tenPow d.scale : ℕ) : ℤ) := by
        rw [hcoeff, hscale]
        exact coeffAt_le hden h s
      rw [value, div_le_iff₀ (tenPow_cast_pos _)]
      exact_mod_cast hle
  induction scale with
  | zero => exact hparts 0 hd
  | succ scale ih =>
    unfold fit? at hd
    split at hd
    · next hs =>
      cases hd
      exact hparts _ hs
    · exact ih hd

/-- A quotient up to a whole number within capacity is kept. -/
theorem exists_fit? {num den n : ℕ} (hden : 0 < den) (h : num ≤ n * den) (hn : n < capacity)
    (scale : ℕ) : ∃ d, fit? num den scale = some d := by
  have hle := coeffAt_le hden h 0
  have hcoeff := coeffAt_natCast hden num 0
  rw [tenPow_zero, Nat.mul_one] at hle
  have hlt : (coeffAt num den 0).natAbs < capacity := by omega
  exact isSome_fit?_of_ofParts?
    (d := ⟨decide (coeffAt num den 0 < 0), (coeffAt num den 0).natAbs, 0, hlt, zero_le_scale⟩)
    (ofSigned?_eq_some.2 ⟨rfl, rfl, rfl⟩) scale

/-! ## Signs -/

/-- A positive value is written without a sign. -/
theorem negative_of_pos {a : Decimal} (h : 0 < a.value) : a.negative = false := by
  rw [← isPositive_iff, isPositive, decide_eq_true_iff, coeff, signed] at h
  cases hn : a.negative with
  | false => rfl
  | true =>
    rw [hn, if_pos rfl] at h
    omega

theorem coeff_of_not_negative {a : Decimal} (h : a.negative = false) : a.coeff = a.magnitude := by
  rw [coeff, h]
  rfl

theorem value_of_not_negative {a : Decimal} (h : a.negative = false) :
    a.value = a.magnitude / tenPow a.scale := by
  rw [value, coeff_of_not_negative h, Int.cast_natCast]

theorem value_nonneg {a : Decimal} (h : a.negative = false) : 0 ≤ a.value := by
  rw [value_of_not_negative h]
  exact div_nonneg (Nat.cast_nonneg _) (tenPow_cast_pos _).le

/-! ## Sums -/

/-- Rounding leaves a large quotient large. -/
theorem le_value_of_fit? {num den n : ℕ} (hden : 0 < den) (h : n * den ≤ num) {scale : ℕ}
    {d : Decimal} (hd : fit? num den scale = some d) : (n : ℚ) ≤ d.value := by
  have hparts : ∀ s, ofParts? (coeffAt num den s) s = some d → (n : ℚ) ≤ d.value := by
    intro s hs
    have hcoeff := coeff_of_ofParts? hs
    have hle : n * tenPow s ≤ roundHalfEven (num * tenPow s) den := by
      refine le_roundHalfEven hden ?_
      calc n * tenPow s * den = n * den * tenPow s := Nat.mul_right_comm ..
        _ ≤ num * tenPow s := Nat.mul_le_mul_right _ h
    rw [coeffAt_natCast hden] at hcoeff
    rw [value, le_div_iff₀ (tenPow_cast_pos _), hcoeff, scale_of_ofParts? hs]
    exact_mod_cast hle
  induction scale with
  | zero => exact hparts 0 hd
  | succ scale ih =>
    unfold fit? at hd
    split at hd
    · next hs =>
      cases hd
      exact hparts _ hs
    · exact ih hd

/-- At its own scale a number that fits is not rounded. -/
theorem fit?_of_lt {num scale : ℕ} (hscale : scale ≤ 28) (h : num < capacity) :
    fit? num (tenPow scale) scale = some ⟨false, num, scale, h, hscale⟩ := by
  have hcoeff : coeffAt num (tenPow scale) scale = num := by
    rw [coeffAt_natCast (tenPow_pos _), roundHalfEven_mul_right (tenPow_pos _)]
  have hparts : ofParts? (coeffAt num (tenPow scale) scale) scale =
      some ⟨false, num, scale, h, hscale⟩ := by
    rw [hcoeff]
    exact ofSigned?_eq_some.2 ⟨(decide_eq_false (not_lt.2 (Int.natCast_nonneg num))).symm,
      (Int.natAbs_natCast num).symm, rfl⟩
  cases scale with
  | zero => exact hparts
  | succ scale => rw [fit?, hparts]

theorem value_aligned {a : Decimal} {scale : ℕ} (h : a.scale ≤ scale) :
    (a.coeff * tenPow (scale - a.scale) : ℚ) / tenPow scale = a.value := by
  have hscale : (tenPow scale : ℚ) = tenPow a.scale * tenPow (scale - a.scale) := by
    rw [← Nat.cast_mul, ← tenPow_add, Nat.add_sub_cancel' h]
  rw [value, hscale, mul_div_mul_right _ _ (tenPow_cast_ne_zero _)]

/-- Positive amounts are added at the larger scale of the two. -/
theorem add?_of_pos {a b : Decimal} (ha : 0 < a.value) (hb : 0 < b.value) :
    ∃ total : ℕ, (total : ℚ) / tenPow (max a.scale b.scale) = a.value + b.value ∧
      a.add? b = fit? total (tenPow (max a.scale b.scale)) (max a.scale b.scale) := by
  have haz : ¬ a.isZero = true := fun h => ha.ne' (isZero_iff.1 h)
  have hbz : ¬ b.isZero = true := fun h => hb.ne' (isZero_iff.1 h)
  obtain ⟨total, htotal⟩ : ∃ total : ℕ, (total : ℤ) =
      a.coeff * tenPow (max a.scale b.scale - a.scale) +
        b.coeff * tenPow (max a.scale b.scale - b.scale) := by
    rw [coeff_of_not_negative (negative_of_pos ha), coeff_of_not_negative (negative_of_pos hb)]
    exact ⟨_, rfl⟩
  refine ⟨total, ?_, by rw [add?, if_neg haz, if_neg hbz, htotal]⟩
  rw [← value_aligned (Nat.le_max_left a.scale b.scale),
    ← value_aligned (Nat.le_max_right a.scale b.scale), ← add_div]
  congr 1
  exact_mod_cast htotal

/-- Shares that come to one after rounding come to exactly one: what does not fit unrounded is
far above one. -/
theorem add_eq_one_of_add? {a b d : Decimal} (ha : 0 ≤ a.value) (hb : 0 ≤ b.value)
    (h : a.add? b = some d) (hd : d.value = 1) : a.value + b.value = 1 := by
  rcases ha.eq_or_lt with hzero | ha
  · rw [add?, if_pos (isZero_iff.2 hzero.symm)] at h
    cases h
    rw [← hzero, zero_add, hd]
  rcases hb.eq_or_lt with hzero | hb
  · rw [add?, if_neg fun h => ha.ne' (isZero_iff.1 h), if_pos (isZero_iff.2 hzero.symm)] at h
    cases h
    rw [← hzero, add_zero, hd]
  obtain ⟨total, hvalue, hadd⟩ := add?_of_pos ha hb
  have hscale : max a.scale b.scale ≤ 28 := Nat.max_le.2 ⟨a.scale_le, b.scale_le⟩
  rw [hadd] at h
  by_cases hlt : total < capacity
  · rw [fit?_of_lt hscale hlt] at h
    cases h
    rw [← hvalue, ← hd]
    rfl
  · -- Seven times the weight of any scale is within capacity.
    have hseven : 7 * tenPow (max a.scale b.scale) ≤ total := by
      have hweight : tenPow (max a.scale b.scale) ≤ tenPow 28 :=
        Nat.pow_le_pow_right (by decide) hscale
      have hcapacity : 7 * tenPow 28 ≤ capacity := by decide
      omega
    have hle := le_value_of_fit? (tenPow_pos _) hseven h
    rw [hd] at hle
    norm_num at hle

end LeaseEscrow.Decimal
