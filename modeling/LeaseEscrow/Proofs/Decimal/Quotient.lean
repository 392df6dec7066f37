import LeaseEscrow.Proofs.Decimal.Rounding
import Mathlib.Algebra.Order.Floor.Div

/-!
# Rounded up quotients

How often one whole amount goes into another, a started time counted whole, when the quotient is
a decimal. The decimal is rounded to the scale at which it fits, and then a remainder that is too
small against the divisor is lost: at scale `s` it is lost when it is at most half of the divisor's
part in `10 ^ s` (`ceil_div?`). A quotient that a word can hold has at least nine places, and one
below one has all 28.
-/

namespace LeaseEscrow.Decimal

/-! ## Rounding -/

theorem roundHalfEven_mul_mul {c : ℕ} (hc : 0 < c) (num den : ℕ) :
    roundHalfEven (num * c) (den * c) = roundHalfEven num den := by
  have hlt : den * c < 2 * (num % den * c) ↔ den < 2 * (num % den) := by
    rw [← Nat.mul_assoc, Nat.mul_lt_mul_right hc]
  have heq : 2 * (num % den * c) = den * c ↔ 2 * (num % den) = den := by
    rw [← Nat.mul_assoc, Nat.mul_left_inj hc.ne']
  simp only [roundHalfEven, Nat.mul_div_mul_right _ _ hc, Nat.mul_mod_mul_right, hlt, heq]

/-- An even number of whole times is not touched by rounding. -/
theorem roundHalfEven_add {den n : ℕ} (hden : 0 < den) (hn : n % 2 = 0) (num : ℕ) :
    roundHalfEven (n * den + num) den = n + roundHalfEven num den := by
  have hdiv : (n * den + num) / den = n + num / den := by
    rw [Nat.add_comm, Nat.add_mul_div_right _ _ hden, Nat.add_comm]
  have hmod : (n * den + num) % den = num % den := by
    rw [Nat.add_comm, Nat.add_mul_mod_self_right]
  have hparity : (n + num / den) % 2 = num / den % 2 := by omega
  simp only [roundHalfEven, hdiv, hmod, hparity]
  split <;> omega

/-- A half is rounded to nothing, and so is less than a half. -/
theorem roundHalfEven_eq_zero_iff {num den : ℕ} (hden : 0 < den) :
    roundHalfEven num den = 0 ↔ 2 * num ≤ den := by
  by_cases hlt : num < den
  · rw [roundHalfEven, Nat.div_eq_of_lt hlt, Nat.mod_eq_of_lt hlt]
    split <;> omega
  · have hone := le_roundHalfEven (n := 1) hden (by omega : 1 * den ≤ num)
    omega

/-! ## The scale of a quotient -/

theorem fit?_mul_mul {c : ℕ} (hc : 0 < c) {den : ℕ} (hden : 0 < den) (num scale : ℕ) :
    fit? ((num * c : ℕ) : ℤ) (den * c) scale = fit? num den scale := by
  have hcoeff : ∀ s, coeffAt ((num * c : ℕ) : ℤ) (den * c) s = coeffAt num den s := by
    intro s
    rw [coeffAt_natCast (Nat.mul_pos hden hc), coeffAt_natCast hden, Nat.mul_right_comm,
      roundHalfEven_mul_mul hc]
  induction scale with
  | zero => rw [fit?, fit?, hcoeff]
  | succ scale ih => rw [fit?, fit?, hcoeff, ih]

theorem le_natAbs_of_ofParts?_eq_none {c : ℤ} {scale : ℕ} (hscale : scale ≤ 28)
    (h : ofParts? c scale = none) : capacity ≤ c.natAbs := by
  by_contra hlt
  rw [ofParts?, ofSigned?, dif_pos ⟨not_le.1 hlt, hscale⟩] at h
  cases h

/-- A quotient is kept at the largest scale at which it fits. -/
theorem scale_of_fit? {num den : ℕ} (hden : 0 < den) {scale : ℕ} (hscale : scale ≤ 28) {d : Decimal}
    (h : fit? num den scale = some d) :
    d.scale ≤ scale ∧ d.coeff = roundHalfEven (num * tenPow d.scale) den ∧
      (d.scale < scale → capacity ≤ roundHalfEven (num * tenPow (d.scale + 1)) den) := by
  have hparts : ∀ {s}, ofParts? (coeffAt num den s) s = some d →
      d.scale = s ∧ d.coeff = roundHalfEven (num * tenPow d.scale) den := by
    intro s hs
    obtain rfl := scale_of_ofParts? hs
    exact ⟨rfl, (coeff_of_ofParts? hs).trans (coeffAt_natCast hden num d.scale)⟩
  induction scale with
  | zero =>
    obtain ⟨hs, hcoeff⟩ := hparts h
    exact ⟨hs.le, hcoeff, fun hlt => absurd hs hlt.ne⟩
  | succ scale ih =>
    unfold fit? at h
    split at h
    · next hfits =>
      cases h
      obtain ⟨hs, hcoeff⟩ := hparts hfits
      exact ⟨hs.le, hcoeff, fun hlt => absurd hs hlt.ne⟩
    · next hnone =>
      obtain ⟨hle, hcoeff, hlarge⟩ := ih (Nat.le_of_succ_le hscale) h
      refine ⟨Nat.le_succ_of_le hle, hcoeff, fun _ => ?_⟩
      rcases hle.lt_or_eq with hlt | heq
      · exact hlarge hlt
      · have hcapacity := le_natAbs_of_ofParts?_eq_none hscale hnone
        rwa [coeffAt_natCast hden, Int.natAbs_natCast, ← heq] at hcapacity

/-- The quotient of whole amounts does not depend on the scales that they are written at. -/
theorem div?_natCast {a b : Decimal} {num den : ℕ} (ha : a.value = num) (hb : b.value = den)
    (hden : 0 < den) : a.div? b = fit? num den 28 := by
  have hacoeff : a.coeff = ((num * tenPow a.scale : ℕ) : ℤ) := by
    rw [value_eq_iff_coeff.1 (show a.value = ((num : ℤ) : ℚ) from ha), Nat.cast_mul]
  have hbpos : 0 < b.value := by
    rw [hb]
    exact_mod_cast hden
  have hbcoeff : b.coeff = ((den * tenPow b.scale : ℕ) : ℤ) := by
    rw [value_eq_iff_coeff.1 (show b.value = ((den : ℤ) : ℚ) from hb), Nat.cast_mul]
  have hbmagnitude : b.magnitude = den * tenPow b.scale := by
    rw [← natAbs_coeff, hbcoeff, Int.natAbs_natCast]
  have hbsign : b.coeff.sign = 1 := by
    refine Int.sign_eq_one_of_pos ?_
    rw [hbcoeff]
    exact_mod_cast Nat.mul_pos hden (tenPow_pos _)
  have hbzero : ¬ b.isZero = true := fun hz => hbpos.ne' (isZero_iff.1 hz)
  have hnum : a.coeff * b.coeff.sign * (tenPow b.scale : ℤ) =
      ((num * (tenPow a.scale * tenPow b.scale) : ℕ) : ℤ) := by
    rw [hbsign, mul_one, hacoeff, ← Nat.cast_mul, Nat.mul_assoc]
  have hbelow : b.magnitude * tenPow a.scale = den * (tenPow a.scale * tenPow b.scale) := by
    rw [hbmagnitude, Nat.mul_assoc, Nat.mul_comm (tenPow b.scale)]
  rw [div?, if_neg hbzero, hnum, hbelow,
    fit?_mul_mul (Nat.mul_pos (tenPow_pos _) (tenPow_pos _)) hden]

/-! ## Counting up -/

/-- How often `den` goes into `num`, and one more when a remainder is left that rounding at the
scale does not lose. -/
def countedUp (num den scale : ℕ) : ℕ :=
  num / den + if den < 2 * (num % den) * tenPow scale then 1 else 0

theorem ceilDiv_eq {den : ℕ} (hden : 0 < den) (num : ℕ) :
    num ⌈/⌉ den = num / den + if num % den = 0 then 0 else 1 := by
  have hnum : num + den - 1 = (num % den + den - 1) + num / den * den := by
    have hsplit := Nat.div_add_mod' num den
    omega
  have hmod := Nat.mod_lt num hden
  rw [Nat.ceilDiv_eq_add_pred_div, hnum, Nat.add_mul_div_right _ _ hden, Nat.add_comm]
  split
  · next h => rw [h, Nat.zero_add, Nat.div_eq_of_lt (Nat.sub_lt hden Nat.one_pos)]
  · next h =>
    have hone : (num % den + den - 1) / den = 1 :=
      Nat.div_eq_of_lt_le (by omega) (by omega)
    rw [hone]

/-- No remainder that counts is lost, and a lost one takes one from the count. -/
theorem countedUp_eq_ceilDiv_iff {num den scale : ℕ} (hden : 0 < den) :
    countedUp num den scale = num ⌈/⌉ den ↔
      num % den = 0 ∨ den < 2 * (num % den) * tenPow scale := by
  rw [countedUp, ceilDiv_eq hden, Nat.add_right_inj]
  by_cases h0 : num % den = 0
  · simp [h0]
  · rw [if_neg h0, or_iff_right h0]
    split <;> simp [*]

theorem countedUp_le_ceilDiv {num den : ℕ} (hden : 0 < den) (scale : ℕ) :
    countedUp num den scale ≤ num ⌈/⌉ den ∧ num ⌈/⌉ den ≤ countedUp num den scale + 1 := by
  rw [countedUp, ceilDiv_eq hden]
  by_cases h0 : num % den = 0
  · simp [h0]
  · rw [if_neg h0]
    split <;> omega

theorem ceil_of_coeff {d : Decimal} {whole part : ℕ} (hpart : part ≤ tenPow d.scale)
    (h : d.coeff = ((whole * tenPow d.scale + part : ℕ) : ℤ)) :
    d.ceil = ((whole + if 0 < part then 1 else 0 : ℕ) : ℤ) := by
  have hpos : (0 : ℤ) < tenPow d.scale := by exact_mod_cast tenPow_pos _
  rw [ceil, h]
  rcases Nat.eq_zero_or_pos part with rfl | hpart0
  · rw [if_neg (lt_irrefl 0), Nat.add_zero, Nat.add_zero, Nat.cast_mul, ← neg_mul,
      Int.mul_ediv_cancel _ hpos.ne', neg_neg]
  · -- Below the whole number above it, the quotient is as much short of it as the part is of one.
    have hshort : -((whole * tenPow d.scale + part : ℕ) : ℤ) =
        ((tenPow d.scale : ℤ) - part) + -(whole + 1 : ℤ) * tenPow d.scale := by
      push_cast
      ring
    have hrest : ((tenPow d.scale : ℤ) - part) / tenPow d.scale = 0 :=
      Int.ediv_eq_zero_of_lt (by omega) (by omega)
    rw [if_pos hpart0, hshort, Int.add_mul_ediv_right _ _ hpos.ne', hrest]
    push_cast
    ring

/-- A count of a word at most has nine places, as nine places more still fit. -/
theorem nine_le_scale_of_fit? {num den bound : ℕ} (hden : 0 < den) (hbound : num ≤ bound * den)
    (hword : bound < UInt64.size) {d : Decimal} (h : fit? num den 28 = some d) : 9 ≤ d.scale := by
  obtain ⟨-, -, hlarge⟩ := scale_of_fit? hden le_rfl h
  by_contra hlt
  have hcoeff : roundHalfEven (num * tenPow (d.scale + 1)) den ≤ bound * tenPow (d.scale + 1) := by
    refine roundHalfEven_le hden ?_
    calc num * tenPow (d.scale + 1) ≤ bound * den * tenPow (d.scale + 1) :=
          Nat.mul_le_mul_right _ hbound
      _ = bound * tenPow (d.scale + 1) * den := Nat.mul_right_comm ..
  have hweight : tenPow (d.scale + 1) ≤ tenPow 9 :=
    Nat.pow_le_pow_right (by decide) (by omega)
  have hfits : bound * tenPow (d.scale + 1) < capacity :=
    calc bound * tenPow (d.scale + 1) ≤ bound * tenPow 9 := Nat.mul_le_mul_left _ hweight
      _ < UInt64.size * tenPow 9 := Nat.mul_lt_mul_of_pos_right hword (tenPow_pos _)
      _ < capacity := by decide
  have hcapacity := hlarge (by omega)
  omega

/-- A part of one has all 28 places. -/
theorem scale_eq_of_fit?_of_lt {num den : ℕ} (hlt : num < den) {d : Decimal}
    (h : fit? num den 28 = some d) : d.scale = 28 := by
  have hden : 0 < den := Nat.zero_lt_of_lt hlt
  obtain ⟨hle, -, hlarge⟩ := scale_of_fit? hden le_rfl h
  by_contra hne
  have hcoeff : roundHalfEven (num * tenPow (d.scale + 1)) den ≤ tenPow (d.scale + 1) := by
    refine roundHalfEven_le hden ?_
    rw [Nat.mul_comm]
    exact Nat.mul_le_mul_left _ hlt.le
  have hweight : tenPow (d.scale + 1) ≤ tenPow 28 :=
    Nat.pow_le_pow_right (by decide) (by omega)
  have hfits : tenPow 28 < capacity := by decide
  have hcapacity := hlarge (by omega)
  omega

/-- A whole amount divided by another one and rounded up counts how often the one goes into the
other, at the scale that the quotient is kept at. -/
theorem ceil_div? {a b : Decimal} {num den bound : ℕ} (ha : a.value = num) (hb : b.value = den)
    (hden : 0 < den) (hbound : num ≤ bound * den) (hword : bound < UInt64.size) :
    ∃ d, a.div? b = some d ∧ d.isNegative = false ∧ 9 ≤ d.scale ∧ d.scale ≤ 28 ∧
      (num < den → d.scale = 28) ∧ d.ceil = countedUp num den d.scale := by
  obtain ⟨d, hd⟩ := exists_fit? hden hbound (Nat.lt_trans hword (by decide)) 28
  obtain ⟨hscale, hcoeff, -⟩ := scale_of_fit? hden le_rfl hd
  have hnine := nine_le_scale_of_fit? hden hbound hword hd
  have hnegative : ¬ d.isNegative = true := by
    rw [isNegative_iff, not_lt]
    exact value_nonneg (bounds_of_fit? hden hbound hd).1
  refine ⟨d, (div?_natCast ha hb hden).trans hd, Bool.not_eq_true _ ▸ hnegative, hnine, hscale,
    fun hlt => scale_eq_of_fit?_of_lt hlt hd, ?_⟩
  -- The whole times are an even number of units at this scale, so that only the rest is rounded.
  have heven : (num / den * tenPow d.scale) % 2 = 0 := by
    obtain ⟨s, hs⟩ := Nat.exists_eq_succ_of_ne_zero (by omega : d.scale ≠ 0)
    rw [hs, Nat.succ_eq_add_one, tenPow_succ, ← Nat.mul_assoc]
    omega
  have hsplit : num * tenPow d.scale =
      num / den * tenPow d.scale * den + num % den * tenPow d.scale := by
    rw [Nat.mul_right_comm, ← Nat.add_mul, Nat.div_add_mod']
  have hpart : roundHalfEven (num % den * tenPow d.scale) den ≤ tenPow d.scale := by
    refine roundHalfEven_le hden ?_
    rw [Nat.mul_comm]
    exact Nat.mul_le_mul_left _ (Nat.mod_lt num hden).le
  have hlost : 0 < roundHalfEven (num % den * tenPow d.scale) den ↔
      den < 2 * (num % den) * tenPow d.scale := by
    rw [Nat.pos_iff_ne_zero, Ne, roundHalfEven_eq_zero_iff hden, not_le, Nat.mul_assoc]
  rw [hsplit, roundHalfEven_add hden heven] at hcoeff
  rw [ceil_of_coeff hpart hcoeff, countedUp]
  simp only [hlost]

end LeaseEscrow.Decimal
