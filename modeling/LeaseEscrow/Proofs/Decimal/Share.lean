import LeaseEscrow.Proofs.Decimal.Places

/-!
# Shares of an amount

A share of a whole amount is a decimal, kept at the places of the exact product
(`exists_mul?_of_share`). A share below one stays a whole unit below the amount, however it is
rounded (`cut_lt_of_share`).
-/

namespace LeaseEscrow.Decimal

/-! ## Whole parts -/

/-- The digits before the point are the floor. -/
theorem floor_value {d : Decimal} (h : d.negative = false) :
    ⌊d.value⌋ = ((d.magnitude / tenPow d.scale : ℕ) : ℤ) := by
  rw [value_of_not_negative h]
  exact Rat.floor_natCast_div_natCast ..

theorem value_trunc {d : Decimal} (h : d.negative = false) : d.trunc.value = ⌊d.value⌋ := by
  have hsign : d.trunc.negative = false := h
  rw [floor_value h, value_of_scale_zero rfl, coeff_of_not_negative hsign]
  rfl

theorem value_awayFromZero {d : Decimal} (h : d.negative = false) :
    d.awayFromZero.value = ⌈d.value⌉ := by
  unfold awayFromZero
  split
  · next hwhole =>
    obtain ⟨n, hn⟩ := isWhole_iff.1 hwhole
    rw [value_trunc h, hn, Int.floor_intCast, Int.ceil_intCast]
  · next hpart =>
    have hceil : ⌈d.value⌉ = ⌊d.value⌋ + 1 := by
      rw [Int.ceil_eq_floor_add_one_iff_notMem]
      rintro ⟨n, hn⟩
      exact hpart (isWhole_iff.2 ⟨n, hn.symm⟩)
    rw [hceil, floor_value h, value_of_scale_zero rfl]
    simp only [coeff, h]
    rfl

/-! ## Products -/

/-- The product of a whole amount does not depend on the scale that the amount is written at. -/
theorem mul?_natCast {a share : Decimal} {n : ℕ} (ha : a.value = n) (hn : 0 < n)
    (hshare : 0 < share.value) :
    a.mul? share =
      fit? ((n * share.magnitude : ℕ) : ℤ) (tenPow share.scale) (a.scale + share.scale) := by
  have ha0 : 0 < a.value := by
    rw [ha]
    exact_mod_cast hn
  have hzero : ¬ (a.isZero || share.isZero) = true := by
    rw [Bool.or_eq_true, not_or, isZero_iff, isZero_iff]
    exact ⟨ha0.ne', hshare.ne'⟩
  have han := negative_of_pos ha0
  have hsn := negative_of_pos hshare
  have hmagnitude : a.magnitude = n * tenPow a.scale := by
    have hcoeff := value_eq_iff_coeff.1 (show a.value = ((n : ℤ) : ℚ) from ha)
    rw [coeff_of_not_negative han] at hcoeff
    exact_mod_cast hcoeff
  have hproduct : a.coeff * share.coeff =
      ((n * share.magnitude * tenPow a.scale : ℕ) : ℤ) := by
    rw [coeff_of_not_negative han, coeff_of_not_negative hsn, hmagnitude]
    push_cast
    ring
  have hplaces : tenPow (a.scale + share.scale) = tenPow share.scale * tenPow a.scale := by
    rw [Nat.add_comm, tenPow_add]
  rw [mul?, if_neg hzero, hproduct, hplaces, fit?_mul_mul (tenPow_pos _) (tenPow_pos _)]
  cases hfit : fit? ((n * share.magnitude : ℕ) : ℤ) (tenPow share.scale) (a.scale + share.scale) with
  | none => rfl
  | some product =>
    have hsign := (bounds_of_fit? (tenPow_pos _) (Nat.le_mul_of_pos_right _ (tenPow_pos _)) hfit).1
    have hsigned : ({ product with negative := a.negative != share.negative } : Decimal) = product := by
      rw [han, hsn, bne_self_eq_false, ← hsign]
    simp only [hsigned, ite_self]

/-- The share of a whole amount is a decimal. Cut, or counted up, it is what the rounded product is. -/
theorem exists_mul?_of_share {a share : Decimal} (ha : a.Whole) (ha0 : 0 ≤ a.value)
    (hshare0 : 0 ≤ share.value) (hshare1 : share.value ≤ 1) :
    ∃ d, a.mul? share = some d ∧ d.trunc.value = cut (a.value * share.value) ∧
      d.awayFromZero.value = raised (a.value * share.value) := by
  obtain ⟨n, hn⟩ := exists_natCast ha ha0
  rcases (mul_nonneg ha0 hshare0).eq_or_lt with hzero | hpos
  · have hz : (a.isZero || share.isZero) = true := by
      rw [Bool.or_eq_true, isZero_iff, isZero_iff]
      exact mul_eq_zero.1 hzero.symm
    have hfits : (0 : ℚ) * tenPow 0 = (0 : ℕ) := by simp
    refine ⟨zero, by rw [mul?, if_pos hz], ?_, ?_⟩
    · rw [← hzero, cut_of_fits (Nat.zero_le 28) hfits (by decide), Int.floor_zero, Int.cast_zero]
      exact value_zero
    · rw [← hzero, raised_of_fits (Nat.zero_le 28) hfits (by decide), Int.ceil_zero, Int.cast_zero]
      exact value_zero
  · obtain ⟨ha', hshare⟩ := (pos_and_pos_or_neg_and_neg_of_mul_pos hpos).resolve_right
      fun h => absurd h.1 (not_lt.2 ha0)
    have hpos' : 0 < n := by
      rw [hn] at ha'
      exact_mod_cast ha'
    have hq : a.value * share.value = ((n * share.magnitude : ℕ) : ℚ) / (tenPow share.scale : ℕ) := by
      rw [hn, value_of_not_negative (negative_of_pos hshare), Nat.cast_mul, mul_div_assoc]
    have hle : n * share.magnitude ≤ n * tenPow share.scale := by
      refine Nat.mul_le_mul_left n ?_
      rw [value_of_not_negative (negative_of_pos hshare), div_le_one (tenPow_cast_pos _)] at hshare1
      exact_mod_cast hshare1
    have hcapacity : n < capacity := by
      simpa using natAbs_lt_of_value (show a.value = ((n : ℤ) : ℚ) from hn)
    obtain ⟨d, hfit⟩ := exists_fit? (tenPow_pos share.scale) hle hcapacity (a.scale + share.scale)
    have hvalue := value_of_fit?_places (tenPow_pos _) hq share.scale_le (Nat.le_add_left ..)
      (Nat.dvd_mul_left ..) hfit
    have hsign := (bounds_of_fit? (tenPow_pos _) hle hfit).1
    refine ⟨d, (mul?_natCast hn hpos' hshare).trans hfit, ?_, ?_⟩
    · rw [value_trunc hsign, hvalue, floor_units (tenPow_pos _) hq]
    · rw [value_awayFromZero hsign, hvalue, ceil_units (tenPow_pos _) hq]

/-- A share of a whole amount, cut, is a whole amount and not above it. -/
theorem exists_trunc_share {a share : Decimal} (ha : a.Whole) (ha0 : 0 ≤ a.value)
    (hshare0 : 0 ≤ share.value) (hshare1 : share.value ≤ 1) :
    ∃ d, a.mul? share = some d ∧ d.trunc.value = cut (a.value * share.value) ∧
      0 ≤ d.trunc.value ∧ d.trunc.value ≤ a.value := by
  obtain ⟨d, hd, hcut, -⟩ := exists_mul?_of_share ha ha0 hshare0 hshare1
  obtain ⟨n, hn⟩ := ha
  have hle : a.value * share.value ≤ n := hn ▸ mul_le_of_le_one_right ha0 hshare1
  refine ⟨d, hd, hcut, ?_, ?_⟩
  · rw [hcut]
    exact_mod_cast cut_nonneg (mul_nonneg ha0 hshare0)
  · rw [hcut, hn]
    exact_mod_cast cut_le_of_le (hn ▸ hle)

/-- When the amount times all digits of the share fits, nothing is rounded. -/
theorem exact_share {n : ℕ} {share : Decimal} (hshare : 0 ≤ share.value)
    (hfits : n * share.magnitude < capacity) :
    cut (n * share.value) = ⌊n * share.value⌋ ∧ raised (n * share.value) = ⌈n * share.value⌉ := by
  have hmagnitude : share.value * tenPow share.scale = share.magnitude := by
    rw [← abs_of_nonneg hshare, value, abs_div, abs_of_pos (tenPow_cast_pos _),
      div_mul_cancel₀ _ (tenPow_cast_ne_zero _), ← natAbs_coeff, Nat.cast_natAbs, Int.cast_abs]
  have hdigits : n * share.value * tenPow share.scale = ((n * share.magnitude : ℕ) : ℚ) := by
    rw [mul_assoc, hmagnitude, Nat.cast_mul]
  exact ⟨cut_of_fits share.scale_le hdigits hfits, raised_of_fits share.scale_le hdigits hfits⟩

/-! ## Shares that are not rounded off -/

/-- So many units of the last place that there is. -/
def ofSmallestUnits (n : ℕ) (h : n < capacity) : Decimal := ⟨false, n, 28, h, le_rfl⟩

/-- Any decimal is a whole number of the smallest units. -/
theorem exists_smallestUnits (d : Decimal) : ∃ u : ℤ, d.value * tenPow 28 = u := by
  refine ⟨d.coeff * tenPow (28 - d.scale), ?_⟩
  rw [value, ← Nat.add_sub_cancel' d.scale_le, tenPow_add, Nat.add_sub_cancel_left]
  have hpos := tenPow_cast_ne_zero d.scale
  push_cast
  field_simp

/-- A share below one, however it is rounded, does not come up to the whole amount: what is missing
is more than half a unit of the last place that fits. -/
theorem cut_lt_of_share {n : ℕ} (hn : 0 < n) {share : Decimal} (h : share.value < 1) :
    cut (n * share.value) < n := by
  have hn' : (0 : ℚ) < n := by exact_mod_cast hn
  have hweight := tenPow_cast_pos 28
  have hmissing : (n : ℚ) ≤ (n - n * share.value) * tenPow 28 := by
    obtain ⟨u, hu⟩ := exists_smallestUnits share
    have hbelow : (u : ℚ) < tenPow 28 := hu ▸ mul_lt_of_lt_one_left hweight h
    have hone : (1 : ℚ) ≤ tenPow 28 - u := by
      have hle : u + 1 ≤ tenPow 28 := by exact_mod_cast hbelow
      have hle' : (u : ℚ) + 1 ≤ tenPow 28 := by exact_mod_cast hle
      linarith
    calc (n : ℚ) ≤ n * (tenPow 28 - u) := le_mul_of_one_le_right hn'.le hone
      _ = (n - n * share.value) * tenPow 28 := by rw [← hu]; ring
  have hlt : (n * share.value : ℚ) < n := mul_lt_of_lt_one_right hn' h
  refine lt_of_le_of_ne (cut_le_of_le (by exact_mod_cast hlt.le)) fun heq => ?_
  have hgap := cut_le (n * share.value)
  rw [heq, Int.cast_natCast] at hgap
  have hunits : 2 * (n * tenPow (places (n * share.value))) ≤ (tenPow 28 : ℚ) :=
    calc (2 * (n * tenPow (places (n * share.value))) : ℚ)
        ≤ 2 * ((n - n * share.value) * tenPow 28 * tenPow (places (n * share.value))) := by gcongr
      _ = 2 * (n - n * share.value) * tenPow (places (n * share.value)) * tenPow 28 := by ring
      _ ≤ 1 * tenPow 28 := by gcongr
      _ = tenPow 28 := one_mul _
  rcases (places_le (n * share.value)).lt_or_eq with hplaces | hplaces
  · -- One place more would not fit, so that there are many units.
    have hfull := capacity_le_of_places_lt (Nat.lt_succ_self _) hplaces
    have hcapacity : (5 : ℚ) * tenPow 28 + 1 ≤ capacity := by
      exact_mod_cast (by decide : 5 * tenPow 28 + 1 ≤ capacity)
    have hbelow : n * share.value * tenPow (places (n * share.value)) ≤
        n * tenPow (places (n * share.value)) := by gcongr
    rw [Nat.succ_eq_add_one, tenPow_succ, Nat.cast_mul, ← mul_assoc, Nat.cast_ofNat] at hfull
    have hmore := hcapacity.trans hfull
    linarith
  · have hone : (1 : ℚ) ≤ n := by exact_mod_cast hn
    have hmany := mul_le_mul_of_nonneg_right hone hweight.le
    rw [hplaces] at hunits
    linarith

/-- A positive share of a positive amount counts as a unit at least: below one it has all places, and
so is not rounded off. -/
theorem one_le_raised_of_share {n : ℕ} (hn : 0 < n) {share : Decimal} (h : 0 < share.value) :
    1 ≤ raised (n * share.value) := by
  have hn' : (1 : ℚ) ≤ n := by exact_mod_cast hn
  have hpos : 0 < n * share.value := mul_pos (one_pos.trans_le hn') h
  have hunit : 1 ≤ n * share.value * tenPow 28 := by
    obtain ⟨u, hu⟩ := exists_smallestUnits share
    have hu0 : (0 : ℚ) < u := hu ▸ mul_pos h (tenPow_cast_pos 28)
    have hu1 : (1 : ℚ) ≤ u := by
      have hle : 0 < u := by exact_mod_cast hu0
      exact_mod_cast hle
    calc (1 : ℚ) = 1 * 1 := (one_mul 1).symm
      _ ≤ n * u := mul_le_mul hn' hu1 one_pos.le (one_pos.le.trans hn')
      _ = n * share.value * tenPow 28 := by rw [← hu, mul_assoc]
  rw [raised]
  split
  · next hdown =>
    refine Int.floor_pos.2 (not_lt.1 fun hbelow => ?_)
    have hplaces : places (n * share.value) = 28 := by
      refine le_antisymm (places_le _) (le_places le_rfl ?_)
      have hcapacity : ((tenPow 28 : ℕ) : ℚ) + 1 ≤ capacity := by
        exact_mod_cast (by decide : tenPow 28 + 1 ≤ capacity)
      have hlt := mul_lt_of_lt_one_left (tenPow_cast_pos 28) hbelow
      exact lt_of_lt_of_le (by linarith) hcapacity
    have hgap := hdown.le
    rw [hplaces, Int.floor_eq_zero_iff.2 ⟨hpos.le, hbelow⟩, Int.cast_zero, sub_zero, mul_assoc]
      at hgap
    linarith
  · exact Int.one_le_ceil_iff.2 hpos

end LeaseEscrow.Decimal
