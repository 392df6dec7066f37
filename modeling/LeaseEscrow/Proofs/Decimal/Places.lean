import LeaseEscrow.Proofs.Decimal.Quotient
import Mathlib.Algebra.Ring.Int.Parity
import Mathlib.Data.Nat.Find
import Mathlib.Data.Rat.Floor

/-!
# Places

A number that is not negative is kept at as many places as fit into a decimal (`places`), rounded
to the nearest there. Taken to a whole number afterwards, it may have been carried up to the whole
number above it or down to the one below (`RoundsUp`, `RoundsDown`). So what is cut off it leaves
the floor or one more (`cut`), and what it is counted up to is the ceiling or one less (`raised`).
Both are exact when all digits fit (`cut_of_fits`, `raised_of_fits`), and at any rate they are off by
at most half a unit of the last place.
-/

namespace LeaseEscrow.Decimal

/-! ## Rounding to a place -/

/-- Rounding reaches a number that is less than a half away, or just a half and even. -/
theorem le_roundHalfEven_iff {num den : ℕ} (hden : 0 < den) (k : ℕ) :
    k ≤ roundHalfEven num den ↔
      2 * (k * den) < 2 * num + den ∨ 2 * (k * den) = 2 * num + den ∧ Even k := by
  have hnum := Nat.div_add_mod' num den
  have hrest := Nat.mod_lt num hden
  have hround : num / den ≤ roundHalfEven num den ∧ roundHalfEven num den ≤ num / den + 1 := by
    simp only [roundHalfEven]
    split <;> omega
  rcases Nat.lt_trichotomy k (num / den + 1) with hlt | rfl | hgt
  · have hmul : k * den ≤ num / den * den := Nat.mul_le_mul_right den (Nat.le_of_lt_succ hlt)
    exact iff_of_true (by omega) (.inl (by omega))
  · have hmul : (num / den + 1) * den = num / den * den + den := Nat.succ_mul ..
    have heven : Even (num / den + 1) ↔ num / den % 2 = 1 := by
      rw [Nat.even_add_one, Nat.not_even_iff]
    rw [hmul, heven, roundHalfEven]
    split <;> omega
  · have hmul : (num / den + 2) * den ≤ k * den := Nat.mul_le_mul_right den hgt
    have hsucc : (num / den + 2) * den = num / den * den + 2 * den := Nat.add_mul ..
    exact iff_of_false (by omega) (by omega)

/-- At a scale, the units of a quotient are rounded to the nearest, a half to the even one. -/
theorem le_units_iff {num den : ℕ} (hden : 0 < den) {q : ℚ} (hq : q = num / den) (scale k : ℕ) :
    k ≤ roundHalfEven (num * tenPow scale) den ↔
      2 * (k - q * tenPow scale) < 1 ∨ 2 * (k - q * tenPow scale) = 1 ∧ Even k := by
  have hden' : (0 : ℚ) < den := Nat.cast_pos.2 hden
  have hlt : ∀ x : ℚ, x < 1 ↔ x * den < den := fun x => by
    rw [← mul_lt_mul_iff_left₀ hden', one_mul]
  have heq : ∀ x : ℚ, x = 1 ↔ x * den = den := fun x => (mul_eq_right₀ hden'.ne').symm
  have hgap : 2 * (k - q * tenPow scale) * den = 2 * (k * den) - 2 * (num * tenPow scale) := by
    rw [hq]
    field_simp
  rw [le_roundHalfEven_iff hden, hlt, heq, hgap, sub_lt_iff_lt_add', sub_eq_iff_eq_add']
  exact_mod_cast Iff.rfl

/-! ## Places -/

/-- The places, up to 28, that a decimal has for `q`: with so many of them, and rounded to the
nearest, it is still within capacity. -/
def places (q : ℚ) : ℕ := Nat.findGreatest (fun s => q * tenPow s + 1 / 2 < capacity) 28

theorem places_le (q : ℚ) : places q ≤ 28 := Nat.findGreatest_le 28

theorem le_places {q : ℚ} {s : ℕ} (hs : s ≤ 28) (h : q * tenPow s + 1 / 2 < capacity) :
    s ≤ places q := Nat.le_findGreatest hs h

theorem fits_places {q : ℚ} {s : ℕ} (hs : s ≤ 28) (h : q * tenPow s + 1 / 2 < capacity) :
    q * tenPow (places q) + 1 / 2 < capacity :=
  Nat.findGreatest_spec (P := fun s => q * tenPow s + 1 / 2 < capacity) hs h

/-- With one place more it would not fit. -/
theorem capacity_le_of_places_lt {q : ℚ} {s : ℕ} (hlt : places q < s) (hs : s ≤ 28) :
    (capacity : ℚ) ≤ q * tenPow s + 1 / 2 := not_lt.1 (Nat.findGreatest_is_greatest hlt hs)

/-- The units at a scale are within capacity just when the scale is one of the places. -/
theorem units_lt_capacity_iff {num den : ℕ} (hden : 0 < den) {q : ℚ} (hq : q = num / den)
    (scale : ℕ) :
    roundHalfEven (num * tenPow scale) den < capacity ↔
      q * tenPow scale + 1 / 2 < (capacity : ℚ) := by
  have heven : Even capacity := by decide
  have hhalf : ∀ c x : ℚ, 2 * (c - x) ≤ 1 ↔ c ≤ x + 1 / 2 := fun c x => by
    constructor <;> intro h <;> linarith
  rw [← not_le, ← not_le, le_units_iff hden hq, and_iff_left heven, ← le_iff_lt_or_eq, hhalf]

/-- More places than a quotient needs do not change it. -/
theorem units_of_exact {num den : ℕ} (hden : 0 < den) {q : ℚ} (hq : q = num / den) {t scale : ℕ}
    (hexact : den ∣ num * tenPow t) (hle : t ≤ scale) :
    (roundHalfEven (num * tenPow scale) den : ℚ) / tenPow scale = q := by
  obtain ⟨n, hn⟩ : den ∣ num * tenPow scale := by
    rw [← Nat.add_sub_cancel' hle, tenPow_add, ← Nat.mul_assoc]
    exact hexact.mul_right _
  have hden' : (den : ℚ) ≠ 0 := Nat.cast_ne_zero.2 hden.ne'
  have hvalue : (num : ℚ) * tenPow scale = n * den := by
    rw [Nat.mul_comm den] at hn
    exact_mod_cast hn
  rw [hn, Nat.mul_comm den, roundHalfEven_mul_right hden, hq, div_eq_div_iff (tenPow_cast_ne_zero _) hden',
    hvalue]

theorem fit?_of_le {scale : ℕ} (h : 28 ≤ scale) (num : ℤ) (den : ℕ) :
    fit? num den scale = fit? num den 28 := by
  induction scale, h using Nat.le_induction with
  | base => rfl
  | succ scale h ih =>
    have hnone : ofParts? (coeffAt num den (scale + 1)) (scale + 1) = none :=
      dif_neg fun hfits => by omega
    rw [fit?, hnone]
    exact ih

/-- A quotient that has at most `t` places, and may keep them, is kept at all places that it has. -/
theorem value_of_fit?_places {num den : ℕ} (hden : 0 < den) {q : ℚ} (hq : q = num / den)
    {t start : ℕ} (ht : t ≤ 28) (hstart : t ≤ start) (hexact : den ∣ num * tenPow t) {d : Decimal}
    (h : fit? num den start = some d) :
    d.value = (roundHalfEven (num * tenPow (places q)) den : ℚ) / tenPow (places q) := by
  obtain ⟨top, hle28, htop, hfit⟩ : ∃ top ≤ 28, t ≤ top ∧ fit? num den top = some d := by
    rcases Nat.le_total start 28 with hle | hle
    · exact ⟨start, hle, hstart, h⟩
    · exact ⟨28, le_rfl, ht, fit?_of_le hle num den ▸ h⟩
  obtain ⟨hscale, hcoeff, hlarge⟩ := scale_of_fit? hden hle28 hfit
  have hvalue : d.value = (roundHalfEven (num * tenPow d.scale) den : ℚ) / tenPow d.scale := by
    rw [value, hcoeff, Int.cast_natCast]
  have hmagnitude : roundHalfEven (num * tenPow d.scale) den < capacity := by
    have hlt := d.magnitude_lt
    rwa [← natAbs_coeff, hcoeff, Int.natAbs_natCast] at hlt
  have hplaces : d.scale ≤ places q :=
    le_places d.scale_le ((units_lt_capacity_iff hden hq _).1 hmagnitude)
  rcases hscale.lt_or_eq with hlt | heq
  · -- The scale is the largest one that fits, and so it is the places.
    have hnext := hlarge hlt
    have heq : places q = d.scale := by
      refine (hplaces.lt_or_eq.resolve_left fun hmore => ?_).symm
      have hq0 : 0 ≤ q := hq ▸ div_nonneg (Nat.cast_nonneg _) (Nat.cast_nonneg _)
      have hweight : (tenPow (d.scale + 1) : ℚ) ≤ tenPow (places q) := by
        exact_mod_cast Nat.pow_le_pow_right (by decide) hmore
      have hfits := fits_places d.scale_le ((units_lt_capacity_iff hden hq _).1 hmagnitude)
      have hsmaller := mul_le_mul_of_nonneg_left hweight hq0
      have hbelow := (units_lt_capacity_iff hden hq (d.scale + 1)).2 (by linarith)
      exact absurd hbelow (not_lt.2 hnext)
    rw [hvalue, heq]
  · rw [hvalue, units_of_exact hden hq hexact (heq ▸ htop),
      units_of_exact hden hq hexact ((heq ▸ htop).trans hplaces)]

/-! ## What fits at all -/

def greatest : Decimal := .ofNat (capacity - 1) (by decide)

/-- A quotient is kept just when it is within capacity without places. -/
theorem exists_fit?_iff {num den : ℕ} (hden : 0 < den) {q : ℚ} (hq : q = num / den) {scale : ℕ}
    (hscale : scale ≤ 28) : (∃ d, fit? num den scale = some d) ↔ q + 1 / 2 < capacity := by
  have hunits : roundHalfEven (num * tenPow 0) den < capacity ↔ q + 1 / 2 < (capacity : ℚ) := by
    rw [units_lt_capacity_iff hden hq, tenPow_zero, Nat.cast_one, mul_one]
  constructor
  · rintro ⟨d, hfit⟩
    obtain ⟨-, hcoeff, -⟩ := scale_of_fit? hden hscale hfit
    have hmagnitude : roundHalfEven (num * tenPow d.scale) den < capacity := by
      have hlt := d.magnitude_lt
      rwa [← natAbs_coeff, hcoeff, Int.natAbs_natCast] at hlt
    have hq0 : 0 ≤ q := hq ▸ div_nonneg (Nat.cast_nonneg _) (Nat.cast_nonneg _)
    have hone : (1 : ℚ) ≤ tenPow d.scale := by exact_mod_cast tenPow_pos d.scale
    have hle := le_mul_of_one_le_right hq0 hone
    exact lt_of_le_of_lt (by linarith) ((units_lt_capacity_iff hden hq d.scale).1 hmagnitude)
  · intro h
    have hlt := hunits.2 h
    have hcoeff := coeffAt_natCast hden num 0
    have hfits : (coeffAt num den 0).natAbs < capacity := by rwa [hcoeff, Int.natAbs_natCast]
    exact isSome_fit?_of_ofParts? (d := ⟨_, _, 0, hfits, zero_le_scale⟩)
      (ofSigned?_eq_some.2 ⟨rfl, rfl, rfl⟩) scale

theorem value_add_half_lt (d : Decimal) : d.value + 1 / 2 < capacity := by
  have hone : (1 : ℚ) ≤ tenPow d.scale := by exact_mod_cast tenPow_pos d.scale
  have hle : d.value ≤ d.magnitude := by
    have hcoeff : d.coeff ≤ d.magnitude := natAbs_coeff d ▸ Int.le_natAbs
    have hcast : (d.coeff : ℚ) ≤ d.magnitude := by exact_mod_cast hcoeff
    rw [value, div_le_iff₀ (tenPow_cast_pos _)]
    exact hcast.trans (le_mul_of_one_le_right (Nat.cast_nonneg _) hone)
  have hlt : (d.magnitude : ℚ) + 1 ≤ capacity := by exact_mod_cast d.magnitude_lt
  exact lt_of_lt_of_le (by linarith) hlt

/-- Amounts that are not negative have a sum just when it is within capacity without places. -/
theorem exists_add?_iff {a b : Decimal} (ha : 0 ≤ a.value) (hb : 0 ≤ b.value) :
    (∃ d, a.add? b = some d) ↔ a.value + b.value + 1 / 2 < capacity := by
  rcases ha.eq_or_lt with hzero | ha
  · rw [add?, if_pos (isZero_iff.2 hzero.symm), ← hzero, zero_add]
    exact iff_of_true ⟨b, rfl⟩ b.value_add_half_lt
  rcases hb.eq_or_lt with hzero | hb
  · rw [add?, if_neg fun h => ha.ne' (isZero_iff.1 h), if_pos (isZero_iff.2 hzero.symm), ← hzero,
      add_zero]
    exact iff_of_true ⟨a, rfl⟩ a.value_add_half_lt
  obtain ⟨total, hvalue, hadd⟩ := add?_of_pos ha hb
  rw [hadd]
  exact exists_fit?_iff (tenPow_pos _) hvalue.symm (Nat.max_le.2 ⟨a.scale_le, b.scale_le⟩)

/-! ## Whole numbers nearby -/

/-- With its places, `q` is rounded up to the whole number above it: less than half a unit is
missing, or half a unit and the whole number is an even number of units. -/
def RoundsUp (q : ℚ) : Prop :=
  2 * (⌊q⌋ + 1 - q) * tenPow (places q) < 1 ∨
    2 * (⌊q⌋ + 1 - q) * tenPow (places q) = 1 ∧ (places q = 0 → Odd ⌊q⌋)

/-- With its places, `q` is rounded down to the whole number below it. -/
def RoundsDown (q : ℚ) : Prop :=
  2 * (q - ⌊q⌋) * tenPow (places q) < 1 ∨
    2 * (q - ⌊q⌋) * tenPow (places q) = 1 ∧ (places q = 0 → Even ⌊q⌋)

instance (q : ℚ) : Decidable (RoundsUp q) :=
  inferInstanceAs (Decidable (_ ∨ _ ∧ (_ → _)))

instance (q : ℚ) : Decidable (RoundsDown q) :=
  inferInstanceAs (Decidable (_ ∨ _ ∧ (_ → _)))

theorem RoundsUp.le {q : ℚ} (h : RoundsUp q) : 2 * (⌊q⌋ + 1 - q) * tenPow (places q) ≤ 1 :=
  h.elim le_of_lt fun h => h.1.le

theorem RoundsDown.le {q : ℚ} (h : RoundsDown q) : 2 * (q - ⌊q⌋) * tenPow (places q) ≤ 1 :=
  h.elim le_of_lt fun h => h.1.le

/-- The whole part of `q` once it is rounded to its places. -/
def cut (q : ℚ) : ℤ := if RoundsUp q then ⌊q⌋ + 1 else ⌊q⌋

/-- The whole number that `q` is counted up to once it is rounded to its places. -/
def raised (q : ℚ) : ℤ := if RoundsDown q then ⌊q⌋ else ⌈q⌉

theorem even_mul_tenPow {n s : ℕ} : Even (n * tenPow s) ↔ (s = 0 → Even n) := by
  rcases Nat.eq_zero_or_pos s with rfl | hpos
  · simp [tenPow_zero]
  · have hten : Even (tenPow s) := (Nat.even_pow' hpos.ne').2 (by decide)
    exact iff_of_true (hten.mul_left n) fun h => absurd h hpos.ne'

section

variable {num den : ℕ} {q : ℚ}

/-- The whole numbers next to a quotient bound its units. -/
theorem units_bounds (hden : 0 < den) (hq : q = num / den) {w : ℕ} (hw : ⌊q⌋ = w) (s : ℕ) :
    w * tenPow s ≤ roundHalfEven (num * tenPow s) den ∧
      roundHalfEven (num * tenPow s) den ≤ (w + 1) * tenPow s := by
  obtain ⟨hle, hlt⟩ := Int.floor_eq_iff.1 hw
  rw [Int.cast_natCast] at hle hlt
  have hpos := tenPow_cast_pos s
  have hbelow := mul_le_mul_of_nonneg_right hle hpos.le
  have habove := mul_le_mul_of_nonneg_right hlt.le hpos.le
  constructor
  · rw [le_units_iff hden hq]
    push_cast
    exact .inl (by linarith)
  · by_contra hmore
    rw [not_le, ← Nat.succ_le_iff, le_units_iff hden hq] at hmore
    push_cast at hmore
    rcases hmore with h | ⟨h, -⟩ <;> linarith

theorem floor_units (hden : 0 < den) (hq : q = num / den) :
    ⌊(roundHalfEven (num * tenPow (places q)) den : ℚ) / tenPow (places q)⌋ = cut q := by
  have hq0 : 0 ≤ q := hq ▸ div_nonneg (Nat.cast_nonneg _) (Nat.cast_nonneg _)
  obtain ⟨w, hw⟩ := Int.eq_ofNat_of_zero_le (Int.floor_nonneg.2 hq0)
  obtain ⟨hbelow, habove⟩ := units_bounds hden hq hw (places q)
  have hpos := tenPow_pos (places q)
  have hfloor : ⌊(roundHalfEven (num * tenPow (places q)) den : ℚ) / tenPow (places q)⌋ =
      ((roundHalfEven (num * tenPow (places q)) den / tenPow (places q) : ℕ) : ℤ) :=
    Rat.floor_natCast_div_natCast ..
  have hup : (w + 1) * tenPow (places q) ≤ roundHalfEven (num * tenPow (places q)) den ↔
      RoundsUp q := by
    have hgap : 2 * ((((w + 1) * tenPow (places q) : ℕ) : ℚ) - q * tenPow (places q)) =
        2 * (⌊q⌋ + 1 - q) * tenPow (places q) := by
      rw [hw]
      push_cast
      ring
    have heven : Even ((w + 1) * tenPow (places q)) ↔ (places q = 0 → Odd ⌊q⌋) := by
      rw [hw, even_mul_tenPow, Int.odd_coe_nat, Nat.even_add_one, Nat.not_even_iff_odd]
    rw [le_units_iff hden hq, hgap, heven, RoundsUp]
  rw [hfloor, cut, hw]
  split
  · next h =>
    have heq := Nat.le_antisymm habove (hup.2 h)
    rw [heq, Nat.mul_div_cancel _ hpos]
    rfl
  · next h =>
    have hlt := not_le.1 fun hle => h (hup.1 hle)
    rw [Nat.div_eq_of_lt_le hbelow hlt]

theorem ceil_units (hden : 0 < den) (hq : q = num / den) :
    ⌈(roundHalfEven (num * tenPow (places q)) den : ℚ) / tenPow (places q)⌉ = raised q := by
  have hq0 : 0 ≤ q := hq ▸ div_nonneg (Nat.cast_nonneg _) (Nat.cast_nonneg _)
  obtain ⟨w, hw⟩ := Int.eq_ofNat_of_zero_le (Int.floor_nonneg.2 hq0)
  obtain ⟨hbelow, habove⟩ := units_bounds hden hq hw (places q)
  have hpos := tenPow_cast_pos (places q)
  have hdown : roundHalfEven (num * tenPow (places q)) den ≤ w * tenPow (places q) ↔
      RoundsDown q := by
    have hgap : 2 * (((w * tenPow (places q) + 1 : ℕ) : ℚ) - q * tenPow (places q)) =
        2 - 2 * (q - ⌊q⌋) * tenPow (places q) := by
      rw [hw]
      push_cast
      ring
    have heven : Even (w * tenPow (places q) + 1) ↔ ¬ (places q = 0 → Even ⌊q⌋) := by
      rw [hw, Nat.even_add_one, even_mul_tenPow, Int.even_coe_nat]
    rw [← not_lt, ← Nat.succ_le_iff, le_units_iff hden hq, hgap, heven, RoundsDown]
    rcases lt_trichotomy (2 * (q - ⌊q⌋) * tenPow (places q)) 1 with h | h | h
    · exact iff_of_true (by rintro (hlt | ⟨heq, -⟩) <;> linarith) (.inl h)
    · rw [h]
      norm_num
    · exact iff_of_false (not_not.2 (.inl (by linarith))) (by rintro (hlt | ⟨heq, -⟩) <;> linarith)
  obtain ⟨hle, hlt⟩ := Int.floor_eq_iff.1 hw
  rw [Int.cast_natCast] at hle hlt
  rw [raised, hw]
  split
  · next h =>
    have heq := Nat.le_antisymm (hdown.2 h) hbelow
    rw [heq, Nat.cast_mul, mul_div_cancel_right₀ _ hpos.ne']
    exact Int.ceil_natCast w
  · next h =>
    have hmore := not_le.1 fun hle => h (hdown.1 hle)
    have hpart : (w : ℚ) < q := by
      refine hle.lt_of_ne fun heq => h (.inl ?_)
      rw [hw, Int.cast_natCast, heq, sub_self, mul_zero, zero_mul]
      exact one_pos
    have hceil : ⌈q⌉ = (w : ℤ) + 1 := by
      rw [Int.ceil_eq_iff]
      push_cast
      constructor <;> linarith
    rw [hceil, Int.ceil_eq_iff, lt_div_iff₀ hpos, div_le_iff₀ hpos]
    push_cast
    rw [add_sub_cancel_right]
    exact ⟨by exact_mod_cast hmore, by exact_mod_cast habove⟩

end

/-- What fits with all its digits keeps them. -/
theorem exists_units_of_fits {q : ℚ} {t n : ℕ} (ht : t ≤ 28) (hq : q * tenPow t = n)
    (hn : n < capacity) : ∃ m : ℕ, q * tenPow (places q) = m := by
  have hfits : q * tenPow t + 1 / 2 < (capacity : ℚ) := by
    have hle : (n : ℚ) + 1 ≤ capacity := by exact_mod_cast hn
    rw [hq]
    exact lt_of_lt_of_le (by linarith) hle
  refine ⟨n * tenPow (places q - t), ?_⟩
  rw [← Nat.add_sub_cancel' (le_places ht hfits), tenPow_add, Nat.add_sub_cancel_left]
  push_cast
  rw [← mul_assoc, hq]

/-- Then cutting it gives the floor. -/
theorem cut_of_fits {q : ℚ} {t n : ℕ} (ht : t ≤ 28) (hq : q * tenPow t = n) (hn : n < capacity) :
    cut q = ⌊q⌋ := by
  obtain ⟨m, hm⟩ := exists_units_of_fits ht hq hn
  have hmissing : 1 ≤ (⌊q⌋ + 1) * (tenPow (places q) : ℤ) - m := by
    have hpos : (0 : ℚ) < (⌊q⌋ + 1) * tenPow (places q) - m := by
      rw [← hm, ← sub_mul]
      exact mul_pos (sub_pos.2 (Int.lt_floor_add_one q)) (tenPow_cast_pos _)
    have hpos' : 0 < (⌊q⌋ + 1) * (tenPow (places q) : ℤ) - m := by exact_mod_cast hpos
    omega
  have hgap : 2 ≤ 2 * (⌊q⌋ + 1 - q) * tenPow (places q) := by
    have hmissing' : (1 : ℚ) ≤ (⌊q⌋ + 1) * tenPow (places q) - m := by exact_mod_cast hmissing
    rw [mul_assoc, sub_mul, hm]
    linarith
  rw [cut, if_neg fun h => ?_]
  linarith [h.le]

/-- Then counting it up gives the ceiling. -/
theorem raised_of_fits {q : ℚ} {t n : ℕ} (ht : t ≤ 28) (hq : q * tenPow t = n)
    (hn : n < capacity) : raised q = ⌈q⌉ := by
  obtain ⟨m, hm⟩ := exists_units_of_fits ht hq hn
  rw [raised]
  split
  · next h =>
    -- What is rounded off is a whole number of units and at most half of one.
    have hgap : 2 * (q - ⌊q⌋) * tenPow (places q) = ((2 * (m - ⌊q⌋ * tenPow (places q)) : ℤ) : ℚ) := by
      push_cast
      rw [← hm]
      ring
    have hrest : (m : ℤ) - ⌊q⌋ * tenPow (places q) = 0 := by
      have hnonneg : (0 : ℚ) ≤ 2 * (q - ⌊q⌋) * tenPow (places q) :=
        mul_nonneg (mul_nonneg two_pos.le (sub_nonneg.2 (Int.floor_le q))) (tenPow_cast_pos _).le
      have hle := h.le
      rw [hgap] at hnonneg hle
      have hnonneg' : 0 ≤ 2 * ((m : ℤ) - ⌊q⌋ * tenPow (places q)) := by exact_mod_cast hnonneg
      have hle' : 2 * ((m : ℤ) - ⌊q⌋ * tenPow (places q)) ≤ 1 := by exact_mod_cast hle
      omega
    have hwhole : q = ⌊q⌋ := by
      refine mul_right_cancel₀ (tenPow_cast_ne_zero (places q)) ?_
      rw [hm]
      exact_mod_cast sub_eq_zero.1 hrest
    rw [hwhole, Int.ceil_intCast, Int.floor_intCast]
  · rfl

/-- Rounding up adds no more than half a unit of the last place. -/
theorem cut_le (q : ℚ) : 2 * (cut q - q) * tenPow (places q) ≤ 1 := by
  rw [cut]
  split
  · next h =>
    push_cast
    exact h.le
  · have hbelow : 2 * (⌊q⌋ - q) * tenPow (places q) ≤ 0 :=
      mul_nonpos_of_nonpos_of_nonneg (by linarith [Int.floor_le q]) (tenPow_cast_pos _).le
    linarith

theorem le_raised (q : ℚ) : 2 * (q - raised q) * tenPow (places q) ≤ 1 := by
  rw [raised]
  split
  · next h => exact h.le
  · have hbelow : 2 * (q - ⌈q⌉) * tenPow (places q) ≤ 0 :=
      mul_nonpos_of_nonpos_of_nonneg (by linarith [Int.le_ceil q]) (tenPow_cast_pos _).le
    linarith

theorem cut_nonneg {q : ℚ} (h : 0 ≤ q) : 0 ≤ cut q := by
  have hfloor := Int.floor_nonneg.2 h
  rw [cut]
  split <;> omega

/-- Cutting does not go beyond a whole number that is not below. -/
theorem cut_le_of_le {q : ℚ} {n : ℤ} (h : q ≤ n) : cut q ≤ n := by
  rcases h.lt_or_eq with hlt | rfl
  · have hfloor := Int.floor_lt.2 hlt
    rw [cut]
    split <;> omega
  · have hgap := cut_le (n : ℚ)
    have hweight : (1 : ℚ) ≤ tenPow (places n) := by exact_mod_cast tenPow_pos _
    rw [cut, Int.floor_intCast] at hgap ⊢
    split at hgap
    · push_cast at hgap
      linarith
    · next hnot => rw [if_neg hnot]

theorem raised_le_of_le {q : ℚ} {n : ℤ} (h : q ≤ n) : raised q ≤ n := by
  rw [raised]
  split
  · exact (Int.floor_le_ceil q).trans (Int.ceil_le.2 h)
  · exact Int.ceil_le.2 h

end LeaseEscrow.Decimal
