import LeaseEscrow.Coin
import LeaseEscrow.Proofs.Decimal.Exact
import LeaseEscrow.Proofs.Outcome
import Mathlib.Algebra.BigOperators.Group.List.Basic

/-!
# The value of coins

A valid coin is a whole amount, not below zero, of a well-formed denomination. Within one
denomination the arithmetic of valid coins is that of their values.
-/

namespace LeaseEscrow.Coin

def value (c : Coin) : ℚ := c.amount.value

structure Valid (c : Coin) : Prop where
  denom : isDenom c.denom = true
  nonneg : 0 ≤ c.value
  whole : c.amount.Whole

theorem validate_eq_ok {c : Coin} : c.validate = .ok () ↔ c.Valid := by
  rw [validate, check_bind_eq_ok, check_bind_eq_ok, validateDenom, require_eq_ok, require_eq_ok,
    require_eq_ok, Bool.not_eq_true', ← Bool.not_eq_true, Decimal.isNegative_iff, not_lt,
    Decimal.isWhole_iff]
  exact ⟨fun ⟨hdenom, hnonneg, hwhole⟩ => ⟨hdenom, hnonneg, hwhole⟩,
    fun h => ⟨h.denom, h.nonneg, h.whole⟩⟩

theorem validatePositive_eq_ok {c : Coin} : c.validatePositive = .ok () ↔ c.Valid ∧ 0 < c.value := by
  rw [validatePositive, check_bind_eq_ok, validate_eq_ok, require_eq_ok, isPositive,
    Decimal.isPositive_iff]
  rfl

theorem expectDenom_eq_ok {c : Coin} {denom : String} :
    c.expectDenom denom = .ok () ↔ c.denom = denom := require_eq_ok

theorem isZero_iff {c : Coin} : c.isZero = true ↔ c.value = 0 := Decimal.isZero_iff

theorem equiv_iff {a b : Coin} : a ≈ b ↔ a.denom = b.denom ∧ a.value = b.value :=
  and_congr_right fun _ => Decimal.equiv_iff_value

theorem exists_natCast {c : Coin} (hwhole : c.amount.Whole) (hnonneg : 0 ≤ c.value) :
    ∃ n : ℕ, c.value = n := Decimal.exists_natCast hwhole hnonneg

theorem value_plain (c : Coin) : c.plain.value = c.value := Decimal.value_plain _

/-- Only a zero carries a sign that is not plain. -/
theorem plain_of_value_ne_zero {c : Coin} (h : c.value ≠ 0) : c.plain = c := by
  have hamount : c.amount.plain = c.amount :=
    Decimal.plain_of_not_isZero (Bool.eq_false_iff.2 fun hz => h (Decimal.isZero_iff.1 hz))
  rw [plain, hamount]

theorem valid_plain {c : Coin} : c.plain.Valid ↔ c.Valid := by
  constructor
  · rintro ⟨hdenom, hnonneg, n, hn⟩
    exact ⟨hdenom, value_plain c ▸ hnonneg, n, (Decimal.value_plain _).symm.trans hn⟩
  · rintro ⟨hdenom, hnonneg, n, hn⟩
    exact ⟨hdenom, (value_plain c).symm ▸ hnonneg, n, (Decimal.value_plain _).trans hn⟩

theorem value_zero (denom : String) : (zero denom).value = 0 := Decimal.value_zero

/-! ## Arithmetic -/

theorem add_eq_ok {a b c : Coin} :
    a.add b = .ok c ↔
      b.denom = a.denom ∧ c.denom = a.denom ∧ a.amount.add? b.amount = some c.amount := by
  rw [add, check_bind_eq_ok, expectDenom_eq_ok]
  refine and_congr_right fun _ => ?_
  obtain ⟨denom, amount⟩ := c
  cases a.amount.add? b.amount with
  | none => simp [throw_eq_ok]
  | some sum =>
    rw [pure_eq_ok]
    simp [eq_comm]

theorem value_add {a b c : Coin} (ha : a.amount.Whole) (hb : b.amount.Whole)
    (h : a.add b = .ok c) : c.value = a.value + b.value :=
  Decimal.value_add? ha hb (add_eq_ok.1 h).2.2

theorem whole_add {a b c : Coin} (ha : a.amount.Whole) (hb : b.amount.Whole)
    (h : a.add b = .ok c) : c.amount.Whole :=
  Decimal.whole_add? ha hb (add_eq_ok.1 h).2.2

/-- Valid coins of one denomination have a sum exactly within capacity. -/
theorem exists_add_iff {a b : Coin} (ha : a.Valid) (hb : b.Valid) (hdenom : b.denom = a.denom) :
    (∃ c, a.add b = .ok c) ↔ a.value + b.value < Decimal.capacity := by
  obtain ⟨m, hm⟩ := ha.whole
  obtain ⟨n, hn⟩ := hb.whole
  have hm0 : 0 ≤ a.amount.value := ha.nonneg
  have hn0 : 0 ≤ b.amount.value := hb.nonneg
  have hsum : a.value + b.value = ((m + n : ℤ) : ℚ) := by rw [value, value, hm, hn, Int.cast_add]
  have hcapacity : a.value + b.value < Decimal.capacity ↔ m + n < (Decimal.capacity : ℤ) := by
    rw [hsum]
    exact_mod_cast Iff.rfl
  rw [hm, Int.cast_nonneg_iff] at hm0
  rw [hn, Int.cast_nonneg_iff] at hn0
  rw [hcapacity]
  constructor
  · rintro ⟨c, hadd⟩
    have hc : c.amount.value = ((m + n : ℤ) : ℚ) :=
      (value_add ha.whole hb.whole hadd).trans hsum
    have hlt := Decimal.natAbs_lt_of_value hc
    omega
  · intro hlt
    obtain ⟨d, hd⟩ := Decimal.isSome_add? hm hn (by omega)
    exact ⟨⟨a.denom, d⟩, add_eq_ok.2 ⟨hdenom, rfl, hd⟩⟩

theorem times_eq_ok {c d : Coin} {n : UInt64} :
    c.times n = .ok d ↔ d.denom = c.denom ∧ c.amount.mul? (.ofUInt64 n) = some d.amount := by
  rw [times]
  obtain ⟨denom, amount⟩ := d
  cases c.amount.mul? (.ofUInt64 n) with
  | none => simp
  | some product => simp [eq_comm]

theorem whole_ofUInt64 (n : UInt64) : (Decimal.ofUInt64 n).Whole := Decimal.whole_of_scale_zero rfl

theorem value_times {c d : Coin} {n : UInt64} (hc : c.amount.Whole) (h : c.times n = .ok d) :
    d.value = c.value * n.toNat := by
  have hvalue := Decimal.value_mul? hc (whole_ofUInt64 n) (times_eq_ok.1 h).2
  rwa [Decimal.value_ofUInt64] at hvalue

theorem whole_times {c d : Coin} {n : UInt64} (hc : c.amount.Whole) (h : c.times n = .ok d) :
    d.amount.Whole :=
  Decimal.whole_mul? hc (whole_ofUInt64 n) (times_eq_ok.1 h).2

/-- A whole price times hours is a coin when another whole amount has that value. -/
theorem exists_times {c : Coin} {n : UInt64} (hc : c.amount.Whole) {total : Decimal}
    (h : total.value = c.value * n.toNat) : ∃ d, c.times n = .ok d := by
  obtain ⟨m, hm⟩ := hc
  have hn : (Decimal.ofUInt64 n).value = ((n.toNat : ℤ) : ℚ) := Decimal.value_ofUInt64 n
  have htotal : total.value = ((m * n.toNat : ℤ) : ℚ) := by
    rw [h, value, hm]
    push_cast
    rfl
  obtain ⟨d, hd⟩ := Decimal.isSome_mul? hm hn (Decimal.natAbs_lt_of_value htotal)
  exact ⟨⟨c.denom, d⟩, times_eq_ok.2 ⟨rfl, hd⟩⟩

/-- A valid price times hours is a coin when it is not above another whole amount. -/
theorem exists_times_of_le {c : Coin} {n : UInt64} (hc : c.Valid) {total : Decimal}
    (htotal : total.Whole) (h : c.value * n.toNat ≤ total.value) : ∃ d, c.times n = .ok d := by
  obtain ⟨m, hm⟩ := hc.whole
  obtain ⟨t, ht⟩ := htotal
  have hn : (Decimal.ofUInt64 n).value = ((n.toNat : ℤ) : ℚ) := Decimal.value_ofUInt64 n
  have hnonneg : 0 ≤ m := by
    have h0 : 0 ≤ c.amount.value := hc.nonneg
    rw [hm] at h0
    exact_mod_cast h0
  have hle : m * n.toNat ≤ t := by
    rw [value, hm, ht] at h
    exact_mod_cast h
  have hproduct : 0 ≤ m * n.toNat := mul_nonneg hnonneg (Int.natCast_nonneg _)
  have hlt := Decimal.natAbs_lt_of_value ht
  obtain ⟨d, hd⟩ := Decimal.isSome_mul? hm hn (by omega)
  exact ⟨⟨c.denom, d⟩, times_eq_ok.2 ⟨rfl, hd⟩⟩

/-- An amount is the price of so many hours when it has its denomination and value; the price need
not be asked to be in range. -/
theorem exists_times_equiv_iff {c amount : Coin} {n : UInt64} (hc : c.amount.Whole) :
    (∃ cost, c.times n = .ok cost ∧ amount ≈ cost) ↔
      amount.denom = c.denom ∧ amount.value = c.value * n.toNat := by
  constructor
  · rintro ⟨cost, htimes, h⟩
    rw [equiv_iff, (times_eq_ok.1 htimes).1, value_times hc htimes] at h
    exact h
  · rintro ⟨hdenom, hvalue⟩
    obtain ⟨cost, htimes⟩ := exists_times hc hvalue
    refine ⟨cost, htimes, ?_⟩
    rw [equiv_iff, (times_eq_ok.1 htimes).1, value_times hc htimes]
    exact ⟨hdenom, hvalue⟩

theorem costs_iff {c total : Coin} {n : UInt64} (hc : c.amount.Whole) :
    c.costs n total = true ↔ c.denom = total.denom ∧ total.value = c.value * n.toNat := by
  rw [costs]
  constructor
  · intro h
    cases htimes : c.times n with
    | error e => rw [htimes] at h; cases h
    | ok cost =>
      rw [htimes, decide_eq_true_eq, equiv_iff] at h
      rw [← (times_eq_ok.1 htimes).1, ← value_times hc htimes]
      exact ⟨h.1, h.2.symm⟩
  · rintro ⟨hdenom, hvalue⟩
    obtain ⟨cost, htimes⟩ := exists_times hc hvalue
    rw [htimes, decide_eq_true_eq, equiv_iff, (times_eq_ok.1 htimes).1, value_times hc htimes]
    exact ⟨hdenom, hvalue.symm⟩

/-! ## Values by denomination -/

/-- What a coin is worth in one denomination. -/
def valueIn (c : Coin) (denom : String) : ℚ := if c.denom = denom then c.value else 0

theorem valueIn_of_value_eq_zero {c : Coin} (h : c.value = 0) (denom : String) :
    c.valueIn denom = 0 := by
  rw [valueIn, h, ite_self]

theorem valueIn_congr {a b : Coin} (h : a ≈ b) (denom : String) :
    a.valueIn denom = b.valueIn denom := by
  obtain ⟨hdenom, hvalue⟩ := equiv_iff.1 h
  rw [valueIn, valueIn, hdenom, hvalue]

theorem valueIn_plain (c : Coin) (denom : String) : c.plain.valueIn denom = c.valueIn denom := by
  rw [valueIn, value_plain]
  rfl

theorem valueIn_add {a b c : Coin} (ha : a.amount.Whole) (hb : b.amount.Whole)
    (h : a.add b = .ok c) (denom : String) :
    c.valueIn denom = a.valueIn denom + b.valueIn denom := by
  obtain ⟨hbdenom, hcdenom, -⟩ := add_eq_ok.1 h
  rw [valueIn, valueIn, valueIn, hbdenom, hcdenom, value_add ha hb h]
  split
  · rfl
  · rw [add_zero]

/-! ## Sums -/

theorem foldlM_add_eq_ok {coins : List Coin} {start total : Coin} (hstart : start.amount.Whole)
    (hcoins : ∀ c ∈ coins, c.amount.Whole) (h : coins.foldlM add start = .ok total) :
    total.denom = start.denom ∧ total.amount.Whole ∧
      total.value = start.value + (coins.map value).sum := by
  induction coins generalizing start with
  | nil =>
    cases h
    exact ⟨rfl, hstart, by simp⟩
  | cons c coins ih =>
    rw [List.foldlM_cons, bind_eq_ok] at h
    obtain ⟨next, hnext, h⟩ := h
    have hc := hcoins c List.mem_cons_self
    obtain ⟨hdenom, hwhole, hvalue⟩ := ih (whole_add hstart hc hnext)
      (fun d hd => hcoins d (List.mem_cons_of_mem _ hd)) h
    refine ⟨hdenom.trans (add_eq_ok.1 hnext).2.1, hwhole, ?_⟩
    rw [hvalue, value_add hstart hc hnext, List.map_cons, List.sum_cons, add_assoc]

theorem value_sum {denom : String} {coins : List Coin} {total : Coin}
    (hcoins : ∀ c ∈ coins, c.amount.Whole) (h : sum denom coins = .ok total) :
    total.value = (coins.map value).sum := by
  have hvalue := (foldlM_add_eq_ok Decimal.whole_zero hcoins h).2.2
  rwa [value_zero, zero_add] at hvalue

/-- Valid coins have a sum as long as it is not above another whole amount. -/
theorem exists_foldlM_add {coins : List Coin} {start : Coin} (hstart : start.amount.Whole)
    (hnonneg : 0 ≤ start.value) (hcoins : ∀ c ∈ coins, c.Valid ∧ c.denom = start.denom)
    {bound : Decimal} (hbound : bound.Whole)
    (hle : start.value + (coins.map value).sum ≤ bound.value) :
    ∃ total, coins.foldlM add start = .ok total := by
  induction coins generalizing start with
  | nil => exact ⟨start, rfl⟩
  | cons c coins ih =>
    obtain ⟨hc, hdenom⟩ := hcoins c List.mem_cons_self
    have hrest : ∀ d ∈ coins, d.Valid ∧ d.denom = start.denom := fun d hd =>
      hcoins d (List.mem_cons_of_mem _ hd)
    have hsum : 0 ≤ (coins.map value).sum := by
      refine List.sum_nonneg fun v hv => ?_
      obtain ⟨d, hd, rfl⟩ := List.mem_map.1 hv
      exact (hrest d hd).1.nonneg
    have hcnonneg := hc.nonneg
    rw [List.map_cons, List.sum_cons] at hle
    -- The next partial sum is within the bound, and so are all that follow.
    obtain ⟨amount, hadd⟩ := Decimal.exists_add? hstart hc.whole hbound hnonneg hcnonneg
      (show start.value + c.value ≤ bound.value by linarith)
    have hnext : start.add c = .ok ⟨start.denom, amount⟩ := add_eq_ok.2 ⟨hdenom, rfl, hadd⟩
    have hvalue := value_add hstart hc.whole hnext
    rw [List.foldlM_cons, hnext]
    refine ih (whole_add hstart hc.whole hnext) (hvalue ▸ add_nonneg hnonneg hcnonneg) hrest ?_
    rw [hvalue]
    linarith

theorem exists_sum {denom : String} {coins : List Coin}
    (hcoins : ∀ c ∈ coins, c.Valid ∧ c.denom = denom) {bound : Decimal} (hbound : bound.Whole)
    (hle : (coins.map value).sum ≤ bound.value) :
    ∃ total, sum denom coins = .ok total ∧ total.denom = denom := by
  have hstart : (zero denom).value + (coins.map value).sum ≤ bound.value := by
    rw [value_zero, zero_add]
    exact hle
  obtain ⟨total, htotal⟩ : ∃ total, coins.foldlM add (zero denom) = .ok total :=
    exists_foldlM_add Decimal.whole_zero (value_zero denom).ge hcoins hbound hstart
  exact ⟨total, htotal, (foldlM_add_eq_ok Decimal.whole_zero (fun c hc => (hcoins c hc).1.whole)
    htotal).1⟩

end LeaseEscrow.Coin
