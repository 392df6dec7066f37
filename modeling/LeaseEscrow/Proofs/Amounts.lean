import LeaseEscrow.Proofs.Refusals

/-!
# Exact amounts

Coins hold decimals, and a whole amount may be written at any scale up to 28: to align two of them
or to multiply them takes more digits than a magnitude has, long before the result does. Rounding
does not touch a whole number, though. The arithmetic of whole amounts that are not below zero is
that of natural numbers as far as these stay below the capacity of a magnitude, and beyond it the
operation is refused: never earlier, not midway through a sum either, and never with a result that
is off.
-/

namespace LeaseEscrow.Coin

variable {a b c start total : Coin} {coins : List Coin} {denom : String} {x y v : ℚ}

/-! ## Counted units -/

/-- The numbers from zero on that are below the capacity of a magnitude. -/
def Fits (v : ℚ) : Prop := 0 ≤ v ∧ v < Decimal.capacity

theorem Fits.natAbs_lt {n : ℤ} (h : Fits n) : n.natAbs < Decimal.capacity := by
  obtain ⟨h0, hlt⟩ := h
  have h0' : 0 ≤ n := by exact_mod_cast h0
  have hlt' : n < (Decimal.capacity : ℤ) := by exact_mod_cast hlt
  omega

/-- The coin counts so many units of a denomination: a whole number, not below zero. -/
structure Counts (denom : String) (v : ℚ) (c : Coin) : Prop where
  denom_eq : c.denom = denom
  value_eq : c.value = v
  nonneg : 0 ≤ v
  whole : c.amount.Whole

namespace Counts

theorem exists_int (h : Counts denom v c) : ∃ n : ℤ, c.amount.value = n ∧ v = n := by
  obtain ⟨n, hn⟩ := h.whole
  exact ⟨n, hn, h.value_eq.symm.trans hn⟩

/-- What a coin counts is below capacity, at whatever scale it is written. -/
theorem fits (h : Counts denom v c) : Fits v := by
  obtain ⟨n, hn, rfl⟩ := h.exists_int
  have hlt := Decimal.natAbs_lt_of_value hn
  refine ⟨h.nonneg, ?_⟩
  have hlt' : n < (Decimal.capacity : ℤ) := by omega
  exact_mod_cast hlt'

/-- The denomination is all that such a coin may be invalid for. -/
theorem validate (h : Counts denom v c) (hdenom : isDenom denom = true) : c.validate = .ok () :=
  validate_eq_ok.2 ⟨h.denom_eq ▸ hdenom, h.value_eq ▸ h.nonneg, h.whole⟩

end Counts

theorem Valid.counts (h : c.Valid) : Counts c.denom c.value c := ⟨rfl, rfl, h.nonneg, h.whole⟩

theorem counts_zero (denom : String) : Counts denom 0 (zero denom) :=
  ⟨rfl, value_zero denom, le_rfl, Decimal.whole_zero⟩

/-- How an operation answers whose result is `v` units: with a coin of just these units when they
fit, a valid one if its denomination is, and with a refusal of the amount when they do not. -/
inductive Exact (denom : String) (v : ℚ) : Except Fault Coin → Prop
  | counted {c : Coin} (fits : Fits v) (counts : Counts denom v c)
      (valid : isDenom denom = true → c.validate = .ok ()) : Exact denom v (.ok c)
  | refused {reason : String} (exceeds : ¬ Fits v) :
      Exact denom v (.error (.refused (.invalidAmount reason)))

theorem Counts.exact (h : Counts denom v c) : Exact denom v (.ok c) := .counted h.fits h h.validate

namespace Exact

variable {answer : Except Fault Coin}

theorem exists_counts (h : Exact denom v answer) (hfits : Fits v) :
    ∃ c, answer = .ok c ∧ Counts denom v c := by
  cases h with
  | counted _ hcounts _ => exact ⟨_, rfl, hcounts⟩
  | refused hexceeds => exact absurd hfits hexceeds

theorem exists_refusal (h : Exact denom v answer) (hexceeds : ¬ Fits v) :
    ∃ reason, answer = .error (.refused (.invalidAmount reason)) := by
  cases h with
  | counted hfits _ _ => exact absurd hfits hexceeds
  | refused _ => exact ⟨_, rfl⟩

/-- An operation that may be refused, but does not leave its range, gives the one or the other. -/
theorem refused_or_counts {answer : Except Refusal Coin} (h : Exact denom v (liftM answer)) :
    (∃ reason, answer = .error (.invalidAmount reason) ∧ ¬ Fits v) ∨
      ∃ c, answer = .ok c ∧ Counts denom v c := by
  cases answer with
  | ok c =>
    cases h with
    | counted _ hcounts _ => exact .inr ⟨c, rfl, hcounts⟩
  | error cause =>
    cases h with
    | refused hexceeds => exact .inl ⟨_, rfl, hexceeds⟩

end Exact

/-! ## Operands of one denomination -/

theorem exact_add (ha : Counts denom x a) (hb : Counts denom y b) :
    Exact denom (x + y) (liftM (a.add b)) := by
  obtain ⟨m, hm, rfl⟩ := ha.exists_int
  obtain ⟨n, hn, rfl⟩ := hb.exists_int
  have h0 : (0 : ℚ) ≤ m + n := add_nonneg ha.nonneg hb.nonneg
  rw [add, expectDenom, require, if_pos (hb.denom_eq.trans ha.denom_eq.symm)]
  cases hsum : a.amount.add? b.amount with
  | some sum =>
    have hvalue := Decimal.value_add? ha.whole hb.whole hsum
    rw [hm, hn] at hvalue
    have hwhole := Decimal.whole_add? ha.whole hb.whole hsum
    exact Counts.exact ⟨ha.denom_eq, hvalue, h0, hwhole⟩
  | none =>
    refine .refused fun hfits => ?_
    rw [← Int.cast_add] at hfits
    obtain ⟨sum, h⟩ := Decimal.isSome_add? hm hn hfits.natAbs_lt
    rw [hsum] at h
    cases h

theorem exact_sub (ha : Counts denom x a) (hb : Counts denom y b) :
    Exact denom (x - y) (a.sub b) := by
  have hle : b.amount ≤ a.amount ↔ 0 ≤ x - y := by
    rw [Decimal.le_iff_value, sub_nonneg, ← ha.value_eq, ← hb.value_eq]
    rfl
  rw [sub, expectDenom, require, if_pos (hb.denom_eq.trans ha.denom_eq.symm), require]
  by_cases h0 : 0 ≤ x - y
  · -- What is left of an amount is below it, and so within range.
    obtain ⟨rest, hrest⟩ : ∃ rest, a.amount.sub? b.amount = some rest :=
      Decimal.exists_sub? ha.whole hb.whole (hb.value_eq.symm ▸ hb.nonneg : 0 ≤ b.value)
        (Decimal.le_iff_value.1 (hle.2 h0))
    have hvalue := Decimal.value_sub? ha.whole hb.whole hrest
    have hwhole := Decimal.whole_sub? ha.whole hb.whole hrest
    rw [if_pos (hle.2 h0), hrest]
    refine Counts.exact ⟨ha.denom_eq, hvalue.trans ?_, h0, hwhole⟩
    rw [← ha.value_eq, ← hb.value_eq]
    rfl
  · rw [if_neg (mt hle.1 h0)]
    exact .refused fun hfits => h0 hfits.1

theorem exact_times (ha : Counts denom x a) (n : UInt64) :
    Exact denom (x * n.toNat) (liftM (a.times n)) := by
  obtain ⟨m, hm, rfl⟩ := ha.exists_int
  have hn : (Decimal.ofUInt64 n).value = ((n.toNat : ℤ) : ℚ) := Decimal.value_ofUInt64 n
  have h0 : (0 : ℚ) ≤ m * n.toNat := mul_nonneg ha.nonneg (Nat.cast_nonneg _)
  rw [times]
  cases hproduct : a.amount.mul? (.ofUInt64 n) with
  | some product =>
    have hvalue := Decimal.value_mul? ha.whole (whole_ofUInt64 n) hproduct
    rw [hm, hn] at hvalue
    have hwhole := Decimal.whole_mul? ha.whole (whole_ofUInt64 n) hproduct
    exact Counts.exact ⟨ha.denom_eq, hvalue, h0, hwhole⟩
  | none =>
    refine .refused fun hfits => ?_
    rw [show ((m : ℚ) * n.toNat) = ((m * n.toNat : ℤ) : ℚ) by push_cast; rfl] at hfits
    obtain ⟨product, h⟩ := Decimal.isSome_mul? hm hn hfits.natAbs_lt
    rw [hproduct] at h
    cases h

theorem sum_value_nonneg (hcoins : ∀ c ∈ coins, Counts denom c.value c) :
    0 ≤ (coins.map value).sum := by
  refine List.sum_nonneg fun v hv => ?_
  obtain ⟨c, hc, rfl⟩ := List.mem_map.1 hv
  exact (hcoins c hc).nonneg

/-- The partial sums only grow, so that none of them is refused before the sum is. -/
theorem exact_foldlM_add (hstart : Counts denom x start)
    (hcoins : ∀ c ∈ coins, Counts denom c.value c) :
    Exact denom (x + (coins.map value).sum) (liftM (coins.foldlM add start)) := by
  induction coins generalizing start x with
  | nil =>
    rw [List.map_nil, List.sum_nil, add_zero]
    exact hstart.exact
  | cons c coins ih =>
    have hc := hcoins c List.mem_cons_self
    have hrest : ∀ d ∈ coins, Counts denom d.value d := fun d hd =>
      hcoins d (List.mem_cons_of_mem _ hd)
    rw [List.foldlM_cons, List.map_cons, List.sum_cons, ← add_assoc]
    rcases (exact_add hstart hc).refused_or_counts with
      ⟨reason, hnext, hexceeds⟩ | ⟨next, hnext, hcounts⟩
    · rw [hnext]
      refine .refused fun hfits => hexceeds ⟨add_nonneg hstart.nonneg hc.nonneg, ?_⟩
      exact (le_add_of_nonneg_right (sum_value_nonneg hrest)).trans_lt hfits.2
    · rw [hnext]
      exact ih hcounts hrest

theorem exact_sum (hcoins : ∀ c ∈ coins, Counts denom c.value c) :
    Exact denom (coins.map value).sum (liftM (sum denom coins)) := by
  have hsum := exact_foldlM_add (counts_zero denom) hcoins
  rwa [zero_add] at hsum

/-! ## Foreign denominations -/

theorem refusedIn_add (a b : Coin) : RefusedIn (Set.range .invalidAmount) (a.add b) := by
  refine .bind (b.refusedIn_expectDenom _) fun _ _ => ?_
  cases a.amount.add? b.amount with
  | some amount => exact .ok _
  | none =>
    rintro _ ⟨⟩
    exact ⟨_, rfl⟩

theorem refusedIn_foldlM_add (start : Coin) (coins : List Coin) :
    RefusedIn (Set.range .invalidAmount) (coins.foldlM add start) := by
  induction coins generalizing start with
  | nil => exact .ok start
  | cons c coins ih =>
    rw [List.foldlM_cons]
    exact .bind (start.refusedIn_add c) fun next _ => ih next

/-- All coins of a sum are of its denomination. -/
theorem denom_of_foldlM_add (h : coins.foldlM add start = .ok total) :
    ∀ c ∈ coins, c.denom = start.denom := by
  induction coins generalizing start with
  | nil => exact fun c hc => absurd hc List.not_mem_nil
  | cons d coins ih =>
    rw [List.foldlM_cons, bind_eq_ok] at h
    obtain ⟨next, hnext, h⟩ := h
    obtain ⟨hd, hdenom, -⟩ := add_eq_ok.1 hnext
    intro c hc
    rcases List.mem_cons.1 hc with rfl | hc
    · exact hd
    · exact (ih h c hc).trans hdenom

/-- What can only be refused as an amount is, when it has no result. -/
theorem exists_invalidAmount {α : Type} {answer : Except Refusal α}
    (h : RefusedIn (Set.range .invalidAmount) answer) (hok : ∀ r, answer ≠ .ok r) :
    ∃ reason, answer = .error (.invalidAmount reason) := by
  cases answer with
  | ok r => exact absurd rfl (hok r)
  | error e =>
    obtain ⟨reason, rfl⟩ := h e rfl
    exact ⟨reason, rfl⟩

theorem exists_add_foreign (h : b.denom ≠ a.denom) :
    ∃ reason, a.add b = .error (.invalidAmount reason) :=
  exists_invalidAmount (a.refusedIn_add b) fun _ hadd => h (add_eq_ok.1 hadd).1

theorem exists_sub_foreign (h : b.denom ≠ a.denom) :
    ∃ reason, a.sub b = .error (.refused (.invalidAmount reason)) := by
  refine ⟨s!"expected denom {a.denom}, got {b.denom}", ?_⟩
  rw [sub, expectDenom, require, if_neg h]
  rfl

theorem exists_sum_foreign (h : ∃ c ∈ coins, c.denom ≠ denom) :
    ∃ reason, sum denom coins = .error (.invalidAmount reason) := by
  obtain ⟨c, hc, hforeign⟩ := h
  exact exists_invalidAmount (refusedIn_foldlM_add _ coins) fun _ hsum =>
    hforeign (denom_of_foldlM_add hsum c hc)

/-- Arithmetic on whole amounts of one denomination, not below zero and written at any scale: each
operation answers with exactly its result when that fits, and refuses the amount otherwise. Where
denominations differ it always refuses. -/
theorem exact_arithmetic (ha : Counts denom x a) (hb : Counts denom y b) (n : UInt64)
    (hcoins : ∀ c ∈ coins, Counts denom c.value c) :
    Exact denom (x + y) (liftM (a.add b)) ∧
      Exact denom (x - y) (a.sub b) ∧
      Exact denom (x * n.toNat) (liftM (a.times n)) ∧
      Exact denom (coins.map value).sum (liftM (sum denom coins)) ∧
      (∀ c d : Coin, d.denom ≠ c.denom →
        (∃ reason, c.add d = .error (.invalidAmount reason)) ∧
          ∃ reason, c.sub d = .error (.refused (.invalidAmount reason))) ∧
      ∀ mixed : List Coin, (∃ c ∈ mixed, c.denom ≠ denom) →
        ∃ reason, sum denom mixed = .error (.invalidAmount reason) := by
  refine ⟨exact_add ha hb, exact_sub ha hb, exact_times ha n, exact_sum hcoins, ?_, ?_⟩
  · intro c d hforeign
    exact ⟨exists_add_foreign hforeign, exists_sub_foreign hforeign⟩
  · intro mixed hforeign
    exact exists_sum_foreign hforeign

/-- The number one at the largest scale. -/
def finestUnit : Coin := ⟨"umedia", ⟨false, tenPow 28, 28, by decide, by decide⟩⟩

/-- One short of the largest amount. -/
def nearCapacity : Coin := ⟨"umedia", .ofNat (Decimal.capacity - 2) (by decide)⟩

theorem counts_finestUnit : Counts "umedia" 1 finestUnit := by
  have hvalue : finestUnit.value = ((1 : ℤ) : ℚ) := Decimal.value_eq_iff_coeff.2 (by decide)
  exact ⟨rfl, hvalue.trans Int.cast_one, zero_le_one, 1, hvalue⟩

theorem counts_nearCapacity : Counts "umedia" (Decimal.capacity - 2 : ℕ) nearCapacity :=
  ⟨rfl, Decimal.value_ofNat _ _, Nat.cast_nonneg _, _, Decimal.value_ofNat _ _⟩

/-- Added to a unit of 29 digits the largest amount but one stays exact, and one unit more, in
front of it or behind it, is refused. -/
theorem exact_arithmetic_nearCapacity :
    (∃ c, finestUnit.add nearCapacity = .ok c ∧ c.value = (Decimal.capacity - 1 : ℕ)) ∧
      ∃ reason, sum "umedia" [finestUnit, nearCapacity, finestUnit] =
        .error (.invalidAmount reason) := by
  have hvalues : ([finestUnit, nearCapacity, finestUnit].map value).sum = Decimal.capacity := by
    rw [List.map_cons, List.map_cons, List.map_cons, List.map_nil, List.sum_cons, List.sum_cons,
      List.sum_cons, List.sum_nil, counts_finestUnit.value_eq, counts_nearCapacity.value_eq]
    norm_num
  have hcoins : ∀ c ∈ [finestUnit, nearCapacity, finestUnit], Counts "umedia" c.value c := by
    simp only [List.mem_cons, List.not_mem_nil, or_false]
    rintro c (rfl | rfl | rfl)
    · exact counts_finestUnit.value_eq ▸ counts_finestUnit
    · exact counts_nearCapacity.value_eq ▸ counts_nearCapacity
    · exact counts_finestUnit.value_eq ▸ counts_finestUnit
  obtain ⟨hadd, -, -, hsum, -⟩ :=
    exact_arithmetic counts_finestUnit counts_nearCapacity 0 hcoins
  constructor
  · obtain ⟨c, hc, hcounts⟩ := hadd.exists_counts ⟨by norm_num, by norm_num⟩
    refine ⟨c, liftM_eq_ok.1 hc, hcounts.value_eq.trans ?_⟩
    norm_num
  · obtain ⟨reason, hreason⟩ := hsum.exists_refusal fun hfits => (hvalues ▸ hfits.2).false
    exact ⟨reason, liftM_eq_refused.1 hreason⟩

end LeaseEscrow.Coin
