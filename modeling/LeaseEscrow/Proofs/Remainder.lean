import LeaseEscrow.Proofs.Decimal.Quotient
import LeaseEscrow.Proofs.Lease
import LeaseEscrow.Proofs.Sample

/-!
# Remainders of a lease

A lease that was imported partly settled may have less than the price of whole hours left. The
part of an hour is to count as an hour, but the hours left are read off a rounded quotient, and a
part that is too small against the price is lost in it: one hour too few is counted, which an
earlier settlement makes up for, unless it is the only hour left. Then nothing is billed, and the
lease is never settled.

What settlement does to a lease is told in whole units of its denomination: `u` of them are left at
a price of `p` an hour. Every settlement lowers the hours left, with a part counted whole, by the
hours that it bills (`ceilDiv_after`), and the part stays as it is until the last one.
-/

namespace LeaseEscrow

namespace Lease

variable {l l' : Lease} {u p : ℕ}

/-! ## In whole units -/

structure Owes (l : Lease) (u p : ℕ) : Prop where
  valid : l.Valid
  total : l.total.value = l.settled.value + u
  price : l.pricePerHour.value = p

theorem exists_owes (hl : l.Valid) : ∃ u p, l.Owes u p := by
  obtain ⟨p, hp⟩ := hl.price.whole
  obtain ⟨total, htotal⟩ := hl.total_whole
  obtain ⟨settled, hsettled⟩ := hl.settled_whole
  have hprice : l.pricePerHour.value = p := hp
  have hle := hl.settled_le
  have hpos := hl.price_pos
  rw [hprice, Int.cast_pos] at hpos
  rw [show l.settled.value = settled from hsettled, show l.total.value = total from htotal,
    Int.cast_le] at hle
  refine ⟨(total - settled).toNat, p.toNat, hl, ?_, ?_⟩
  · have hleft : ((total - settled).toNat : ℤ) = total - settled := Int.toNat_of_nonneg (by omega)
    rw [show l.total.value = total from htotal, show l.settled.value = settled from hsettled,
      ← Int.cast_natCast, hleft, Int.cast_sub]
    ring
  · rw [hprice, ← Int.cast_natCast, Int.toNat_of_nonneg hpos.le]

namespace Owes

theorem price_pos (h : l.Owes u p) : 0 < p := by
  have hpos := h.valid.price_pos
  rw [h.price] at hpos
  exact_mod_cast hpos

/-- What is left is at most the price of all hours. -/
theorem le_price (h : l.Owes u p) : u ≤ l.hours.toNat * p := by
  have htotal := h.valid.total_eq
  rw [h.total, h.price] at htotal
  have hle : (u : ℚ) ≤ ((l.hours.toNat * p : ℕ) : ℚ) := by
    rw [Nat.cast_mul, mul_comm, ← htotal]
    exact le_add_of_nonneg_left h.valid.settled_nonneg
  exact_mod_cast hle

theorem isFullySettled_iff (h : l.Owes u p) : l.isFullySettled = true ↔ u = 0 := by
  rw [Lease.isFullySettled_iff, h.total, add_le_iff_nonpos_right, Nat.cast_nonpos]

theorem exists_unsettled (h : l.Owes u p) : ∃ left, l.unsettled = .ok left ∧ left.value = u := by
  obtain ⟨left, hleft⟩ := Lease.exists_unsettled h.valid
  refine ⟨left, hleft, ?_⟩
  rw [value_unsettled h.valid hleft, h.total, add_sub_cancel_left]

theorem ceilDiv_lt (h : l.Owes u p) : u ⌈/⌉ p < UInt64.size := by
  have hle : u ⌈/⌉ p ≤ l.hours.toNat := by
    rw [ceilDiv_le_iff_le_mul h.price_pos, Nat.mul_comm]
    exact h.le_price
  exact Nat.lt_of_le_of_lt hle l.hours.toNat_lt

/-! ## Hours left -/

/-- The hours left are counted up at some scale, from nine places to 28, and at 28 when less than an
hour is left. -/
theorem remainingHours (h : l.Owes u p) :
    ∃ hours scale, l.remainingHours = .ok hours ∧ 9 ≤ scale ∧ scale ≤ 28 ∧
      (u < p → scale = 28) ∧ hours.toNat = Decimal.countedUp u p scale := by
  obtain ⟨left, hleft, hvalue⟩ := h.exists_unsettled
  obtain ⟨d, hdiv, hsign, hnine, hscale, hpart, hceil⟩ := Decimal.ceil_div? hvalue h.price
    h.price_pos h.le_price l.hours.toNat_lt
  have hword : Decimal.countedUp u p d.scale < UInt64.size :=
    Nat.lt_of_le_of_lt (Decimal.countedUp_le_ceilDiv h.price_pos _).1 h.ceilDiv_lt
  refine ⟨.ofNat (Decimal.countedUp u p d.scale), d.scale, ?_, hnine, hscale, hpart,
    UInt64.toNat_ofNat_of_lt' hword⟩
  simp only [Lease.remainingHours, hleft, hdiv, bind, Except.bind]
  rw [hsign, if_neg Bool.false_ne_true, hceil, wordOf?_natCast hword]
  rfl

/-- At the scale of less than an hour, all is lost of what is at most a part in `2 * 10 ^ 28` of the
price. -/
theorem pos_remainingHours_iff (h : l.Owes u p) {hours : UInt64}
    (hhours : l.remainingHours = .ok hours) : 0 < hours.toNat ↔ p < 2 * 10 ^ 28 * u := by
  obtain ⟨_, scale, hok, -, -, hpart, hcounted⟩ := h.remainingHours
  cases hok.symm.trans hhours
  rw [hcounted, Decimal.countedUp]
  rcases Nat.lt_or_ge u p with hlt | hge
  · rw [hpart hlt, Nat.div_eq_of_lt hlt, Nat.mod_eq_of_lt hlt, Nat.zero_add, tenPow,
      Nat.mul_right_comm]
    split <;> simp [*]
  · have hwhole : 0 < u / p := Nat.div_pos hge h.price_pos
    have hprice := h.price_pos
    constructor
    · intro
      omega
    · intro
      omega

/-! ## Settlement -/

/-- What is due for some hours is their price, and never more than what is left. -/
theorem accrualAt (h : l.Owes u p) (hu : 0 < u) {now : Instant}
    (hdue : 1 ≤ now.hoursSince l.settledAt) {hours : UInt64}
    (hhours : l.remainingHours = .ok hours) :
    ∃ a, l.accrualAt now = .ok (some a) ∧
      a.hours.toNat = min (now.hoursSince l.settledAt).toNat hours.toNat ∧
      a.amount.value = ((min (p * a.hours.toNat) u : ℕ) : ℚ) := by
  obtain ⟨left, hleft, hvalue⟩ := h.exists_unsettled
  have hpositive : left.isPositive = true := by
    rw [Coin.isPositive, Decimal.isPositive_iff, show left.amount.value = u from hvalue]
    exact_mod_cast hu
  have helapsed : (UInt64.ofNat (now.hoursSince l.settledAt).toNat).toNat =
      (now.hoursSince l.settledAt).toNat :=
    UInt64.toNat_ofNat_of_lt' (now.toNat_hoursSince_lt l.settledAt)
  generalize hbilled : min (UInt64.ofNat (now.hoursSince l.settledAt).toNat) hours = billed
  have hbilledNat : billed.toNat = min (now.hoursSince l.settledAt).toNat hours.toNat := by
    rw [← hbilled, toNat_min, helapsed]
  simp only [Lease.accrualAt, hleft, hhours, bind, Except.bind]
  rw [if_neg (by omega), if_neg (by simp [hpositive]), hbilled]
  refine ⟨_, rfl, hbilledNat, ?_⟩
  show Decimal.value _ = _
  rw [Nat.cast_min, Nat.cast_mul, ← h.price, ← hvalue]
  cases htimes : l.pricePerHour.times billed with
  | ok due =>
    have hdueValue := Coin.value_times h.valid.price.whole htimes
    rw [← hdueValue]
    exact Decimal.value_min _ _
  | error e =>
    -- The price is out of range, and so above what is left.
    refine (min_eq_right (le_of_not_ge fun hle => ?_)).symm
    obtain ⟨due, hdue⟩ := Coin.exists_times_of_le h.valid.price (whole_unsettled h.valid hleft) hle
    cases htimes.symm.trans hdue

/-- An accrual leaves what it does not take. -/
theorem settle (h : l.Owes u p) {now : Instant} {a : Accrual} (ha : l.accrualAt now = .ok (some a))
    (hvalue : a.amount.value = ((min (p * a.hours.toNat) u : ℕ) : ℚ)) :
    ∃ l', l.settle a = .ok l' ∧ l'.Owes (u - p * a.hours.toNat) p := by
  obtain ⟨l', hl'⟩ := exists_settle h.valid ha
  obtain ⟨-, hwhole, hnonneg⟩ := accrual_of_accrualAt h.valid ha
  refine ⟨l', hl', valid_settle h.valid hwhole hnonneg hl', ?_, ?_⟩
  · obtain ⟨settled, -, hadd, -, -, rfl⟩ := settle_eq_ok.1 hl'
    show l.total.value = settled.value + _
    rw [Coin.value_add h.valid.settled_whole hwhole hadd, hvalue, h.total, add_assoc,
      ← Nat.cast_add]
    congr 2
    omega
  · obtain ⟨settled, settledAt, -, -, -, rfl⟩ := settle_eq_ok.1 hl'
    exact h.price

end Owes

/-- The hours left, a part counted whole, go down by the hours that are billed. -/
theorem ceilDiv_after {hours : ℕ} (hp : 0 < p) (hle : hours ≤ u ⌈/⌉ p) :
    (u - p * hours) ⌈/⌉ p + hours = u ⌈/⌉ p := by
  have hdrop : (u - p * hours) ⌈/⌉ p = u ⌈/⌉ p - hours := by
    refine eq_of_forall_ge_iff fun c => ?_
    rw [ceilDiv_le_iff_le_mul hp, Nat.sub_le_iff_le_add, Nat.sub_le_iff_le_add,
      ceilDiv_le_iff_le_mul hp, Nat.mul_add]
  rw [hdrop, Nat.sub_add_cancel hle]

/-- As long as something is left, the part of an hour stays. -/
theorem mod_after {hours : ℕ} (h : 0 < u - p * hours) : (u - p * hours) % p = u % p :=
  Nat.sub_mul_mod (by omega)

/-! ## Repeated settlement -/

/-- One lease becomes another one by so many settlements, which bill so many hours. -/
inductive SettledIn : ℕ → ℕ → Lease → Lease → Prop where
  | none (l : Lease) : SettledIn 0 0 l l
  | next {l l₁ l' : Lease} {now : Instant} {a : Accrual} {n billed : ℕ}
      (accrual : l.accrualAt now = .ok (some a)) (settle : l.settle a = .ok l₁)
      (rest : SettledIn n billed l₁ l') : SettledIn (n + 1) (a.hours.toNat + billed) l l'

/-- The part of an hour is so small against the price that no quotient shows it. -/
def PartLost (u p : ℕ) : Prop := 0 < u % p ∧ 2 * 10 ^ 28 * (u % p) ≤ p

theorem countedUp_of_partLost (h : PartLost u p) {scale : ℕ} (hscale : scale ≤ 28) :
    Decimal.countedUp u p scale = u / p := by
  have hweight : tenPow scale ≤ 10 ^ 28 := Nat.pow_le_pow_right (by decide) hscale
  have hlost : 2 * (u % p) * tenPow scale ≤ p :=
    calc 2 * (u % p) * tenPow scale ≤ 2 * (u % p) * 10 ^ 28 := Nat.mul_le_mul_left _ hweight
      _ = 2 * 10 ^ 28 * (u % p) := Nat.mul_right_comm ..
      _ ≤ p := h.2
  rw [Decimal.countedUp, if_neg (not_lt.2 hlost), Nat.add_zero]

/-- A part that is not lost is not all of what no quotient shows. -/
theorem lt_of_not_partLost (hu : 0 < u) (h : ¬ PartLost u p) : p < 2 * 10 ^ 28 * u := by
  have hmod := Nat.mod_le u p
  by_cases h0 : u % p = 0
  · have hle : p ≤ u := Nat.le_of_dvd hu (Nat.dvd_of_mod_eq_zero h0)
    omega
  · rw [PartLost, not_and, not_le] at h
    have hlt := h (Nat.pos_of_ne_zero h0)
    omega

/-- What one settlement does: it bills part of the hours left, some of them if there are any, and
the price of the hours billed is no longer owed. -/
theorem Owes.step (h : l.Owes u p) {now : Instant} {a : Accrual} {l₁ : Lease}
    (haccrual : l.accrualAt now = .ok (some a)) (hsettle : l.settle a = .ok l₁) :
    0 < u ∧ l₁.Owes (u - p * a.hours.toNat) p ∧
      ∃ hours, l.remainingHours = .ok hours ∧ a.hours.toNat ≤ hours.toNat ∧
        (0 < a.hours.toNat ↔ 0 < hours.toNat) := by
  obtain ⟨hours, _, hhours, -⟩ := h.remainingHours
  obtain ⟨left, hleft, hvalue⟩ := h.exists_unsettled
  have hdue : 1 ≤ now.hoursSince l.settledAt := by
    by_contra hlt
    rw [Lease.accrualAt, if_pos (by omega)] at haccrual
    cases haccrual
  have hu : 0 < u := by
    by_contra hu
    have hpositive : left.isPositive = false := by
      rw [← Bool.not_eq_true, Coin.isPositive, Decimal.isPositive_iff,
        show left.amount.value = u from hvalue, Nat.cast_pos]
      exact hu
    simp only [Lease.accrualAt, hleft, hpositive, bind, Except.bind] at haccrual
    rw [if_neg (by omega)] at haccrual
    cases haccrual
  obtain ⟨a', ha', hbilled, hamount⟩ := h.accrualAt hu hdue hhours
  cases haccrual.symm.trans ha'
  obtain ⟨l₂, hl₂, howes⟩ := h.settle haccrual hamount
  cases hsettle.symm.trans hl₂
  exact ⟨hu, howes, hours, hhours, by omega, by omega⟩

/-- What settlements leave: the hours left go down by the hours billed, each settlement bills an
hour unless the part of an hour is lost, and then that part is never settled. -/
theorem SettledIn.owes {n billed : ℕ} (h : SettledIn n billed l l') (hl : l.Owes u p) :
    ∃ u', l'.Owes u' p ∧ u' ⌈/⌉ p + billed = u ⌈/⌉ p ∧
      (¬ PartLost u p → n ≤ billed) ∧ (PartLost u p → 0 < u') := by
  induction h generalizing u with
  | none l =>
    refine ⟨u, hl, rfl, fun _ => le_rfl, fun hlost => ?_⟩
    exact Nat.lt_of_lt_of_le hlost.1 (Nat.mod_le u p)
  | @next l l₁ l' now a n billed haccrual hsettle rest ih =>
    obtain ⟨hu, howes, hours, hhours, hle, hpos⟩ := hl.step haccrual hsettle
    obtain ⟨_, scale, hok, -, hscale, -, hcounted⟩ := hl.remainingHours
    cases hhours.symm.trans hok
    obtain ⟨u', howes', hsum, hadvance, hstuck⟩ := ih howes
    have hceil : a.hours.toNat ≤ u ⌈/⌉ p :=
      hle.trans (hcounted ▸ (Decimal.countedUp_le_ceilDiv hl.price_pos scale).1)
    refine ⟨u', howes', ?_, fun hnot => ?_, fun hlost => ?_⟩
    · rw [Nat.add_comm a.hours.toNat, ← Nat.add_assoc, hsum, ceilDiv_after hl.price_pos hceil]
    · have hbilled : 0 < a.hours.toNat :=
        hpos.2 ((hl.pos_remainingHours_iff hhours).2 (lt_of_not_partLost hu hnot))
      have hrest : ¬ PartLost (u - p * a.hours.toNat) p := by
        rintro ⟨hpart, hsmall⟩
        have hleft : 0 < u - p * a.hours.toNat := Nat.lt_of_lt_of_le hpart (Nat.mod_le _ _)
        rw [mod_after hleft] at hpart hsmall
        exact hnot ⟨hpart, hsmall⟩
      have hmore := hadvance hrest
      omega
    · -- Only the whole hours are billed, so that the part is still there.
      have hwhole : a.hours.toNat ≤ u / p := by
        rw [hcounted, countedUp_of_partLost hlost hscale] at hle
        exact hle
      have hleft : 0 < u - p * a.hours.toNat := by
        have hmul : p * a.hours.toNat ≤ p * (u / p) := Nat.mul_le_mul_left p hwhole
        have hsplit := Nat.div_add_mod u p
        have hpart := hlost.1
        omega
      refine hstuck ?_
      rw [PartLost, mod_after hleft]
      exact hlost

/-- A valid lease that is not fully settled has `u` units left at a price of `p`. Its hours left are
the rounded up quotient of the two or one less, and never less if the part of an hour counts. After
an hour there is always something to record, and it bills an hour unless what is left is at most a
part in `2 * 10 ^ 28` of the price. However often the lease is settled, no more hours are billed
than the rounded up quotient; each time bills one unless the part of an hour is lost, and if it is
lost the lease is never fully settled. -/
theorem settlement_advances {l : Lease} (hl : l.validate = .ok ())
    (hopen : l.isFullySettled = false) :
    ∃ (u p : ℕ) (hours : UInt64),
      0 < u ∧ 0 < p ∧ l.total.value = l.settled.value + u ∧ l.pricePerHour.value = p ∧
      l.remainingHours = .ok hours ∧ hours.toNat ≤ u ⌈/⌉ p ∧ u ⌈/⌉ p ≤ hours.toNat + 1 ∧
      (u % p = 0 ∨ p < 2 * 10 ^ 9 → hours.toNat = u ⌈/⌉ p) ∧
      (∀ now : Instant, 1 ≤ now.hoursSince l.settledAt → ∃ a l',
        l.accrualAt now = .ok (some a) ∧ l.settle a = .ok l' ∧
        (a.hours.toNat : ℤ) ≤ now.hoursSince l.settledAt ∧ a.hours.toNat ≤ hours.toNat ∧
        a.amount.value = ((min (p * a.hours.toNat) u : ℕ) : ℚ) ∧
        (1 ≤ a.hours.toNat ∧ 0 < a.amount.value ↔ p < 2 * 10 ^ 28 * u)) ∧
      ∀ n billed l', SettledIn n billed l l' →
        l'.validate = .ok () ∧ billed ≤ u ⌈/⌉ p ∧ (¬ PartLost u p → n ≤ billed) ∧
        (PartLost u p → l'.isFullySettled = false) := by
  obtain ⟨u, p, howes⟩ := exists_owes (validate_eq_ok.1 hl)
  have hp := howes.price_pos
  have hu : 0 < u := by
    rw [← Bool.not_eq_true, howes.isFullySettled_iff] at hopen
    exact Nat.pos_of_ne_zero hopen
  obtain ⟨hours, scale, hhours, hnine, -, -, hcounted⟩ := howes.remainingHours
  have hbounds : hours.toNat ≤ u ⌈/⌉ p ∧ u ⌈/⌉ p ≤ hours.toNat + 1 := by
    rw [hcounted]
    exact Decimal.countedUp_le_ceilDiv hp scale
  refine ⟨u, p, hours, hu, hp, howes.total, howes.price, hhours, hbounds.1, hbounds.2, ?_, ?_, ?_⟩
  · intro hexact
    rw [hcounted, Decimal.countedUp_eq_ceilDiv_iff hp]
    rcases Nat.eq_zero_or_pos (u % p) with hwhole | hpart
    · exact .inl hwhole
    · have hweight : 10 ^ 9 ≤ tenPow scale := Nat.pow_le_pow_right (by decide) hnine
      have hsmall : p < 2 * 10 ^ 9 := hexact.resolve_left hpart.ne'
      refine .inr (hsmall.trans_le ?_)
      exact Nat.mul_le_mul (Nat.le_mul_of_pos_right 2 hpart) hweight
  · intro now hdue
    obtain ⟨a, haccrual, hbilled, hamount⟩ := howes.accrualAt hu hdue hhours
    obtain ⟨l', hsettle, -⟩ := howes.settle haccrual hamount
    refine ⟨a, l', haccrual, hsettle, by omega, by omega, hamount, ?_⟩
    rw [← howes.pos_remainingHours_iff hhours, hamount, Nat.cast_pos, lt_min_iff,
      mul_pos_iff_of_pos_left hp]
    omega
  · intro n billed l' hsettled
    obtain ⟨u', howes', hsum, hadvance, hstuck⟩ := hsettled.owes howes
    refine ⟨validate_eq_ok.2 howes'.valid, by omega, hadvance, fun hlost => ?_⟩
    rw [← Bool.not_eq_true, howes'.isFullySettled_iff]
    exact (hstuck hlost).ne'

end Lease

namespace Sample

/-- Three hours at ten, of which the genesis state has five settled. -/
def halfHour : Lease where
  resourceId := nodeId
  lessee := lessee
  owner := owner
  pricePerHour := coins 10
  hours := 3
  startedAt := (block 0).time
  total := coins 30
  settled := coins 5
  settledAt := (block 0).time

/-- An hour at a price beyond words, of which all is settled but one unit. -/
def lastUnit : Lease where
  resourceId := nodeId
  lessee := lessee
  owner := owner
  pricePerHour := ⟨"umedia", .ofNat 70000000000000000000000000000 (by decide)⟩
  hours := 1
  startedAt := (block 0).time
  total := ⟨"umedia", .ofNat 70000000000000000000000000000 (by decide)⟩
  settled := ⟨"umedia", .ofNat 69999999999999999999999999999 (by decide)⟩
  settledAt := (block 0).time

end Sample

/-- The half hour that is left counts as an hour. -/
theorem settlement_advances_half_hour :
    Sample.halfHour.validate = .ok () ∧ Sample.halfHour.isFullySettled = false ∧
      Sample.halfHour.remainingHours = .ok 3 ∧
      ∃ a l', Sample.halfHour.accrualAt (Sample.block 1).time = .ok (some a) ∧
        Sample.halfHour.settle a = .ok l' ∧ 1 ≤ a.hours.toNat := by
  have hvalid : Sample.halfHour.validate = .ok () := by decide +kernel
  have hopen : Sample.halfHour.isFullySettled = false := by decide +kernel
  have hthree : Sample.halfHour.remainingHours = .ok 3 := by decide +kernel
  obtain ⟨u, p, hours, hu, -, -, hprice, -, -, -, -, haccrual, -⟩ :=
    Lease.settlement_advances hvalid hopen
  obtain ⟨a, l', ha, hsettle, -, -, -, hbills⟩ := haccrual (Sample.block 1).time (by decide +kernel)
  have hten : (p : ℚ) = 10 := hprice.symm.trans (Decimal.value_ofUInt64 10)
  have hp : p = 10 := by exact_mod_cast hten
  exact ⟨hvalid, hopen, hthree, a, l', ha, hsettle, (hbills.2 (by omega)).1⟩

/-- The last unit of an expensive hour is lost in the quotient. No hour is left to bill, and what is
recorded after an hour is nothing. -/
theorem last_unit_is_not_billed :
    Sample.lastUnit.validate = .ok () ∧ Sample.lastUnit.isFullySettled = false ∧
      (Sample.block 1).time.hoursSince Sample.lastUnit.settledAt = 1 ∧
      Sample.lastUnit.remainingHours = .ok 0 ∧
      Sample.lastUnit.accrualAt (Sample.block 1).time = .ok (some ⟨0, .zero "umedia"⟩) ∧
      Sample.lastUnit.settle ⟨0, .zero "umedia"⟩ = .ok Sample.lastUnit := by
  decide +kernel

end LeaseEscrow
