import LeaseEscrow.Lease
import LeaseEscrow.Params
import LeaseEscrow.Proofs.Coin
import LeaseEscrow.Proofs.Decimal.Rounding
import LeaseEscrow.Resource

/-!
# Valid records

What the checks of parameters, resources and leases ask for, in terms of values. Validity does
not see the sign of a zero, so that a record and its plain form are valid together.
-/

namespace LeaseEscrow

/-! ## Leases -/

/-- The total is the price of all hours, and no more than that has been settled. -/
structure Lease.Valid (l : Lease) : Prop where
  price : l.pricePerHour.Valid
  price_pos : 0 < l.pricePerHour.value
  total_denom : l.total.denom = l.pricePerHour.denom
  settled_denom : l.settled.denom = l.pricePerHour.denom
  settled_whole : l.settled.amount.Whole
  settled_nonneg : 0 ≤ l.settled.value
  hours_ne : l.hours ≠ 0
  total_eq : l.total.value = l.pricePerHour.value * l.hours.toNat
  settled_le : l.settled.value ≤ l.total.value
  order : l.startedAt ≤ l.settledAt

namespace Lease

theorem whole_of_eq_times {c total : Coin} {n : Nat} (hc : c.amount.Whole)
    (h : total.value = c.value * n) : total.amount.Whole := by
  obtain ⟨m, hm⟩ := hc
  refine ⟨m * n, ?_⟩
  rw [show total.amount.value = c.amount.value * n from h, hm]
  push_cast
  rfl

theorem Valid.total_whole {l : Lease} (h : l.Valid) : l.total.amount.Whole :=
  whole_of_eq_times h.price.whole h.total_eq

theorem Valid.total_valid {l : Lease} (h : l.Valid) : l.total.Valid where
  denom := h.total_denom ▸ h.price.denom
  nonneg := h.settled_nonneg.trans h.settled_le
  whole := h.total_whole

theorem Valid.settled_valid {l : Lease} (h : l.Valid) : l.settled.Valid where
  denom := h.settled_denom ▸ h.price.denom
  nonneg := h.settled_nonneg
  whole := h.settled_whole

theorem validate_eq_ok {l : Lease} : l.validate = .ok () ↔ l.Valid := by
  rw [validate, check_bind_eq_ok, check_bind_eq_ok, check_bind_eq_ok, check_bind_eq_ok,
    check_bind_eq_ok, check_bind_eq_ok, check_bind_eq_ok, check_bind_eq_ok,
    Coin.validatePositive_eq_ok, Coin.validate_eq_ok, Coin.validate_eq_ok, Coin.expectDenom_eq_ok,
    Coin.expectDenom_eq_ok, require_eq_ok, require_eq_ok, require_eq_ok, require_eq_ok,
    Decimal.le_iff_value]
  constructor
  · rintro ⟨⟨hprice, hpos⟩, -, hsettled, htotal, hdenom, hhours, hcosts, hle, horder⟩
    exact {
      price := hprice, price_pos := hpos, total_denom := htotal, settled_denom := hdenom
      settled_whole := hsettled.whole, settled_nonneg := hsettled.nonneg, hours_ne := hhours
      total_eq := ((Coin.costs_iff hprice.whole).1 hcosts).2, settled_le := hle, order := horder }
  · intro h
    exact ⟨⟨h.price, h.price_pos⟩, h.total_valid, h.settled_valid, h.total_denom, h.settled_denom,
      h.hours_ne, (Coin.costs_iff h.price.whole).2 ⟨h.total_denom.symm, h.total_eq⟩,
      h.settled_le, h.order⟩

theorem Valid.plain {l : Lease} (h : l.Valid) : l.plain.Valid where
  price := Coin.valid_plain.2 h.price
  price_pos := (Coin.value_plain l.pricePerHour).symm ▸ h.price_pos
  total_denom := h.total_denom
  settled_denom := h.settled_denom
  settled_whole := (Coin.valid_plain.2 h.settled_valid).whole
  settled_nonneg := (Coin.value_plain l.settled).symm ▸ h.settled_nonneg
  hours_ne := h.hours_ne
  total_eq := (Coin.value_plain l.total).trans
    (h.total_eq.trans (congrArg (· * (l.hours.toNat : ℚ)) (Coin.value_plain l.pricePerHour).symm))
  settled_le :=
    ((Coin.value_plain l.settled).le.trans h.settled_le).trans (Coin.value_plain l.total).ge
  order := h.order

end Lease

/-! ## Resources -/

/-- A deposit that a resource of this denomination may have. -/
structure Deposit.Valid (denom : String) (d : Deposit) : Prop where
  amount : d.amount.Valid
  pos : 0 < d.amount.value
  denom_eq : d.amount.denom = denom

structure Resource.Valid (r : Resource) : Prop where
  url : validateUrl r.url = .ok ()
  info : r.info.validate = .ok ()
  hardware : r.hardware.validate = .ok ()
  price : r.pricePerHour.Valid
  price_pos : 0 < r.pricePerHour.value
  deposits : ∀ d ∈ r.deposits, d.Valid r.pricePerHour.denom
  summable : ∃ total, r.totalDeposit = .ok total
  closing : r.closedAt.isSome ↔ r.status = .closed
  active : r.leased = true → r.status = .active

namespace Resource

theorem validateDeposit_eq_ok {r : Resource} {d : Deposit} :
    r.validateDeposit d = .ok () ↔ d.Valid r.pricePerHour.denom := by
  rw [validateDeposit, check_bind_eq_ok, Coin.validatePositive_eq_ok, Coin.expectDenom_eq_ok]
  exact ⟨fun ⟨⟨hamount, hpos⟩, hdenom⟩ => ⟨hamount, hpos, hdenom⟩,
    fun h => ⟨⟨h.amount, h.pos⟩, h.denom_eq⟩⟩

theorem validateClosing_eq_ok {r : Resource} :
    r.validateClosing = .ok () ↔ (r.closedAt.isSome ↔ r.status = .closed) := by
  rw [validateClosing]
  cases r.status <;> cases r.closedAt <;> simp

theorem validate_eq_ok {r : Resource} : r.validate = .ok () ↔ r.Valid := by
  rw [validate, check_bind_eq_ok, check_bind_eq_ok, check_bind_eq_ok, check_bind_eq_ok,
    check_bind_eq_ok, bind_eq_ok, Coin.validatePositive_eq_ok, requireAll_eq_ok]
  constructor
  · rintro ⟨hurl, hinfo, hhardware, ⟨hprice, hpos⟩, hdeposits, _, hsum, h⟩
    obtain ⟨total, htotal, -⟩ := map_eq_ok.1 hsum
    rw [check_bind_eq_ok, validateClosing_eq_ok, require_eq_ok] at h
    exact {
      url := hurl, info := hinfo, hardware := hhardware, price := hprice, price_pos := hpos
      deposits := fun d hd => validateDeposit_eq_ok.1 (hdeposits d hd)
      summable := ⟨total, htotal⟩, closing := h.1, active := h.2 }
  · intro h
    obtain ⟨total, htotal⟩ := h.summable
    refine ⟨h.url, h.info, h.hardware, ⟨h.price, h.price_pos⟩,
      fun d hd => validateDeposit_eq_ok.2 (h.deposits d hd), _,
      map_eq_ok.2 ⟨total, htotal, rfl⟩, ?_⟩
    rw [check_bind_eq_ok, validateClosing_eq_ok, require_eq_ok]
    exact ⟨h.closing, h.active⟩

/-- All amounts of a valid resource are positive, and so it is plain already. -/
theorem Valid.plain_eq {r : Resource} (h : r.Valid) : r.plain = r := by
  have hprice : r.pricePerHour.plain = r.pricePerHour :=
    Coin.plain_of_value_ne_zero h.price_pos.ne'
  have hdeposits : r.deposits.map Deposit.plain = r.deposits := by
    refine (List.map_congr_left fun d hd => ?_).trans (List.map_id _)
    rw [Deposit.plain, Coin.plain_of_value_ne_zero (h.deposits d hd).pos.ne']
    rfl
  rw [plain, hprice, hdeposits]

end Resource

/-! ## Parameters -/

/-- The parts of an amount, which add up to it. -/
structure Split.PartsOf (amount : Coin) (parts : Split) : Prop where
  payment : parts.payment.denom = amount.denom
  feeCollector : parts.feeCollector.denom = amount.denom
  communityPool : parts.communityPool.denom = amount.denom
  sum_eq : parts.payment.value + parts.feeCollector.value + parts.communityPool.value =
    amount.value

structure Params.Valid (p : Params) : Prop where
  minHours : p.minLeaseHours ≠ 0
  hours_le : p.minLeaseHours ≤ p.maxLeaseHours
  minDeposit : p.minDeposit.Valid
  minDeposit_pos : 0 < p.minDeposit.value
  share_pos : 0 < p.initialDepositShare.value
  share_le : p.initialDepositShare.value ≤ 1
  commission_nonneg : 0 ≤ p.leaseCommission.value
  commission_lt : p.leaseCommission.value < 1
  feeCollector_nonneg : 0 ≤ p.distribution.feeCollector.value
  communityPool_nonneg : 0 ≤ p.distribution.communityPool.value
  distribution_eq : ∃ total, p.distribution.feeCollector.add? p.distribution.communityPool =
    some total ∧ total.value = 1
  release : p.releaseSeconds ≠ 0

/-- The sign of a zero does not count in a sum. -/
theorem Decimal.add?_plain {a b c : Decimal} (h : a.add? b = some c) :
    ∃ d, a.plain.add? b.plain = some d ∧ d.value = c.value := by
  have hzero : ∀ a : Decimal, a.plain.isZero = a.isZero := fun _ => rfl
  unfold add? at h ⊢
  rw [hzero, hzero]
  split at h
  · next ha =>
    rw [if_pos ha]
    cases h
    exact ⟨_, rfl, value_plain _⟩
  · next ha =>
    rw [if_neg ha]
    split at h
    · next hb =>
      rw [if_pos hb]
      cases h
      exact ⟨_, rfl, value_plain _⟩
    · next hb =>
      rw [if_neg hb, plain_of_not_isZero (Bool.eq_false_iff.2 ha),
        plain_of_not_isZero (Bool.eq_false_iff.2 hb)]
      exact ⟨c, h, rfl⟩

namespace Params

theorem validate_eq_ok {p : Params} : p.validate = .ok () ↔ p.Valid := by
  rw [validate, check_bind_eq_ok, check_bind_eq_ok, check_bind_eq_ok, check_bind_eq_ok,
    check_bind_eq_ok, check_bind_eq_ok, bind_eq_ok, liftM_eq_ok, liftM_eq_ok, liftM_eq_ok,
    liftM_eq_ok, liftM_eq_ok, liftM_eq_ok, require_eq_ok, require_eq_ok, require_eq_ok,
    require_eq_ok, require_eq_ok, Refusal.rephrase_eq_ok, Coin.validatePositive_eq_ok,
    Decimal.lt_iff_value, Decimal.le_iff_value, Decimal.le_iff_value, Decimal.lt_iff_value,
    Decimal.le_iff_value, Decimal.le_iff_value, Decimal.value_zero, Decimal.value_one]
  constructor
  · rintro ⟨hmin, hle, ⟨hdeposit, hpos⟩, ⟨hshare, hshare'⟩, ⟨hcommission, hcommission'⟩,
      ⟨hfee, hpool⟩, total, htotal, h⟩
    rw [check_bind_eq_ok, liftM_eq_ok, liftM_eq_ok, require_eq_ok, require_eq_ok,
      Decimal.equiv_iff_value, Decimal.value_one] at h
    exact {
      minHours := hmin, hours_le := hle, minDeposit := hdeposit, minDeposit_pos := hpos
      share_pos := hshare, share_le := hshare', commission_nonneg := hcommission
      commission_lt := hcommission', feeCollector_nonneg := hfee, communityPool_nonneg := hpool
      distribution_eq := ⟨total, inRange_eq_ok.1 htotal, h.1⟩, release := h.2 }
  · intro h
    obtain ⟨total, htotal, hone⟩ := h.distribution_eq
    refine ⟨h.minHours, h.hours_le, ⟨h.minDeposit, h.minDeposit_pos⟩, ⟨h.share_pos, h.share_le⟩,
      ⟨h.commission_nonneg, h.commission_lt⟩, ⟨h.feeCollector_nonneg, h.communityPool_nonneg⟩,
      total, inRange_eq_ok.2 htotal, ?_⟩
    rw [check_bind_eq_ok, liftM_eq_ok, liftM_eq_ok, require_eq_ok, require_eq_ok,
      Decimal.equiv_iff_value, Decimal.value_one]
    exact ⟨hone, h.release⟩

theorem Valid.plain {p : Params} (h : p.Valid) : p.plain.Valid where
  minHours := h.minHours
  hours_le := h.hours_le
  minDeposit := Coin.valid_plain.2 h.minDeposit
  minDeposit_pos := (Coin.value_plain p.minDeposit).symm ▸ h.minDeposit_pos
  share_pos := (Decimal.value_plain _).symm ▸ h.share_pos
  share_le := (Decimal.value_plain p.initialDepositShare).le.trans h.share_le
  commission_nonneg := (Decimal.value_plain _).symm ▸ h.commission_nonneg
  commission_lt := (Decimal.value_plain p.leaseCommission).trans_lt h.commission_lt
  feeCollector_nonneg := (Decimal.value_plain _).symm ▸ h.feeCollector_nonneg
  communityPool_nonneg := (Decimal.value_plain _).symm ▸ h.communityPool_nonneg
  distribution_eq := by
    obtain ⟨total, htotal, hone⟩ := h.distribution_eq
    obtain ⟨total', htotal', hvalue⟩ := Decimal.add?_plain htotal
    exact ⟨total', htotal', hvalue.trans hone⟩
  release := h.release

/-- A split parts the settled amount, and nothing of it is lost. -/
theorem partsOf_split {p : Params} {settled : Coin} {parts : Split}
    (hwhole : settled.amount.Whole) (h : p.split settled = .ok parts) : parts.PartsOf settled := by
  simp only [split, bind_eq_ok, inRange_eq_ok, pure_eq_ok] at h
  obtain ⟨commission, -, fee, -, pool, hpool, payment, hpayment, rfl⟩ := h
  have hcommission := Decimal.whole_trunc commission
  refine ⟨rfl, rfl, rfl, ?_⟩
  simp only [Coin.value]
  rw [Decimal.value_sub? hwhole hcommission hpayment,
    Decimal.value_sub? hcommission (Decimal.whole_trunc fee) hpool]
  ring

/-- The shares of a valid distribution come to one exactly. -/
theorem Valid.distribution_sum {p : Params} (hp : p.Valid) :
    p.distribution.feeCollector.value + p.distribution.communityPool.value = 1 := by
  obtain ⟨total, htotal, hone⟩ := hp.distribution_eq
  exact Decimal.add_eq_one_of_add? hp.feeCollector_nonneg hp.communityPool_nonneg htotal hone

end Params

end LeaseEscrow
