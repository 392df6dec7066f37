import LeaseEscrow.Proofs.Records
import LeaseEscrow.Proofs.Time.Instant

/-!
# The course of a lease

How a lease is made, settled and extended, in values: each step keeps it valid, settlement never
takes more than is left, and a lease that has been settled by whole hours accrues exactly the
price of the hours that have passed, up to those that are left (`accrualAt_of_settled_hours`).
-/

namespace LeaseEscrow

namespace Lease

variable {l l' : Lease}

/-! ## Making, settling and extending -/

theorem start_eq_ok {id : ResourceId} {lessee owner : Account} {price : Coin} {hours : UInt64}
    {now : Instant} :
    start id lessee owner price hours now = .ok l ↔
      ∃ total, price.times hours = .ok total ∧
        l = { resourceId := id, lessee, owner, pricePerHour := price, hours, total
              startedAt := now, settled := .zero price.denom, settledAt := now } := by
  rw [start, bind_eq_ok]
  exact exists_congr fun total => and_congr_right fun _ => pure_eq_ok.trans eq_comm

theorem resourceId_start {id : ResourceId} {lessee owner : Account} {price : Coin} {hours : UInt64}
    {now : Instant} (h : start id lessee owner price hours now = .ok l) :
    l.plain.resourceId = id := by
  obtain ⟨total, -, rfl⟩ := start_eq_ok.1 h
  rfl

theorem valid_start {id : ResourceId} {lessee owner : Account} {price : Coin} {hours : UInt64}
    {now : Instant} (hprice : price.Valid) (hpos : 0 < price.value) (hhours : hours ≠ 0)
    (h : start id lessee owner price hours now = .ok l) : l.Valid := by
  obtain ⟨total, htotal, rfl⟩ := start_eq_ok.1 h
  have hvalue := Coin.value_times hprice.whole htotal
  have hzero : (Coin.zero price.denom).value = 0 := Coin.value_zero _
  exact {
    price := hprice, price_pos := hpos, total_denom := (Coin.times_eq_ok.1 htotal).1
    settled_denom := rfl, settled_whole := Decimal.whole_zero, settled_nonneg := hzero.ge
    hours_ne := hhours, total_eq := hvalue
    settled_le := by
      show (Coin.zero price.denom).value ≤ total.value
      rw [hzero, hvalue]
      exact mul_nonneg hpos.le (Nat.cast_nonneg _)
    order := le_refl now }

theorem settle_eq_ok {a : Accrual} :
    l.settle a = .ok l' ↔
      ∃ settled settledAt, l.settled.add a.amount = .ok settled ∧
        settled.amount ≤ l.total.amount ∧
        l.settledAt.addHours? a.hours.toNat = some settledAt ∧
        l' = { l with settled, settledAt } := by
  rw [settle, bind_eq_ok]
  refine exists_congr fun settled => ?_
  rw [check_bind_eq_ok, require_eq_ok]
  cases l.settledAt.addHours? a.hours.toNat with
  | none => simp [throw_eq_ok]
  | some settledAt =>
    constructor
    · rintro ⟨hadd, hle, h⟩
      exact ⟨settledAt, hadd, hle, rfl, (pure_eq_ok.1 h).symm⟩
    · rintro ⟨_, hadd, hle, ⟨⟩, rfl⟩
      exact ⟨hadd, hle, rfl⟩

/-- Settling a whole amount keeps a lease valid. -/
theorem valid_settle {a : Accrual} (hl : l.Valid) (hwhole : a.amount.amount.Whole)
    (hnonneg : 0 ≤ a.amount.value) (h : l.settle a = .ok l') : l'.Valid := by
  obtain ⟨settled, settledAt, hadd, hle, hlater, rfl⟩ := settle_eq_ok.1 h
  have hvalue := Coin.value_add hl.settled_whole hwhole hadd
  exact {
    price := hl.price, price_pos := hl.price_pos, total_denom := hl.total_denom
    settled_denom := (Coin.add_eq_ok.1 hadd).2.1.trans hl.settled_denom
    settled_whole := Coin.whole_add hl.settled_whole hwhole hadd
    settled_nonneg := by
      show 0 ≤ settled.value
      rw [hvalue]
      exact add_nonneg hl.settled_nonneg hnonneg
    hours_ne := hl.hours_ne, total_eq := hl.total_eq, settled_le := Decimal.le_iff_value.1 hle
    order := hl.order.trans (Instant.le_of_addHours? hlater) }

theorem extend_eq_ok {extra : UInt64} :
    l.extend extra = .ok l' ↔
      l.hours.toNat + extra.toNat < UInt64.size ∧
        ∃ cost total, l.pricePerHour.times extra = .ok cost ∧ l.total.add cost = .ok total ∧
          l' = { l with hours := l.hours + extra, total } := by
  rw [extend, check_bind_eq_ok, require_eq_ok]
  refine and_congr_right fun _ => ?_
  simp only [bind_eq_ok, pure_eq_ok]
  constructor
  · rintro ⟨cost, hcost, total, htotal, rfl⟩
    exact ⟨cost, total, hcost, htotal, rfl⟩
  · rintro ⟨cost, total, hcost, htotal, rfl⟩
    exact ⟨cost, hcost, total, htotal, rfl⟩

theorem resourceId_extend {extra : UInt64} (h : l.extend extra = .ok l') :
    l'.plain.resourceId = l.resourceId := by
  obtain ⟨-, _, _, -, -, rfl⟩ := extend_eq_ok.1 h
  rfl

theorem toNat_hours_extended {extra : UInt64} (h : l.hours.toNat + extra.toNat < UInt64.size) :
    (l.hours + extra).toNat = l.hours.toNat + extra.toNat := by
  rw [UInt64.toNat_add]
  exact Nat.mod_eq_of_lt h

/-- What an extension adds is the price of the extra hours, to the total too. -/
theorem valid_extend {extra : UInt64} (hl : l.Valid) (h : l.extend extra = .ok l') : l'.Valid := by
  obtain ⟨hhours, cost, total, hcost, htotal, rfl⟩ := extend_eq_ok.1 h
  have hcostwhole := Coin.whole_times hl.price.whole hcost
  have hcostvalue := Coin.value_times hl.price.whole hcost
  have hvalue := Coin.value_add hl.total_whole hcostwhole htotal
  have hnat := toNat_hours_extended hhours
  exact {
    price := hl.price, price_pos := hl.price_pos
    total_denom := (Coin.add_eq_ok.1 htotal).2.1.trans hl.total_denom
    settled_denom := hl.settled_denom, settled_whole := hl.settled_whole
    settled_nonneg := hl.settled_nonneg
    hours_ne := by
      intro hzero
      have hpos : l.hours.toNat ≠ 0 := fun h0 => hl.hours_ne (UInt64.toNat_inj.1 h0)
      have hsum : (l.hours + extra).toNat = 0 := congrArg UInt64.toNat hzero
      omega
    total_eq := by
      show total.value = l.pricePerHour.value * ((l.hours + extra).toNat : ℚ)
      rw [hvalue, hl.total_eq, hcostvalue, hnat, Nat.cast_add, mul_add]
    settled_le := by
      show l.settled.value ≤ total.value
      rw [hvalue, hcostvalue]
      exact hl.settled_le.trans (le_add_of_nonneg_right
        (mul_nonneg hl.price_pos.le (Nat.cast_nonneg _)))
    order := hl.order }

/-! ## What is left -/

theorem unsettled_eq_ok {c : Coin} :
    l.unsettled = .ok c ↔
      c.denom = l.total.denom ∧ l.total.amount.sub? l.settled.amount = some c.amount := by
  rw [unsettled, bind_eq_ok]
  obtain ⟨denom, amount⟩ := c
  constructor
  · rintro ⟨left, hleft, h⟩
    cases pure_eq_ok.1 h
    exact ⟨rfl, inRange_eq_ok.1 hleft⟩
  · rintro ⟨rfl, hleft⟩
    exact ⟨amount, inRange_eq_ok.2 hleft, rfl⟩

theorem value_unsettled (hl : l.Valid) {c : Coin} (h : l.unsettled = .ok c) :
    c.value = l.total.value - l.settled.value :=
  Decimal.value_sub? hl.total_whole hl.settled_whole (unsettled_eq_ok.1 h).2

theorem whole_unsettled (hl : l.Valid) {c : Coin} (h : l.unsettled = .ok c) : c.amount.Whole :=
  Decimal.whole_sub? hl.total_whole hl.settled_whole (unsettled_eq_ok.1 h).2

/-- What is left of a valid lease lies within capacity. -/
theorem exists_unsettled (hl : l.Valid) : ∃ c, l.unsettled = .ok c := by
  obtain ⟨d, hd⟩ := Decimal.exists_sub? hl.total_whole hl.settled_whole hl.settled_nonneg
    hl.settled_le
  exact ⟨⟨l.total.denom, d⟩, unsettled_eq_ok.2 ⟨rfl, hd⟩⟩

/-! ## Accruals -/

theorem isFullySettled_iff : l.isFullySettled = true ↔ l.total.value ≤ l.settled.value := by
  rw [isFullySettled, decide_eq_true_eq, Decimal.le_iff_value]
  rfl

/-- What accrues is a whole amount of the denomination of the lease. -/
theorem accrual_of_accrualAt {now : Instant} {a : Accrual} (hl : l.Valid)
    (h : l.accrualAt now = .ok (some a)) :
    a.amount.denom = l.total.denom ∧ a.amount.amount.Whole ∧ 0 ≤ a.amount.value := by
  simp only [accrualAt] at h
  split at h
  · cases h
  · obtain ⟨remaining, hremaining, h⟩ := bind_eq_ok.1 h
    have hwhole := whole_unsettled hl hremaining
    split at h
    · cases h
    · next hpos =>
      rw [Bool.not_eq_true, Bool.not_eq_false', Coin.isPositive, Decimal.isPositive_iff] at hpos
      obtain ⟨hours, -, h⟩ := bind_eq_ok.1 h
      cases Option.some.inj (pure_eq_ok.1 h)
      refine ⟨(unsettled_eq_ok.1 hremaining).1, ?_⟩
      show (Decimal.Whole _) ∧ 0 ≤ Decimal.value _
      split
      · next due hdue =>
        have hdueWhole := Coin.whole_times hl.price.whole hdue
        have hdueValue : due.amount.value = _ := Coin.value_times hl.price.whole hdue
        refine ⟨Decimal.whole_min hdueWhole hwhole, ?_⟩
        rw [Decimal.value_min, hdueValue]
        exact le_min (mul_nonneg hl.price_pos.le (Nat.cast_nonneg _)) hpos.le
      · exact ⟨hwhole, hpos.le⟩

theorem toNat_min (m n : UInt64) : (min m n).toNat = min m.toNat n.toNat := by
  rw [show min m n = if m ≤ n then m else n from rfl]
  split
  · next h =>
    rw [UInt64.le_iff_toNat_le] at h
    exact (min_eq_left h).symm
  · next h =>
    rw [UInt64.le_iff_toNat_le, not_le] at h
    exact (min_eq_right h.le).symm

theorem exists_remainingHours (hl : l.Valid) : ∃ hours, l.remainingHours = .ok hours := by
  obtain ⟨left, hleft⟩ := exists_unsettled hl
  simp only [remainingHours, hleft, bind, Except.bind]
  split
  · split
    · exact ⟨_, rfl⟩
    · exact ⟨_, rfl⟩
  · exact ⟨_, rfl⟩

/-- An accrual can always be told. It is within what is left, and bills hours that have passed. -/
theorem exists_accrualAt (hl : l.Valid) (now : Instant) :
    ∃ accrual, l.accrualAt now = .ok accrual ∧ ∀ a, accrual = some a →
      a.amount.value ≤ l.total.value - l.settled.value ∧
        (a.hours.toNat : ℤ) ≤ now.hoursSince l.settledAt := by
  obtain ⟨left, hleft⟩ := exists_unsettled hl
  obtain ⟨hours, hhours⟩ := exists_remainingHours hl
  simp only [accrualAt, hleft, hhours, bind, Except.bind]
  split
  · exact ⟨none, rfl, nofun⟩
  · next helapsed =>
    split
    · exact ⟨none, rfl, nofun⟩
    · refine ⟨_, rfl, ?_⟩
      rintro a ⟨⟩
      constructor
      · rw [← value_unsettled hl hleft]
        show Decimal.value _ ≤ left.amount.value
        split
        · rw [Decimal.value_min]
          exact min_le_right _ _
        · exact le_rfl
      · have hword : (UInt64.ofNat (now.hoursSince l.settledAt).toNat).toNat =
            (now.hoursSince l.settledAt).toNat :=
          UInt64.toNat_ofNat_of_lt' (now.toNat_hoursSince_lt l.settledAt)
        have hmin := toNat_min (UInt64.ofNat (now.hoursSince l.settledAt).toNat) hours
        show ((min (UInt64.ofNat (now.hoursSince l.settledAt).toNat) hours).toNat : ℤ) ≤ _
        omega

/-- What accrues can be settled. -/
theorem exists_settle (hl : l.Valid) {now : Instant} {a : Accrual}
    (h : l.accrualAt now = .ok (some a)) : ∃ l', l.settle a = .ok l' := by
  obtain ⟨accrual, haccrual, hbounds⟩ := exists_accrualAt hl now
  obtain rfl := Except.ok.inj (h.symm.trans haccrual)
  obtain ⟨hle, hhours⟩ := hbounds a rfl
  obtain ⟨hdenom, hwhole, hnonneg⟩ := accrual_of_accrualAt hl h
  obtain ⟨amount, hamount⟩ := Decimal.exists_add? hl.settled_whole hwhole hl.total_whole
    hl.settled_nonneg hnonneg (show l.settled.value + a.amount.value ≤ l.total.value by linarith)
  have hadd : l.settled.add a.amount = .ok ⟨l.settled.denom, amount⟩ :=
    Coin.add_eq_ok.2 ⟨hdenom.trans (hl.total_denom.trans hl.settled_denom.symm), rfl, hamount⟩
  have hvalue := Coin.value_add hl.settled_whole hwhole hadd
  obtain ⟨later, hlater⟩ := Instant.exists_addHours?_of_le hhours
  refine ⟨_, settle_eq_ok.2 ⟨_, later, hadd, Decimal.le_iff_value.2 ?_, hlater, rfl⟩⟩
  show Coin.value ⟨l.settled.denom, amount⟩ ≤ l.total.value
  linarith

/-! ## Whole hours -/

theorem wordOf?_natCast {n : ℕ} (h : n < UInt64.size) : wordOf? n = some (UInt64.ofNat n) :=
  if_pos ⟨Int.natCast_nonneg n, by exact_mod_cast h⟩

/-- What is left is the price of the other hours, if what is settled is the price of whole
hours. -/
theorem value_unsettled_of_settled_hours (hl : l.Valid) {k : ℕ}
    (hk : l.settled.value = l.pricePerHour.value * k) (hle : k ≤ l.hours.toNat) {left : Coin}
    (hleft : l.unsettled = .ok left) :
    left.value = l.pricePerHour.value * ((l.hours.toNat - k : ℕ) : ℚ) := by
  rw [value_unsettled hl hleft, hl.total_eq, hk, Nat.cast_sub hle, mul_sub]

/-- The hours of which nothing is settled, if what is settled is the price of whole hours. -/
theorem remainingHours_of_settled_hours (hl : l.Valid) {k : ℕ}
    (hk : l.settled.value = l.pricePerHour.value * k) (hle : k ≤ l.hours.toNat) :
    l.remainingHours = .ok (UInt64.ofNat (l.hours.toNat - k)) := by
  obtain ⟨left, hleft⟩ := exists_unsettled hl
  obtain ⟨m, hm⟩ := hl.price.whole
  have hsize : l.hours.toNat - k < UInt64.size :=
    Nat.lt_of_le_of_lt (Nat.sub_le _ _) l.hours.toNat_lt
  have hquotient : left.amount.value = ((l.hours.toNat - k : ℕ) : ℤ) * (m : ℚ) := by
    have hvalue : left.amount.value = _ := value_unsettled_of_settled_hours hl hk hle hleft
    rw [hvalue, Coin.value, hm, mul_comm, Int.cast_natCast]
  have hm0 : m ≠ 0 := by
    rintro rfl
    have hpos : 0 < l.pricePerHour.amount.value := hl.price_pos
    rw [hm, Int.cast_zero] at hpos
    exact lt_irrefl _ hpos
  have hcapacity : (((l.hours.toNat - k : ℕ) : ℤ)).natAbs < Decimal.capacity :=
    Nat.lt_trans hsize (by decide)
  obtain ⟨hours, hdiv, hhours⟩ := Decimal.div?_of_value hquotient hm hm0 hcapacity
  have hnegative : ¬ hours.isNegative = true := by
    rw [Decimal.isNegative_iff, hhours, not_lt]
    exact_mod_cast Nat.zero_le _
  simp only [remainingHours, hleft, hdiv, bind, Except.bind]
  rw [if_neg hnegative, Decimal.ceil_of_value hhours, wordOf?_natCast hsize]
  rfl

/-- The hours that can be billed: those that have passed, up to those that are left. -/
def dueHours (l : Lease) (k : ℕ) (now : Instant) : ℕ :=
  min (now.hoursSince l.settledAt).toNat (l.hours.toNat - k)

theorem dueHours_lt (l : Lease) (k : ℕ) (now : Instant) : l.dueHours k now < UInt64.size :=
  Nat.lt_of_le_of_lt (Nat.min_le_left _ _) (now.toNat_hoursSince_lt l.settledAt)

theorem toNat_min_ofNat {m n : ℕ} (hm : m < UInt64.size) (hn : n < UInt64.size) :
    min (UInt64.ofNat m) (UInt64.ofNat n) = UInt64.ofNat (min m n) := by
  have hmin : min m n < UInt64.size := Nat.lt_of_le_of_lt (Nat.min_le_left _ _) hm
  rw [← UInt64.toNat_inj, toNat_min, UInt64.toNat_ofNat_of_lt' hm, UInt64.toNat_ofNat_of_lt' hn,
    UInt64.toNat_ofNat_of_lt' hmin]

/-- The price of the due hours is in range, as it is at most what is left. -/
theorem exists_times_dueHours (hl : l.Valid) {k : ℕ}
    (hk : l.settled.value = l.pricePerHour.value * k) (hle : k ≤ l.hours.toNat) (now : Instant)
    {left : Coin} (hleft : l.unsettled = .ok left) :
    ∃ due, l.pricePerHour.times (UInt64.ofNat (l.dueHours k now)) = .ok due ∧
      due.value = l.pricePerHour.value * l.dueHours k now ∧ due.value ≤ left.value := by
  have hword : (UInt64.ofNat (l.dueHours k now)).toNat = l.dueHours k now :=
    UInt64.toNat_ofNat_of_lt' (l.dueHours_lt k now)
  have hcost : l.pricePerHour.value * (l.dueHours k now : ℚ) ≤ left.value := by
    rw [value_unsettled_of_settled_hours hl hk hle hleft]
    refine mul_le_mul_of_nonneg_left ?_ hl.price_pos.le
    exact_mod_cast Nat.min_le_right _ _
  obtain ⟨due, hdue⟩ := Coin.exists_times_of_le (n := UInt64.ofNat (l.dueHours k now)) hl.price
    (whole_unsettled hl hleft) (hword.symm ▸ hcost)
  have hvalue := Coin.value_times hl.price.whole hdue
  rw [hword] at hvalue
  exact ⟨due, hdue, hvalue, hvalue.trans_le hcost⟩

/-- Nothing accrues without due hours, and else exactly their price. -/
theorem accrualAt_of_settled_hours (hl : l.Valid) {k : ℕ}
    (hk : l.settled.value = l.pricePerHour.value * k) (hle : k ≤ l.hours.toNat) (now : Instant) :
    (l.dueHours k now = 0 ∧ l.accrualAt now = .ok none) ∨
    (0 < l.dueHours k now ∧ ∃ amount, amount.denom = l.total.denom ∧
      amount.value = l.pricePerHour.value * l.dueHours k now ∧
      l.accrualAt now = .ok (some ⟨UInt64.ofNat (l.dueHours k now), amount⟩)) := by
  obtain ⟨left, hleft⟩ := exists_unsettled hl
  obtain ⟨due, hdue, hduevalue, hcost⟩ := exists_times_dueHours hl hk hle now hleft
  have hpositive : left.isPositive = true ↔ k < l.hours.toNat := by
    have hvalue : left.amount.value = _ := value_unsettled_of_settled_hours hl hk hle hleft
    rw [Coin.isPositive, Decimal.isPositive_iff, hvalue, mul_pos_iff_of_pos_left hl.price_pos,
      Nat.cast_pos, Nat.sub_pos_iff_lt]
  have hremaining := remainingHours_of_settled_hours hl hk hle
  have hsize : l.hours.toNat - k < UInt64.size :=
    Nat.lt_of_le_of_lt (Nat.sub_le _ _) l.hours.toNat_lt
  have haccrual : l.accrualAt now =
      if now.hoursSince l.settledAt < 1 then .ok none
      else if (!left.isPositive) = true then .ok none
      else .ok (some ⟨UInt64.ofNat (l.dueHours k now), left.denom, due.amount.min left.amount⟩) := by
    simp only [accrualAt, hleft, hremaining, bind, Except.bind]
    rw [toNat_min_ofNat (now.toNat_hoursSince_lt l.settledAt) hsize,
      show UInt64.ofNat (min _ _) = UInt64.ofNat (l.dueHours k now) from rfl, hdue]
    rfl
  rw [haccrual]
  -- Due hours need a whole hour that has passed and an hour that is left.
  by_cases helapsed : now.hoursSince l.settledAt < 1
  · refine .inl ⟨?_, if_pos helapsed⟩
    rw [dueHours, show (now.hoursSince l.settledAt).toNat = 0 by omega, Nat.zero_min]
  · rw [if_neg helapsed]
    by_cases hopen : k < l.hours.toNat
    · refine .inr ⟨?_, ⟨left.denom, due.amount.min left.amount⟩,
        (unsettled_eq_ok.1 hleft).1, ?_, ?_⟩
      · rw [dueHours]
        omega
      · show (due.amount.min left.amount).value = _
        rw [Decimal.value_min, ← hduevalue]
        exact min_eq_left hcost
      · rw [if_neg (by simp [hpositive.2 hopen])]
    · refine .inl ⟨?_, if_pos ?_⟩
      · rw [dueHours]
        omega
      · rw [Bool.not_eq_true', ← Bool.not_eq_true, hpositive]
        exact hopen

end Lease

end LeaseEscrow
