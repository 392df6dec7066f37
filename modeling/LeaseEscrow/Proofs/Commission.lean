import LeaseEscrow.Proofs.Decimal.Share
import LeaseEscrow.Proofs.Records

/-!
# Commission

Any whole amount can be split under valid parameters, and the parts come to the amount. The rate of
commission is below one, so that the payment keeps at least a unit of any positive amount
(`split_keeps_amount`). Commission is the rate of the amount, cut: the floor of it, but where the
product has more digits than fit and is rounded up to the next whole number
(`split_cuts_commission`).
-/

namespace LeaseEscrow

open Decimal (cut places capacity)

namespace Split

def coins (s : Split) : List Coin := [s.payment, s.feeCollector, s.communityPool]

/-- What is withheld from the payment. -/
def commission (s : Split) : ℚ := s.feeCollector.value + s.communityPool.value

theorem mem_coins {s : Split} {part : Coin} :
    part ∈ s.coins ↔ part = s.payment ∨ part = s.feeCollector ∨ part = s.communityPool := by
  simp only [coins, List.mem_cons, List.not_mem_nil, or_false]

theorem PartsOf.denom_eq {amount : Coin} {s : Split} (h : s.PartsOf amount) :
    ∀ part ∈ s.coins, part.denom = amount.denom := by
  intro part hpart
  rcases mem_coins.1 hpart with rfl | rfl | rfl
  · exact h.payment
  · exact h.feeCollector
  · exact h.communityPool

theorem PartsOf.sum_coins {amount : Coin} {s : Split} (h : s.PartsOf amount) :
    (s.coins.map Coin.value).sum = amount.value := by
  rw [← h.sum_eq, coins]
  simp only [List.map_cons, List.map_nil, List.sum_cons, List.sum_nil]
  ring

end Split

namespace Sample

/-- The greatest rate of commission. -/
def allButTheLast : Params :=
  { Params.default with
    leaseCommission := .ofSmallestUnits 9999999999999999999999999999 (by decide) }

/-- Nine thirteenths of commission. -/
def thirteenths : Params :=
  { Params.default with
    leaseCommission := .ofSmallestUnits 6923076923076923076923076923 (by decide) }

def greatest : Coin := ⟨"umedia", .greatest⟩

end Sample

namespace Params

variable {p : Params} {amount : Coin} {parts : Split}

/-- The parts of an amount, by the rates of the parameters. -/
structure Splits (p : Params) (amount : Coin) (parts : Split) : Prop extends
    parts.PartsOf amount where
  counts : ∀ part ∈ parts.coins, part.amount.Whole ∧ 0 ≤ part.value
  commission_eq : parts.commission = cut (amount.value * p.leaseCommission.value)
  feeCollector_eq : parts.feeCollector.value =
    cut (parts.commission * p.distribution.feeCollector.value)

theorem Valid.feeCollector_le (hp : p.Valid) : p.distribution.feeCollector.value ≤ 1 := by
  have hsum := hp.distribution_sum
  have hpool := hp.communityPool_nonneg
  linarith

/-- Any whole amount can be split. -/
theorem exists_split (hp : p.Valid) (hwhole : amount.amount.Whole) (hnonneg : 0 ≤ amount.value) :
    ∃ parts, p.split amount = .ok parts ∧ p.Splits amount parts := by
  obtain ⟨share, hshare, hcommission, hcommission0, hcommissionle⟩ :=
    Decimal.exists_trunc_share hwhole hnonneg hp.commission_nonneg hp.commission_lt.le
  have hsharewhole := Decimal.whole_trunc share
  obtain ⟨fee, hfee, hfeevalue, hfee0, hfeele⟩ := Decimal.exists_trunc_share hsharewhole
    hcommission0 hp.feeCollector_nonneg hp.feeCollector_le
  have hfeewhole := Decimal.whole_trunc fee
  obtain ⟨pool, hpool⟩ := Decimal.exists_sub? hsharewhole hfeewhole hfee0 hfeele
  obtain ⟨payment, hpayment⟩ := Decimal.exists_sub? hwhole hsharewhole hcommission0 hcommissionle
  have hpoolvalue := Decimal.value_sub? hsharewhole hfeewhole hpool
  have hpaymentvalue := Decimal.value_sub? hwhole hsharewhole hpayment
  have hsplit : p.split amount =
      .ok ⟨⟨amount.denom, payment⟩, ⟨amount.denom, fee.trunc⟩, ⟨amount.denom, pool⟩⟩ := by
    simp only [split, hshare, hfee, hpool, hpayment, Fault.inRange, bind, Except.bind, pure,
      Except.pure]
  have htotal : fee.trunc.value + pool.value = share.trunc.value := by
    rw [hpoolvalue]
    ring
  refine ⟨_, hsplit, { partsOf_split hwhole hsplit with
    counts := ?_, commission_eq := htotal.trans hcommission, feeCollector_eq := ?_ }⟩
  · rintro part hpart
    rcases Split.mem_coins.1 hpart with rfl | rfl | rfl
    · exact ⟨Decimal.whole_sub? hwhole hsharewhole hpayment,
        (sub_nonneg.2 hcommissionle).trans_eq hpaymentvalue.symm⟩
    · exact ⟨hfeewhole, hfee0⟩
    · exact ⟨Decimal.whole_sub? hsharewhole hfeewhole hpool,
        (sub_nonneg.2 hfeele).trans_eq hpoolvalue.symm⟩
  · exact hfeevalue.trans (by rw [← htotal]; rfl)

theorem Splits.valid (h : p.Splits amount parts) (hdenom : Coin.isDenom amount.denom = true) :
    ∀ part ∈ parts.coins, part.Valid := fun part hpart =>
  ⟨h.toPartsOf.denom_eq part hpart ▸ hdenom, (h.counts part hpart).2, (h.counts part hpart).1⟩

theorem Splits.payment_eq (h : p.Splits amount parts) :
    parts.payment.value = amount.value - parts.commission := by
  have hsum := h.sum_eq
  rw [Split.commission]
  linarith

/-- Something of a positive amount is left for the owner. -/
theorem Splits.one_le_payment (h : p.Splits amount parts) (hp : p.Valid)
    (hwhole : amount.amount.Whole) (hpos : 0 < amount.value) : 1 ≤ parts.payment.value := by
  obtain ⟨n, hn⟩ := Coin.exists_natCast hwhole hpos.le
  have hn0 : 0 < n := by
    rw [hn] at hpos
    exact_mod_cast hpos
  have hlt := Decimal.cut_lt_of_share hn0 hp.commission_lt
  rw [h.payment_eq, h.commission_eq, hn]
  have hone : (1 : ℤ) ≤ n - cut (n * p.leaseCommission.value) := by omega
  exact_mod_cast hone

/-- A whole amount is split without a fault into whole parts of its denomination that come to it,
and of a positive one the owner is paid at least a unit. -/
theorem split_keeps_amount (hp : p.validate = .ok ()) (hwhole : amount.amount.Whole)
    (hnonneg : 0 ≤ amount.value) :
    ∃ parts, p.split amount = .ok parts ∧
      (∀ part ∈ parts.coins, part.denom = amount.denom ∧ part.amount.Whole ∧ 0 ≤ part.value) ∧
      (parts.coins.map Coin.value).sum = amount.value ∧
      (0 < amount.value → 1 ≤ parts.payment.value) := by
  have hp := validate_eq_ok.1 hp
  obtain ⟨parts, hsplit, h⟩ := exists_split hp hwhole hnonneg
  exact ⟨parts, hsplit,
    fun part hpart => ⟨h.toPartsOf.denom_eq part hpart, h.counts part hpart⟩,
    h.toPartsOf.sum_coins, h.one_le_payment hp hwhole⟩

/-- Even of the greatest amount, and at the greatest rate, the owner is paid something. -/
theorem greatest_amount_is_kept :
    Sample.allButTheLast.validate = .ok () ∧
      ∃ parts, Sample.allButTheLast.split Sample.greatest = .ok parts ∧
        (parts.coins.map Coin.value).sum = (capacity - 1 : ℕ) ∧ 1 ≤ parts.payment.value := by
  have hvalid : Sample.allButTheLast.validate = .ok () := by decide +kernel
  have hvalue : Sample.greatest.value = (capacity - 1 : ℕ) := Decimal.value_ofNat _ _
  have hpos : 0 < Sample.greatest.value := by
    rw [hvalue]
    exact_mod_cast (by decide : 0 < capacity - 1)
  obtain ⟨parts, hsplit, -, hsum, hpayment⟩ := split_keeps_amount hvalid
    (Decimal.whole_of_scale_zero rfl : Sample.greatest.amount.Whole) hpos.le
  exact ⟨hvalid, parts, hsplit, hsum.trans hvalue, hpayment hpos⟩

/-- Commission is the rate of the amount, cut, and the collector's part the share of it, cut. Where
all digits fit, each is the floor, and commission is never more than half a unit of the last place
above the rate. -/
theorem split_cuts_commission (hp : p.validate = .ok ()) (hwhole : amount.amount.Whole)
    (hnonneg : 0 ≤ amount.value) :
    ∃ parts, p.split amount = .ok parts ∧
      parts.commission = cut (amount.value * p.leaseCommission.value) ∧
      parts.feeCollector.value = cut (parts.commission * p.distribution.feeCollector.value) ∧
      (amount.value * p.leaseCommission.magnitude < capacity →
        parts.commission = ⌊amount.value * p.leaseCommission.value⌋) ∧
      (parts.commission * p.distribution.feeCollector.magnitude < capacity →
        parts.feeCollector.value = ⌊parts.commission * p.distribution.feeCollector.value⌋) ∧
      2 * (parts.commission - amount.value * p.leaseCommission.value) *
        tenPow (places (amount.value * p.leaseCommission.value)) ≤ 1 := by
  have hp := validate_eq_ok.1 hp
  obtain ⟨parts, hsplit, h⟩ := exists_split hp hwhole hnonneg
  obtain ⟨n, hn⟩ := Coin.exists_natCast hwhole hnonneg
  obtain ⟨m, hm⟩ : ∃ m : ℕ, parts.commission = m := by
    have hcut := Decimal.cut_nonneg (mul_nonneg hnonneg hp.commission_nonneg)
    obtain ⟨m, hm⟩ := Int.eq_ofNat_of_zero_le hcut
    exact ⟨m, by rw [h.commission_eq, hm, Int.cast_natCast]⟩
  refine ⟨parts, hsplit, h.commission_eq, h.feeCollector_eq, fun hfits => ?_, fun hfits => ?_, ?_⟩
  · rw [hn] at hfits
    rw [h.commission_eq, hn, (Decimal.exact_share hp.commission_nonneg (by exact_mod_cast hfits)).1]
  · rw [hm] at hfits
    rw [h.feeCollector_eq, hm,
      (Decimal.exact_share hp.feeCollector_nonneg (by exact_mod_cast hfits)).1]
  · rw [h.commission_eq]
    exact Decimal.cut_le _

/-- With the parameters at the start all digits fit, and the tenth is cut to the floor. -/
theorem a_tenth_is_cut :
    ∃ parts, Params.default.split ⟨"umedia", .ofUInt64 1005⟩ = .ok parts ∧
      parts.commission = 100 ∧ parts.feeCollector.value = 50 := by
  have hvalue : (⟨"umedia", .ofUInt64 1005⟩ : Coin).value = 1005 := Decimal.value_ofUInt64 1005
  obtain ⟨parts, hsplit, -, -, hcommission, hfee, -⟩ := split_cuts_commission
    (by decide +kernel : Params.default.validate = .ok ())
    (Decimal.whole_of_scale_zero rfl : (Coin.mk "umedia" (.ofUInt64 1005)).amount.Whole)
    (by rw [hvalue]; norm_num)
  rw [hvalue] at hcommission
  have htenth : parts.commission = 100 := (hcommission (by decide +kernel)).trans (by decide +kernel)
  rw [htenth] at hfee
  exact ⟨parts, hsplit, htenth, (hfee (by decide +kernel)).trans (by decide +kernel)⟩

/-- Nine thirteenths of 13, in 28 digits, have no room for the last of them, are rounded up to 9, and
so are above the rate. -/
theorem nine_thirteenths_are_rounded_up :
    Sample.thirteenths.validate = .ok () ∧
      ∃ parts, Sample.thirteenths.split ⟨"umedia", .ofUInt64 13⟩ = .ok parts ∧
        parts.commission = 9 ∧ ⌊13 * Sample.thirteenths.leaseCommission.value⌋ = 8 ∧
        13 * Sample.thirteenths.leaseCommission.value < parts.commission := by
  refine ⟨by decide +kernel, ⟨⟨"umedia", .ofUInt64 4⟩, ⟨"umedia", .ofUInt64 4⟩,
    ⟨"umedia", .ofUInt64 5⟩⟩, ?_⟩
  decide +kernel

end Params

end LeaseEscrow
