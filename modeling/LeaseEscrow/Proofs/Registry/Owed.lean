import LeaseEscrow.Proofs.Lease
import LeaseEscrow.Proofs.Registry.Sound
import LeaseEscrow.Proofs.Registry.Tables

/-!
# What a registry owes

In each denomination: the deposits on all resources, and of all leases what is not settled yet.
A change of the records of one id changes it by what these records owe (`owed_add`).
-/

namespace LeaseEscrow

namespace Resource

/-- What is deposited on the resource in one denomination. -/
def depositsIn (x : Resource) (denom : String) : ℚ :=
  (x.deposits.map fun d => d.amount.valueIn denom).sum

theorem depositsIn_plain (x : Resource) (denom : String) :
    x.plain.depositsIn denom = x.depositsIn denom := by
  simp only [depositsIn, plain, Deposit.plain, List.map_map, Function.comp_def, Coin.valueIn_plain]

/-- The deposits of a valid resource are all of one denomination, and their total is in it. -/
theorem depositsIn_eq_valueIn {x : Resource} (hx : x.Valid) {total : Coin}
    (htotal : x.totalDeposit = .ok total) (denom : String) :
    x.depositsIn denom = total.valueIn denom := by
  have hwhole : ∀ c ∈ x.deposits.map Deposit.amount, c.amount.Whole := by
    intro c hc
    obtain ⟨d, hd, rfl⟩ := List.mem_map.1 hc
    exact (hx.deposits d hd).amount.whole
  have htotaldenom : total.denom = x.pricePerHour.denom :=
    (Coin.foldlM_add_eq_ok Decimal.whole_zero hwhole htotal).1
  rw [depositsIn, Coin.valueIn, Coin.value_sum hwhole htotal, List.map_map, htotaldenom]
  by_cases hdenom : x.pricePerHour.denom = denom
  · rw [if_pos hdenom]
    refine congrArg List.sum (List.map_congr_left fun d hd => ?_)
    exact if_pos ((hx.deposits d hd).denom_eq.trans hdenom)
  · rw [if_neg hdenom]
    refine List.sum_eq_zero fun v hv => ?_
    obtain ⟨d, hd, rfl⟩ := List.mem_map.1 hv
    exact if_neg fun h => hdenom ((hx.deposits d hd).denom_eq.symm.trans h)

end Resource

namespace Lease

/-- What of the lease is neither paid out nor refunded in one denomination. -/
def owedIn (l : Lease) (denom : String) : ℚ := l.total.valueIn denom - l.settled.valueIn denom

theorem owedIn_plain (l : Lease) (denom : String) : l.plain.owedIn denom = l.owedIn denom := by
  rw [owedIn, owedIn, plain, Coin.valueIn_plain, Coin.valueIn_plain]

/-- A valid lease owes what is left of it. -/
theorem owedIn_eq_valueIn {l : Lease} (hl : l.Valid) {c : Coin} (hdenom : c.denom = l.total.denom)
    (hvalue : c.value = l.total.value - l.settled.value) (denom : String) :
    l.owedIn denom = c.valueIn denom := by
  have hsettled : l.settled.denom = l.total.denom := hl.settled_denom.trans hl.total_denom.symm
  rw [owedIn, Coin.valueIn, Coin.valueIn, Coin.valueIn, hdenom, hsettled, hvalue]
  split
  · rfl
  · exact sub_zero 0

theorem owedIn_eq_zero {l : Lease} (hl : l.Valid) (hfully : l.isFullySettled = true)
    (denom : String) : l.owedIn denom = 0 := by
  have heq := le_antisymm (isFullySettled_iff.1 hfully) hl.settled_le
  rw [owedIn_eq_valueIn hl (c := .zero l.total.denom) rfl (by rw [Coin.value_zero, heq, sub_self])]
  exact Coin.valueIn_of_value_eq_zero (Coin.value_zero _) denom

/-- A new lease owes its price, a settlement takes off what it pays out, and an extension adds
what it costs. -/
theorem owedIn_start {id : ResourceId} {lessee owner : Account} {price cost : Coin} {hours : UInt64}
    {now : Instant} {l : Lease} (hcost : price.times hours = .ok cost)
    (h : start id lessee owner price hours now = .ok l) (denom : String) :
    l.owedIn denom = cost.valueIn denom := by
  obtain ⟨total, htotal, rfl⟩ := start_eq_ok.1 h
  obtain rfl := Except.ok.inj (hcost.symm.trans htotal)
  rw [owedIn, Coin.valueIn_of_value_eq_zero (Coin.value_zero _), sub_zero]

theorem owedIn_settle {l l' : Lease} {a : Accrual} (hl : l.Valid) (ha : a.amount.amount.Whole)
    (h : l.settle a = .ok l') (denom : String) :
    l'.owedIn denom = l.owedIn denom - a.amount.valueIn denom := by
  obtain ⟨settled, settledAt, hadd, -, -, rfl⟩ := settle_eq_ok.1 h
  show l.total.valueIn denom - settled.valueIn denom = _
  rw [Coin.valueIn_add hl.settled_whole ha hadd, owedIn]
  ring

theorem owedIn_extend {l l' : Lease} {extra : UInt64} {cost : Coin} (hl : l.Valid)
    (hcost : l.pricePerHour.times extra = .ok cost) (h : l.extend extra = .ok l')
    (denom : String) : l'.owedIn denom = l.owedIn denom + cost.valueIn denom := by
  obtain ⟨-, cost', total, hcost', hadd, rfl⟩ := extend_eq_ok.1 h
  obtain rfl := Except.ok.inj (hcost.symm.trans hcost')
  show total.valueIn denom - l.settled.valueIn denom = _
  rw [Coin.valueIn_add hl.total_whole (Coin.whole_times hl.price.whole hcost) hadd, owedIn]
  ring

end Lease

namespace Market

/-- What the records of one id owe. -/
def owedAt (m : Market) (id : ResourceId) (denom : String) : ℚ :=
  ((m.resource id).map (·.depositsIn denom)).getD 0 + ((m.lease id).map (·.owedIn denom)).getD 0

variable {m : Market} {id : ResourceId} {x : Resource} {l : Lease}

theorem owedAt_leased (hx : m.resource id = some x) (hl : m.lease id = some l) (denom : String) :
    m.owedAt id denom = x.depositsIn denom + l.owedIn denom := by
  rw [owedAt, hx, hl]
  rfl

theorem owedAt_free (hx : m.resource id = some x) (hl : m.lease id = none) (denom : String) :
    m.owedAt id denom = x.depositsIn denom := by
  rw [owedAt, hx, hl]
  exact add_zero _

theorem owedAt_absent (hx : m.resource id = none) (hl : m.lease id = none) (denom : String) :
    m.owedAt id denom = 0 := by
  rw [owedAt, hx, hl]
  exact add_zero 0

theorem owedAt_withResource {old : Resource} (hold : m.resource x.id = some old) (denom : String) :
    (m.withResource x).owedAt x.id denom + old.depositsIn denom =
      m.owedAt x.id denom + x.depositsIn denom := by
  have hlease : (m.withResource x).lease x.id = m.lease x.id := rfl
  rw [owedAt, owedAt, hold, resource_withResource, hlease]
  simp only [Option.map_some, Option.getD_some]
  ring

theorem owedAt_withLease {old : Lease} (hold : m.lease l.resourceId = some old)
    (denom : String) :
    (m.withLease l).owedAt l.resourceId denom + old.owedIn denom =
      m.owedAt l.resourceId denom + l.owedIn denom := by
  have hresource : (m.withLease l).resource l.resourceId = m.resource l.resourceId := rfl
  rw [owedAt, owedAt, hold, lease_withLease, hresource]
  simp only [Option.map_some, Option.getD_some]
  ring

end Market

namespace Registry

def owed (r : Registry) (denom : String) : ℚ :=
  (r.resourceList.map (·.depositsIn denom)).sum + (r.leaseList.map (·.owedIn denom)).sum

theorem owed_congr {r r' : Registry} (h : r ≈ r') : r.owed = r'.owed := by
  funext denom
  rw [owed, owed, resourceList, resourceList, leaseList, leaseList, equiv_def.1 h]

theorem owed_of_no_records {r : Registry} (h : r.Laid) (hresource : ∀ id, r.market.resource id = none)
    (hlease : ∀ id, r.market.lease id = none) (denom : String) : r.owed denom = 0 := by
  have hresources : r.resourceList = [] := List.eq_nil_iff_forall_not_mem.2 fun x hx => by
    cases (hresource x.id).symm.trans (((isTable_resources h).mem_iff x).1 hx)
  have hleases : r.leaseList = [] := List.eq_nil_iff_forall_not_mem.2 fun l hl => by
    cases (hlease l.resourceId).symm.trans (((isTable_leases h).mem_iff l).1 hl)
  rw [owed, hresources, hleases]
  exact add_zero 0

/-- Markets with the same records owe the same. -/
theorem owed_of_same {r r' : Registry} (h : r.Laid) (h' : r'.Laid)
    (hresource : r'.market.resource = r.market.resource)
    (hlease : r'.market.lease = r.market.lease) : r'.owed = r.owed := by
  have hresources := (hresource ▸ isTable_resources h').perm (isTable_resources h)
  have hleases := (hlease ▸ isTable_leases h').perm (isTable_leases h)
  funext denom
  rw [owed, owed, (hresources.map _).sum_eq, (hleases.map _).sum_eq]

theorem owed_add {r r' : Registry} (h : r.Laid) (h' : r'.Laid) {id : ResourceId}
    (hsame : Market.SameOff id r.market r'.market) (denom : String) :
    r'.owed denom + r.market.owedAt id denom = r.owed denom + r'.market.owedAt id denom := by
  have hresources := (isTable_resources h).sum_add (isTable_resources h')
    (fun _ _ => id_of_market h) (fun _ _ => id_of_market h') (fun j hj => (hsame j hj).1)
    (·.depositsIn denom)
  have hleases := (isTable_leases h).sum_add (isTable_leases h')
    (fun _ _ => resourceId_of_market h) (fun _ _ => resourceId_of_market h')
    (fun j hj => (hsame j hj).2) (·.owedIn denom)
  rw [owed, owed, Market.owedAt, Market.owedAt]
  linarith

end Registry

end LeaseEscrow
