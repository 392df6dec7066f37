import LeaseEscrow.Proofs.Commission
import LeaseEscrow.Proofs.Keeper.Solvency

/-!
# Payouts of a solvent keeper

Whatever a solvent keeper has to pay, it can pay: a lease that is stored can be settled and its
rest be refunded, and the deposits of a closed resource can be refunded. None of the steps on the
way fails, neither the arithmetic nor the transfers nor the records that they change.
-/

namespace LeaseEscrow

/-! ## Transfers -/

namespace Bank

variable {b : Bank} {source target : Account} {coin : Coin}

theorem exists_sent (target : Account) (hb : b.current.Balanced) (hcoin : coin.Valid)
    (hle : coin.value ≤ (b.amount ⟨source, coin.denom⟩).value) :
    ∃ b', Keeper.Sent b source target coin b' := by
  unfold Keeper.Sent
  by_cases hzero : coin.isZero = true
  · exact ⟨b, by rw [if_pos hzero]⟩
  · obtain ⟨b', h⟩ := exists_transfer target hb hcoin hle
    exact ⟨b', by rw [if_neg hzero]; exact h⟩

/-- What is left for the rest after a first payment. -/
theorem exists_sent_and_left (target : Account) (hb : b.current.Balanced) (hcoin : coin.Valid)
    {rest : ℚ} (hrest : 0 ≤ rest)
    (hle : coin.value + rest ≤ (b.amount ⟨source, coin.denom⟩).value) :
    ∃ b', Keeper.Sent b source target coin b' ∧ b'.current.Balanced ∧
      rest ≤ (b'.amount ⟨source, coin.denom⟩).value := by
  obtain ⟨b', hsent⟩ := exists_sent target hb hcoin (by linarith)
  refine ⟨b', hsent, balanced_sent hb hsent, ?_⟩
  have hleft := le_amount_paid hb hsent coin.denom
  rw [Coin.valueIn, if_pos rfl] at hleft
  linarith

end Bank

namespace Keeper

variable {c : Config} {k k' : Keeper Bank} {b : Block} {id : ResourceId}

theorem exists_paidOut {bank : Bank} {config : Config} {owner : Account} {parts : Split}
    {amount : Coin} (hb : bank.current.Balanced) (hparts : parts.PartsOf amount)
    (hpayment : parts.payment.Valid) (hfee : parts.feeCollector.Valid)
    (hpool : parts.communityPool.Valid)
    (hle : amount.value ≤ (bank.amount ⟨config.escrow, amount.denom⟩).value) :
    ∃ bank', PaidOut config owner parts bank bank' := by
  have hfee0 := hfee.nonneg
  have hpool0 := hpool.nonneg
  rw [← hparts.sum_eq, add_assoc, ← hparts.payment] at hle
  obtain ⟨bank₁, hsent₁, hb₁, hle₁⟩ := Bank.exists_sent_and_left owner hb hpayment
    (add_nonneg hfee0 hpool0) hle
  rw [hparts.payment, ← hparts.feeCollector] at hle₁
  obtain ⟨bank₂, hsent₂, hb₂, hle₂⟩ := Bank.exists_sent_and_left
    config.feeCollector hb₁ hfee hpool0 hle₁
  rw [hparts.feeCollector, ← hparts.communityPool] at hle₂
  obtain ⟨bank₃, hsent₃⟩ := Bank.exists_sent config.communityPool hb₂ hpool hle₂
  exact ⟨bank₃, bank₁, bank₂, hsent₁, hsent₂, hsent₃⟩

theorem exists_refunded {bank : Bank} {escrow : Account} {denom : String} {deposits : List Deposit}
    (hb : bank.current.Balanced)
    (hd : ∀ d ∈ deposits, d.amount.Valid ∧ d.amount.denom = denom)
    (hle : (deposits.map fun d => d.amount.value).sum ≤ (bank.amount ⟨escrow, denom⟩).value) :
    ∃ bank', Refunded escrow deposits bank bank' := by
  induction deposits generalizing bank with
  | nil => exact ⟨bank, rfl⟩
  | cons d deposits ih =>
    obtain ⟨hvalid, hdenom⟩ := hd d List.mem_cons_self
    have hrest : ∀ d' ∈ deposits, d'.amount.Valid ∧ d'.amount.denom = denom := fun d' hd' =>
      hd d' (List.mem_cons_of_mem _ hd')
    have hnonneg : 0 ≤ (deposits.map fun d => d.amount.value).sum := by
      refine List.sum_nonneg fun v hv => ?_
      obtain ⟨d', hd', rfl⟩ := List.mem_map.1 hv
      exact (hrest d' hd').1.nonneg
    rw [List.map_cons, List.sum_cons, ← hdenom] at hle
    obtain ⟨next, hsent, hnext, hleft⟩ := Bank.exists_sent_and_left d.depositor hb
      hvalid hnonneg hle
    obtain ⟨bank', hrefunded⟩ := ih hnext hrest (hdenom ▸ hleft)
    exact ⟨bank', next, hsent, hrefunded⟩

/-! ## What escrow holds for single records -/

section

variable {p : Params} (hl : k.registry.Laid) (hp : k.registry.market.Sound p)

include hl hp

theorem depositsIn_nonneg {x : Resource} (hx : x ∈ k.registry.resourceList) (denom : String) :
    0 ≤ x.depositsIn denom := by
  obtain ⟨total, htotal⟩ := (resource_of_mem hl hp hx).1.summable
  obtain ⟨hvalid, -, hvalue⟩ := depositsIn_of_mem hl hp hx htotal
  rw [hvalue]
  split
  · exact hvalid.nonneg
  · exact le_rfl

theorem owedIn_nonneg {l : Lease} (hmem : l ∈ k.registry.leaseList) (denom : String) :
    0 ≤ l.owedIn denom := by
  obtain ⟨left, hleft⟩ := Lease.exists_unsettled (lease_of_mem hl hp hmem).1
  obtain ⟨hvalid, -, hvalue⟩ := owedIn_of_mem hl hp hmem hleft
  rw [hvalue]
  split
  · exact hvalid.nonneg
  · exact le_rfl

theorem sums_nonneg (denom : String) :
    (∀ v ∈ k.registry.resourceList.map (·.depositsIn denom), 0 ≤ v) ∧
      ∀ v ∈ k.registry.leaseList.map (·.owedIn denom), 0 ≤ v := by
  constructor
  · intro v hv
    obtain ⟨x, hx, rfl⟩ := List.mem_map.1 hv
    exact depositsIn_nonneg hl hp hx denom
  · intro v hv
    obtain ⟨l, hmem, rfl⟩ := List.mem_map.1 hv
    exact owedIn_nonneg hl hp hmem denom

theorem depositsIn_le_owed {x : Resource} (hx : x ∈ k.registry.resourceList) (denom : String) :
    x.depositsIn denom ≤ k.registry.owed denom := by
  obtain ⟨hresources, hleases⟩ := sums_nonneg hl hp denom
  have hle := List.single_le_sum hresources _ (List.mem_map_of_mem hx)
  have hnonneg := List.sum_nonneg hleases
  rw [Registry.owed]
  linarith

theorem owedIn_le_owed {l : Lease} (hmem : l ∈ k.registry.leaseList) (denom : String) :
    l.owedIn denom ≤ k.registry.owed denom := by
  obtain ⟨hresources, hleases⟩ := sums_nonneg hl hp denom
  have hle := List.single_le_sum hleases _ (List.mem_map_of_mem hmem)
  have hnonneg := List.sum_nonneg hresources
  rw [Registry.owed]
  linarith

end

/-! ## Settlement -/

theorem exists_endLease (hl : k.registry.Laid) {x : Resource}
    (hx : k.registry.market.resource id = some x) : ∃ k', k.run (endLease id) = (.ok (), k') := by
  have hold := Registry.lease?_eq hl id
  obtain ⟨r, hr⟩ : ∃ r, (do return (← k.registry.deleteLease id).2 : Except Refusal Registry) =
      .ok r := by
    simp only [Registry.deleteLease, hold]
    exact ⟨_, rfl⟩
  obtain ⟨⟨found, r'⟩, hdelete, hr'⟩ := bind_eq_ok.1 hr
  obtain rfl := pure_eq_ok.1 hr'
  obtain ⟨hlaid, hmarket⟩ := Registry.deleteLease_eq_ok hl hdelete
  have hx' : r'.market.resource id = some x := by
    rw [hmarket]
    exact hx
  obtain ⟨r'', hset⟩ := hlaid.exists_setResource { x with leased := false }
  exact ⟨_, run_change_bind_eq_ok.2 ⟨r', hr, run_read_bind_eq_ok.2
    ⟨x, (Registry.resource_eq_ok hlaid).2 hx', run_change_eq_ok.2 ⟨r'', hset, rfl⟩⟩⟩⟩

theorem exists_finishSettlement (hl : k.registry.Laid) {x : Resource}
    (hx : k.registry.market.resource id = some x) (lease : Lease) (paid : Coin) :
    ∃ outcome k', k.run (finishSettlement b id lease paid) = (.ok outcome, k') := by
  unfold finishSettlement
  split
  · obtain ⟨k', hend⟩ := exists_endLease hl hx
    exact ⟨_, _, run_bind_eq_ok.2 ⟨(), k', hend, run_emit_bind_eq_ok.2 (run_pure_eq_ok.2
      ⟨rfl, rfl⟩)⟩⟩
  · obtain ⟨r, hset⟩ := hl.exists_setLease lease
    exact ⟨_, _, run_change_bind_eq_ok.2 ⟨r, hset, run_pure_eq_ok.2 ⟨rfl, rfl⟩⟩⟩

theorem Solvent.lease_covered (hk : k.Solvent c) {l : Lease}
    (hlease : k.registry.market.lease id = some l) (denom : String) :
    l.owedIn denom ≤ (k.ledger.amount ⟨k.config.escrow, denom⟩).value := by
  obtain ⟨hl, p, hp⟩ := hk.sound
  have hid := (hp.lease hlease).id_eq
  have hmem := ((Registry.isTable_leases hl).mem_iff l).2 (hid.symm ▸ hlease)
  rw [hk.config_eq]
  exact (owedIn_le_owed hl hp hmem denom).trans (hk.covered denom)

/-- Whatever escrow holds, an accrual is split into valid parts, and the records of its payment can
be made. -/
theorem exists_parts {l : Lease} (hvalid : l.Valid) {p : Params} (hp : p.Valid) {t : Instant}
    {a : Accrual} (haccrual : l.accrualAt t = .ok (some a)) :
    ∃ parts lease commission, p.split a.amount = .ok parts ∧
      (parts.payment.Valid ∧ parts.feeCollector.Valid ∧ parts.communityPool.Valid) ∧
      l.settle a = .ok lease ∧ parts.feeCollector.add parts.communityPool = .ok commission := by
  obtain ⟨hdenom, hwhole, hnonneg⟩ := Lease.accrual_of_accrualAt hvalid haccrual
  obtain ⟨parts, hparts, hsplits⟩ := Params.exists_split hp hwhole hnonneg
  have hpartsOf := hsplits.toPartsOf
  have hdenoms : Coin.isDenom a.amount.denom = true :=
    hdenom.trans hvalid.total_denom ▸ hvalid.price.denom
  have hpayment := hsplits.valid hdenoms _ (Split.mem_coins.2 (.inl rfl))
  have hfee := hsplits.valid hdenoms _ (Split.mem_coins.2 (.inr (.inl rfl)))
  have hpool := hsplits.valid hdenoms _ (Split.mem_coins.2 (.inr (.inr rfl)))
  obtain ⟨lease, hsettle⟩ := Lease.exists_settle hvalid haccrual
  have hsum := hpartsOf.sum_eq
  obtain ⟨amount, hadd⟩ := Decimal.exists_add? hfee.whole hpool.whole hwhole hfee.nonneg
    hpool.nonneg (show parts.feeCollector.value + parts.communityPool.value ≤ a.amount.value by
      linarith [hpayment.nonneg])
  have hcommission : parts.feeCollector.add parts.communityPool =
      .ok ⟨parts.feeCollector.denom, amount⟩ :=
    Coin.add_eq_ok.2 ⟨hpartsOf.communityPool.trans hpartsOf.feeCollector.symm, rfl, hadd⟩
  exact ⟨parts, lease, _, hparts, ⟨hpayment, hfee, hpool⟩, hsettle, hcommission⟩

/-- The payment of an accrual, and the records of it, succeed. -/
theorem exists_payment (hk : k.Solvent c) {l : Lease}
    (hlease : k.registry.market.lease id = some l) {p : Params} (hp : p.Valid) {a : Accrual}
    (haccrual : l.accrualAt b.time = .ok (some a)) :
    ∃ parts ledger lease commission, p.split a.amount = .ok parts ∧
      PaidOut k.config l.owner parts k.ledger ledger ∧ l.settle a = .ok lease ∧
      parts.feeCollector.add parts.communityPool = .ok commission := by
  obtain ⟨hl, q, hq⟩ := hk.sound
  have hvalid := (hq.lease hlease).valid
  obtain ⟨hdenom, hwhole, -⟩ := Lease.accrual_of_accrualAt hvalid haccrual
  obtain ⟨accrual, haccrual', hbounds⟩ := Lease.exists_accrualAt hvalid b.time
  obtain rfl := Except.ok.inj (haccrual.symm.trans haccrual')
  obtain ⟨parts, lease, commission, hparts, ⟨hpayment, hfee, hpool⟩, hsettle, hcommission⟩ :=
    exists_parts hvalid hp haccrual
  -- What accrues is within what the lease owes, and escrow covers that.
  have hle : a.amount.value ≤ (k.ledger.amount ⟨k.config.escrow, a.amount.denom⟩).value := by
    obtain ⟨left, hleft⟩ := Lease.exists_unsettled hvalid
    have hleftdenom := (Lease.unsettled_eq_ok.1 hleft).1
    have howed := hk.lease_covered hlease a.amount.denom
    rw [Lease.owedIn_eq_valueIn hvalid hleftdenom (Lease.value_unsettled hvalid hleft),
      Coin.valueIn, if_pos (hleftdenom.trans hdenom.symm), Lease.value_unsettled hvalid hleft] at howed
    exact (hbounds a rfl).1.trans howed
  obtain ⟨ledger, hpaid⟩ := exists_paidOut hk.balanced (Params.partsOf_split hwhole hparts)
    hpayment hfee hpool hle
  exact ⟨parts, ledger, lease, commission, hparts, hpaid, hsettle, hcommission⟩

/-- A lease that is stored can be settled at any time. -/
theorem exists_settleLease (hk : k.Solvent c) {l : Lease}
    (hlease : k.registry.market.lease id = some l) (b : Block) :
    ∃ outcome k', k.run (settleLease b id) = (.ok outcome, k') := by
  obtain ⟨hl, p, hp⟩ := hk.sound
  obtain ⟨x, hx, -⟩ := (hp.lease hlease).owner
  obtain ⟨accrual, haccrual, -⟩ := Lease.exists_accrualAt (hp.lease hlease).valid b.time
  have hlease' := (Registry.lease_eq_ok hl).2 hlease
  have hparams := Registry.params_eq_ok.2 hp.params_eq
  simp only [settleLease, run_read_bind_eq_ok, run_lift_bind_eq_ok]
  cases accrual with
  | none =>
    by_cases hfully : l.isFullySettled = true
    · obtain ⟨outcome, k', h⟩ := exists_finishSettlement hl hx l (.zero l.total.denom)
      refine ⟨outcome, k', l, hlease', p, hparams, none, haccrual, ?_⟩
      simp only [if_pos hfully]
      exact h
    · refine ⟨.idle, k, l, hlease', p, hparams, none, haccrual, ?_⟩
      simp only [if_neg hfully]
      rfl
  | some a =>
    obtain ⟨parts, ledger, lease, commission, hparts, ⟨ledger₁, ledger₂, hsent₁, hsent₂, hsent₃⟩,
      hsettle, hadd⟩ := exists_payment hk hlease hp.params_valid haccrual
    let paid : Keeper Bank := { k with
      ledger
      events := k.events ++ [⟨.leasePaymentSettled, b.height, some id,
        .settlement lease.owner parts.payment commission lease.settled lease.total⟩] }
    obtain ⟨outcome, k', h⟩ := exists_finishSettlement (k := paid) (b := b) hl hx lease a.amount
    refine ⟨outcome, k', l, hlease', p, hparams, some a, haccrual, ?_⟩
    simp only [run_lift_bind_eq_ok, run_refusal_bind_eq_ok, run_configNow_bind_eq_ok,
      run_send_bind_eq_ok, run_emit_bind_eq_ok]
    exact ⟨parts, hparts, ledger₁, hsent₁, ledger₂, hsent₂, ledger, hsent₃, lease, hsettle,
      commission, hadd, h⟩

/-! ## Cancellation -/

theorem exists_refundLease (hk : k.Solvent c) {l : Lease}
    (hlease : k.registry.market.lease id = some l) :
    ∃ refund k', k.run (refundLease id) = (.ok refund, k') := by
  obtain ⟨hl, p, hp⟩ := hk.sound
  have hvalid := (hp.lease hlease).valid
  obtain ⟨x, hx, -⟩ := (hp.lease hlease).owner
  obtain ⟨left, hleft⟩ := Lease.exists_unsettled hvalid
  have hmem := ((Registry.isTable_leases hl).mem_iff l).2
    ((hp.lease hlease).id_eq.symm ▸ hlease)
  obtain ⟨hleftvalid, -, -⟩ := owedIn_of_mem hl hp hmem hleft
  have hcovered := hk.lease_covered hlease left.denom
  rw [Lease.owedIn_eq_valueIn hvalid (Lease.unsettled_eq_ok.1 hleft).1
    (Lease.value_unsettled hvalid hleft), Coin.valueIn, if_pos rfl] at hcovered
  obtain ⟨ledger, hsent⟩ := Bank.exists_sent l.lessee hk.balanced hleftvalid hcovered
  obtain ⟨k', hend⟩ := exists_endLease (k := { k with ledger }) hl hx
  exact ⟨left, k', run_read_bind_eq_ok.2 ⟨l, (Registry.lease_eq_ok hl).2 hlease,
    run_lift_bind_eq_ok.2 ⟨left, hleft, run_configNow_bind_eq_ok.2 (run_send_bind_eq_ok.2
      ⟨ledger, hsent, run_bind_eq_ok.2 ⟨(), k', hend, run_pure_eq_ok.2 ⟨rfl, rfl⟩⟩⟩)⟩⟩⟩

/-- The lessee of a lease that is stored can cancel it at any time. -/
theorem exists_cancellation (hk : k.Solvent c) {l : Lease}
    (hlease : k.registry.market.lease id = some l) (b : Block) :
    ∃ reply k', k.run (performCancellation b ⟨id, l.lessee⟩) = (.ok reply, k') := by
  have hl := hk.sound.1
  obtain ⟨outcome, k₁, hsettle⟩ := exists_settleLease hk hlease b
  have hsettled := settleLease_done hl hsettle
  have hk₁ : k₁.Solvent c := hk.paidOut (hsettled.accounted hk.sound)
  have hrefund : ∃ refunded k₂,
      k₁.run (refundRest id (.zero l.total.denom) outcome) = (.ok refunded, k₂) := by
    have hrest : ∀ {l'}, k₁.registry.market.lease id = some l' →
        ∃ refunded k₂, k₁.run (refundLease id) = (.ok refunded, k₂) := exists_refundLease hk₁
    cases hsettled with
    | idle => exact hrest hlease
    | spent => exact ⟨_, _, rfl⟩
    | last => exact ⟨_, _, rfl⟩
    | @paid _ lease' _ _ _ _ _ hlease' _ _ _ _ hpaid _ hturned =>
      have hplace := Registry.resourceId_of_market hl hlease'
      have hid : lease'.plain.resourceId = id := by
        obtain ⟨_, _, -, -, -, rfl⟩ := Lease.settle_eq_ok.1 hpaid
        exact hplace
      have hstored : k₁.registry.market.lease id = some lease'.plain := by
        rw [hturned.market_eq]
        exact hid ▸ Market.lease_withLease _ _
      exact hrest hstored
  obtain ⟨refunded, k₂, hrefund⟩ := hrefund
  exact ⟨_, _, run_read_bind_eq_ok.2 ⟨l, (Registry.lease_eq_ok hl).2 hlease,
    run_refusal_bind_eq_ok.2 ⟨(), require_eq_ok.2 rfl, run_bind_eq_ok.2 ⟨outcome, k₁, hsettle,
      run_bind_eq_ok.2 ⟨refunded, k₂, hrefund, run_emit_bind_eq_ok.2 (run_pure_eq_ok.2
        ⟨rfl, rfl⟩)⟩⟩⟩⟩⟩

/-! ## Closing and releasing -/

/-- A resource can be closed by its owner when it is neither closed nor leased. -/
theorem exists_closing (hk : k.Sound) {x : Resource}
    (hx : k.registry.market.resource id = some x) (hopen : x.status ≠ .closed)
    (hfree : x.leased = false) (b : Block) :
    ∃ k', k.run (performClosing b ⟨id, x.owner⟩) = (.ok (), k') := by
  obtain ⟨hl, p, hp⟩ := hk
  obtain ⟨total, htotal⟩ := (hp.resource hx).valid.summable
  have hbecome : x.become .closed = .ok { x with status := .closed } := by
    have hnext : x.status.canBecome .closed = true := by
      cases hstatus : x.status with
      | pending => rfl
      | active => rfl
      | closed => exact absurd hstatus hopen
    rw [Resource.become, check_bind_eq_ok, require_eq_ok]
    exact ⟨hnext, rfl⟩
  obtain ⟨r, hset⟩ := hl.exists_setResource { x with status := .closed, closedAt := some b.time }
  simp only [performClosing, run_read_bind_eq_ok, run_refusal_bind_eq_ok, run_change_bind_eq_ok,
    run_emit_eq_ok]
  have hnotleased : (!x.leased) = true := by rw [hfree, Bool.not_false]
  have hdetail : detailOf { x with status := .closed, closedAt := some b.time } =
      .ok (.resource x.owner .closed total) := bind_eq_ok.2 ⟨total, htotal, rfl⟩
  exact ⟨_, x, (Registry.resource_eq_ok hl).2 hx, (), require_eq_ok.2 rfl, (),
    require_eq_ok.2 hopen, (), require_eq_ok.2 hnotleased, _, hbecome, r, hset,
    _, hdetail, rfl⟩

/-- The deposits of a closed resource can be released. -/
theorem exists_releaseDeposits (hk : k.Solvent c) {x : Resource}
    (hx : k.registry.market.resource id = some x) (hclosed : x.status = .closed) (b : Block) :
    ∃ refunds k', k.run (releaseDeposits b id) = (.ok refunds, k') := by
  obtain ⟨hl, p, hp⟩ := hk.sound
  have hfits := hp.resource hx
  have hx' := (Registry.resource_eq_ok hl).2 hx
  have hstatus : x.expectStatus .closed = .ok () := require_eq_ok.2 hclosed
  by_cases hempty : x.deposits.isEmpty = true
  · refine ⟨[], k, run_read_bind_eq_ok.2 ⟨x, hx', run_refusal_bind_eq_ok.2 ⟨(), hstatus, ?_⟩⟩⟩
    rw [if_pos hempty]
    rfl
  · have hdeposits : ∀ d ∈ x.deposits, d.amount.Valid ∧ d.amount.denom = p.denom := fun d hd =>
      ⟨(hfits.valid.deposits d hd).amount,
        (hfits.valid.deposits d hd).denom_eq.trans hfits.denom_eq⟩
    have hle : (x.deposits.map fun d => d.amount.value).sum ≤
        (k.ledger.amount ⟨k.config.escrow, p.denom⟩).value := by
      have hmem := ((Registry.isTable_resources hl).mem_iff x).2 (hfits.id_eq.symm ▸ hx)
      have hsum : x.depositsIn p.denom = (x.deposits.map fun d => d.amount.value).sum :=
        congrArg List.sum (List.map_congr_left fun d hd => if_pos (hdeposits d hd).2)
      rw [← hsum, hk.config_eq]
      exact (depositsIn_le_owed hl hp hmem p.denom).trans (hk.covered p.denom)
    obtain ⟨ledger, hrefunded⟩ := exists_refunded hk.balanced hdeposits hle
    obtain ⟨r, hset⟩ : ∃ r, k.registry.setResource { x with deposits := [] } = .ok r := by
      simp only [Registry.setResource, Registry.resource?_eq hl]
      exact ⟨_, rfl⟩
    let refunds := x.deposits.map fun d => (d.depositor, d.amount)
    let released : Keeper Bank := { k with
      registry := r, ledger
      events := k.events ++ [⟨.depositsReleased, b.height, some id, .release refunds⟩] }
    refine ⟨refunds, released, run_read_bind_eq_ok.2 ⟨x, hx', run_refusal_bind_eq_ok.2
      ⟨(), hstatus, ?_⟩⟩⟩
    rw [if_neg hempty, run_configNow_bind_eq_ok, run_bind_eq_ok]
    exact ⟨(), _, run_refunds_eq_ok.2 ⟨ledger, hrefunded, rfl⟩, run_change_bind_eq_ok.2
      ⟨r, hset, run_emit_bind_eq_ok.2 (run_pure_eq_ok.2 ⟨rfl, rfl⟩)⟩⟩

end Keeper

end LeaseEscrow
