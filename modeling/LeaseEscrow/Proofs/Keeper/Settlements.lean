import LeaseEscrow.Proofs.Keeper.Sound
import LeaseEscrow.Proofs.Keeper.Steps

/-!
# The settlements in a run

A run settles a lease when its host asks for that lease and when a block comes to it. What counts
is each settlement that succeeds: when it happened, and the balances before and after it. A
cancellation is a last settlement, after which the rest goes back to the lessee (`Cancelled`).
-/

namespace LeaseEscrow

/-- The coin was sent from one account to the other, and no other balance changed. -/
def Moved (source target : Account) (coin : Coin) (book book' : Book) : Prop :=
  ∃ ledger : Bank, Keeper.Sent (.ofValue book) source target coin ledger ∧ ledger.current = book'

/-- A settlement of a lease that succeeded. -/
structure Settlement where
  time : Instant
  before : Book
  after : Book

/-- All that the settlement moved is an amount out of escrow, in parts for the owner, the fee
collector and the community pool. -/
def Settlement.Pays (config : Config) (owner : Account) (amount : Coin) (s : Settlement) : Prop :=
  ∃ (parts : Split) (book₁ book₂ : Book), parts.PartsOf amount ∧
    Moved config.escrow owner parts.payment s.before book₁ ∧
    Moved config.escrow config.feeCollector parts.feeCollector book₁ book₂ ∧
    Moved config.escrow config.communityPool parts.communityPool book₂ s.after

/-- The settlements pay so much in all. -/
inductive PaidInAll (config : Config) (owner : Account) (denom : String) :
    List Settlement → ℚ → Prop where
  | nil : PaidInAll config owner denom [] 0
  | snoc {ss : List Settlement} {total : ℚ} {s : Settlement} {amount : Coin}
      (before : PaidInAll config owner denom ss total) (pays : s.Pays config owner amount)
      (denom_eq : amount.denom = denom) :
      PaidInAll config owner denom (ss ++ [s]) (total + amount.value)

namespace Keeper

/-! ## Settlements of one lease -/

/-- The settlement of the lease of `id` at this moment, if it succeeds. -/
def settling (k : Keeper Bank) (b : Block) (id : ResourceId) : List Settlement :=
  match k.run (branch (settleLease b id)) with
  | (.ok _, k') => [⟨b.time, k.ledger.current, k'.ledger.current⟩]
  | (.error _, _) => []

/-- The settlements of the lease of `id` while a block settles these leases in turn. -/
def settlingEach (b : Block) (id : ResourceId) :
    List ResourceId → Report → Keeper Bank → List Settlement
  | [], _, _ => []
  | j :: ids, report, k =>
    (if j = id then k.settling b id else []) ++
      match k.run (Engine.settleOne b report j) with
      | (.ok report', k') => settlingEach b id ids report' k'
      | (.error _, _) => []

/-- The settlements of the lease of `id` in a step of the host. -/
def settlements (k : Keeper Bank) (id : ResourceId) : Step → List Settlement
  | .settle b j => if j = id then k.settling b id else []
  | .beginBlock e b =>
    if e.lastHeight.all (· < b.height) then
      match k.registry.leaseIds with
      | .ok ids => settlingEach b id ids (.empty b.height) k
      | .error _ => []
    else []
  | _ => []

/-- The settlements of the lease of `id` in a run. -/
def settlementsOf (id : ResourceId) : Keeper Bank → List Step → List Settlement
  | _, [] => []
  | k, s :: steps => k.settlements id s ++ settlementsOf id (k.next s) steps

/-! ## Balances -/

variable {ledger ledger' ledger₁ : Bank} {source target : Account} {coin : Coin}

theorem moved_zero (book : Book) {coin : Coin} (h : coin.isZero = true) :
    Moved source target coin book book :=
  ⟨.ofValue book, (if_pos h).mpr rfl, rfl⟩

/-- Sending depends on the balances alone. -/
theorem Sent.moved (h : Sent ledger source target coin ledger') :
    Moved source target coin ledger.current ledger'.current := by
  unfold Sent at h
  split at h
  · next hzero =>
    subst h
    exact moved_zero _ hzero
  · next hpos =>
    have hbook := (Bank.writes_transfer source target coin).book ledger
      (.ofValue ledger.current) rfl
    have htransfer : (ledger.transfer source target coin).map Journaled.current =
        .ok ledger'.current := congrArg (Except.map Journaled.current) h
    rw [htransfer] at hbook
    obtain ⟨moved, hmoved, hcurrent⟩ := map_eq_ok.1 hbook.symm
    exact ⟨moved, (if_neg hpos).mpr hmoved, hcurrent⟩

/-- What `PaidOut` says of ledgers, said of a settlement. -/
theorem PaidOut.pays {config : Config} {owner : Account} {parts : Split} {amount : Coin}
    (h : PaidOut config owner parts ledger ledger') (hparts : parts.PartsOf amount)
    (t : Instant) :
    Settlement.Pays config owner amount ⟨t, ledger.current, ledger'.current⟩ := by
  obtain ⟨ledger₁, ledger₂, hpayment, hfee, hpool⟩ := h
  exact ⟨parts, ledger₁.current, ledger₂.current, hparts, hpayment.moved, hfee.moved, hpool.moved⟩

/-- A settlement that moves nothing pays nothing. -/
theorem pays_zero (config : Config) (owner : Account) (denom : String) (t : Instant)
    (book : Book) : Settlement.Pays config owner (.zero denom) ⟨t, book, book⟩ := by
  have hzero : (Coin.zero denom).isZero = true := Coin.isZero_iff.2 (Coin.value_zero denom)
  refine ⟨⟨.zero denom, .zero denom, .zero denom⟩, book, book, ⟨rfl, rfl, rfl, ?_⟩,
    moved_zero book hzero, moved_zero book hzero, moved_zero book hzero⟩
  rw [Coin.value_zero, add_zero, add_zero]

/-! ## Cancellations -/

/-- What accrued is paid out of escrow, the rest of what was not settled before goes from there
back to the lessee, and the lease is gone. -/
structure Cancelled (b : Block) (l : Lease) (reply : Reply.Cancelled) (k k' : Keeper Bank) :
    Prop where
  moved : ∃ book : Book,
    Settlement.Pays k.config l.owner reply.settled ⟨b.time, k.ledger.current, book⟩ ∧
      Moved k.config.escrow l.lessee reply.refunded book k'.ledger.current
  denoms : reply.settled.denom = l.total.denom ∧ reply.refunded.denom = l.total.denom
  rest : reply.settled.value + reply.refunded.value = l.total.value - l.settled.value
  gone : k'.registry.lease l.resourceId = .error (.leaseNotFound l.resourceId)

variable {k k' : Keeper Bank} {b : Block} {id : ResourceId} {l : Lease}

/-- What a settlement reports is what it pays out. -/
theorem Settled.pays {outcome : Outcome} (hk : k.Sound)
    (hlease : k.registry.market.lease id = some l) (h : Settled b id k outcome k') :
    let settled := outcome.amount?.getD (.zero l.total.denom)
    Settlement.Pays k.config l.owner settled ⟨b.time, k.ledger.current, k'.ledger.current⟩ ∧
      settled.denom = l.total.denom := by
  obtain ⟨hl, p, hp⟩ := hk
  have hvalid := (hp.lease hlease).valid
  cases h with
  | idle => exact ⟨pays_zero _ _ _ _ _, rfl⟩
  | spent hstored _ _ _ hturned =>
    obtain rfl := Option.some.inj (hlease.symm.trans hstored)
    exact ⟨hturned.ledger_eq ▸ pays_zero _ _ _ _ _, rfl⟩
  | paid hstored _ hsome hparts hpaid _ _ hturned =>
    obtain rfl := Option.some.inj (hlease.symm.trans hstored)
    obtain ⟨hdenom, hwhole, -⟩ := Lease.accrual_of_accrualAt hvalid hsome
    exact ⟨hturned.ledger_eq ▸ hpaid.pays (Params.partsOf_split hwhole hparts) _, hdenom⟩
  | last hstored _ hsome hparts hpaid _ _ _ hturned =>
    obtain rfl := Option.some.inj (hlease.symm.trans hstored)
    obtain ⟨hdenom, hwhole, -⟩ := Lease.accrual_of_accrualAt hvalid hsome
    exact ⟨hturned.ledger_eq ▸ hpaid.pays (Params.partsOf_split hwhole hparts) _, hdenom⟩

/-- A last settlement settles all that is left of the lease, any other one leaves the rest of it. -/
theorem Settled.rest {outcome : Outcome} (hk : k.Sound)
    (hlease : k.registry.market.lease id = some l) (h : Settled b id k outcome k') :
    let settled := outcome.amount?.getD (.zero l.total.denom)
    (∃ paid, outcome = .completed paid) ∧ k'.registry.market.lease id = none ∧
        settled.value = l.total.value - l.settled.value ∨
      (∀ paid, outcome ≠ .completed paid) ∧ ∃ l', k'.registry.market.lease id = some l' ∧
        l'.lessee = l.lessee ∧ l'.total.denom = l.total.denom ∧
        settled.value + (l'.total.value - l'.settled.value) =
          l.total.value - l.settled.value := by
  obtain ⟨hl, p, hp⟩ := hk
  have hvalid := (hp.lease hlease).valid
  have hnothing : (Coin.zero l.total.denom).value = 0 := Coin.value_zero _
  -- What is settled adds up, and never to more than the total.
  have hsum : ∀ {a l'}, l.accrualAt b.time = .ok (some a) → l.settle a = .ok l' →
      l'.settled.value = l.settled.value + a.amount.value ∧
        l'.settled.value ≤ l.total.value := by
    intro a l' hsome hsettle
    obtain ⟨-, hwhole, -⟩ := Lease.accrual_of_accrualAt hvalid hsome
    obtain ⟨settled, _, hadd, hle, -, rfl⟩ := Lease.settle_eq_ok.1 hsettle
    exact ⟨Coin.value_add hvalid.settled_whole hwhole hadd, Decimal.le_iff_value.1 hle⟩
  cases h with
  | idle hstored =>
    refine .inr ⟨nofun, l, hlease, rfl, rfl, ?_⟩
    rw [Outcome.amount?, Option.getD_none, hnothing, zero_add]
  | spent hstored _ hfully hx hturned =>
    obtain rfl := Option.some.inj (hlease.symm.trans hstored)
    obtain rfl := Registry.id_of_market hl hx
    have hall := Lease.isFullySettled_iff.1 hfully
    have hle := hvalid.settled_le
    refine .inl ⟨⟨_, rfl⟩, hturned.market_eq ▸ Market.lease_ended _ _, ?_⟩
    rw [Outcome.amount?, Option.getD_some, hnothing]
    linarith
  | @paid lease lease' _ a _ _ _ hstored _ hsome _ _ hsettle _ hturned =>
    obtain rfl := Option.some.inj (hlease.symm.trans hstored)
    have hid := Registry.resourceId_of_market hl hlease
    obtain ⟨hvalue, -⟩ := hsum hsome hsettle
    obtain ⟨settled, settledAt, -, -, -, rfl⟩ := Lease.settle_eq_ok.1 hsettle
    refine .inr ⟨nofun, ({ l with settled, settledAt } : Lease).plain, ?_, rfl, rfl, ?_⟩
    · rw [hturned.market_eq, ← hid]
      exact Market.lease_withLease _ (Lease.plain _)
    · show a.amount.value + (l.total.plain.value - settled.plain.value) = _
      rw [Coin.value_plain, Coin.value_plain, show settled.value = _ from hvalue]
      ring
  | @last lease lease' _ a _ _ _ _ hstored _ hsome _ _ hsettle hfully hx hturned =>
    obtain rfl := Option.some.inj (hlease.symm.trans hstored)
    obtain rfl := Registry.id_of_market hl hx
    obtain ⟨hvalue, hle⟩ := hsum hsome hsettle
    have hall : lease'.total.value ≤ lease'.settled.value := Lease.isFullySettled_iff.1 hfully
    obtain ⟨settled, _, -, -, -, rfl⟩ := Lease.settle_eq_ok.1 hsettle
    refine .inl ⟨⟨_, rfl⟩, hturned.market_eq ▸ Market.lease_ended _ _, ?_⟩
    show a.amount.value = _
    linarith

/-- A cancellation that succeeds is of a stored lease, and does all of this. -/
theorem performCancellation_cancelled {m : Message.CancelLease} {reply : Reply.Cancelled}
    (hk : k.Sound) (h : k.run (performCancellation b m) = (.ok reply, k')) :
    ∃ l, k.registry.market.lease m.id = some l ∧ Cancelled b l reply k k' := by
  obtain ⟨l, outcome, k₁, hlease, -, hsettled, hreply, -, hend⟩ := performCancellation_done hk.1 h
  have hplace := Registry.resourceId_of_market hk.1 hlease
  have hsound := hsettled.sound hk
  have hlaid := (sound_cancellation hk h).1
  obtain ⟨hpays, hdenom⟩ := hsettled.pays hk hlease
  have hrest := hsettled.rest hk hlease
  rw [← hreply] at hpays hdenom hrest
  refine ⟨l, hlease, ?_⟩
  rcases hend with ⟨⟨paid, hdone⟩, hnothing, hturned⟩ | ⟨hrunning, k₂, hrefund, hturned⟩
  · obtain ⟨-, hgone, hall⟩ := hrest.resolve_right fun h => h.1 paid hdone
    have hzero : reply.refunded.value = 0 := hnothing ▸ Coin.value_zero _
    refine ⟨⟨k₁.ledger.current, hpays, ?_⟩, ⟨hdenom, hnothing ▸ rfl⟩, ?_, ?_⟩
    · rw [hturned.ledger_eq]
      exact moved_zero _ (Coin.isZero_iff.2 hzero)
    · rw [hzero, hall, add_zero]
    · rw [Registry.lease_eq_notFound hlaid, hturned.market_eq, hplace]
      exact hgone
  · obtain ⟨-, l', hlease', hlessee, htotal, hvalue⟩ :=
      hrest.resolve_left fun h => h.1.elim hrunning
    obtain ⟨l₁, x, ledger, hlease₁, hunsettled, hsent, hx, hended⟩ :=
      refundLease_done hsound.1 hrefund
    obtain rfl := Option.some.inj (hlease'.symm.trans hlease₁)
    obtain ⟨hl₁, p, hp⟩ := hsound
    have hid := Registry.id_of_market hl₁ hx
    refine ⟨⟨k₁.ledger.current, hpays, ?_⟩, ⟨hdenom, ?_⟩, ?_, ?_⟩
    · rw [hturned.ledger_eq, hended.ledger_eq, ← hlessee, ← hsettled.config_eq]
      exact hsent.moved
    · exact (Lease.unsettled_eq_ok.1 hunsettled).1.trans htotal
    · rw [Lease.value_unsettled (hp.lease hlease').valid hunsettled]
      exact hvalue
    · rw [Registry.lease_eq_notFound hlaid, hturned.market_eq, hended.market_eq, hplace, ← hid]
      exact Market.lease_ended _ x

theorem cancelLease_cancelled {m : Message.CancelLease} {reply : Reply.Cancelled} (hk : k.Sound)
    (h : k.run (cancelLease b m) = (.ok reply, k')) :
    ∃ l, k.registry.lease m.id = .ok l ∧ Cancelled b l reply k k' := by
  obtain ⟨-, k₁, hperform, rfl⟩ := (run_handle_eq_ok b (m := .cancel m)).1 h
  have hentered := ofContents_sound.congr (enter_equiv k).symm hk
  have hlaid := (sound_cancellation hentered hperform).1
  have hkept := keep_equiv k₁
  obtain ⟨l, hlease, ⟨⟨book, hpays, hmoved⟩, hdenoms, hrest, hgone⟩⟩ :=
    performCancellation_cancelled hentered hperform
  refine ⟨l, ?_, ⟨book, (enter_equiv k).book ▸ hpays, hkept.book ▸ hmoved⟩, hdenoms, hrest, ?_⟩
  · rw [Registry.market_congr (enter_equiv k).registry] at hlease
    exact (Registry.lease_eq_ok hk.1).2 hlease
  · rw [Registry.lease_eq_notFound ((Registry.laid_congr hkept.registry).2 hlaid),
      Registry.market_congr hkept.registry]
    exact (Registry.lease_eq_notFound hlaid).1 hgone

end Keeper

end LeaseEscrow
