import LeaseEscrow.Proofs.Keeper.Request
import LeaseEscrow.Proofs.Keeper.Run
import LeaseEscrow.Proofs.Lease
import LeaseEscrow.Proofs.Registry.Numbering

/-!
# What successful requests did

For each action that succeeds: what it found in the market, what it checked, which coins it
sent, and the market that it left. These are all that the theorems about runs need to know of
the actions.
-/

namespace LeaseEscrow

/-! ## Plain records -/

theorem Coin.plain_plain (c : Coin) : c.plain.plain = c.plain := by
  rw [plain, plain, Decimal.plain_plain]

theorem Lease.plain_plain (l : Lease) : l.plain.plain = l.plain := by
  simp only [plain, Coin.plain_plain]

theorem Params.plain_plain (p : Params) : p.plain.plain = p.plain := by
  simp only [plain, Distribution.plain, Coin.plain_plain, Decimal.plain_plain]

theorem Resource.plain_plain (x : Resource) : x.plain.plain = x.plain := by
  have hdeposit : Deposit.plain ∘ Deposit.plain = Deposit.plain := by
    funext d
    simp only [Function.comp_apply, Deposit.plain, Coin.plain_plain]
  simp only [plain, Coin.plain_plain, List.map_map, hdeposit]

namespace Registry

/-- What is read is plain. -/
theorem plain_of_market_params {r : Registry} {p : Params} (hp : r.market.params = some p) :
    p.plain = p := by
  obtain ⟨record, -, hrecord⟩ := Option.bind_eq_some_iff.1 hp
  cases record <;> cases hrecord
  exact Params.plain_plain _

theorem plain_of_market_resource {r : Registry} {id : ResourceId} {x : Resource}
    (h : r.market.resource id = some x) : x.plain = x := by
  obtain ⟨record, -, hrecord⟩ := Option.bind_eq_some_iff.1 h
  cases record <;> cases hrecord
  exact Resource.plain_plain _

theorem plain_of_market_lease {r : Registry} {id : ResourceId} {l : Lease}
    (h : r.market.lease id = some l) : l.plain = l := by
  obtain ⟨record, -, hrecord⟩ := Option.bind_eq_some_iff.1 h
  cases record <;> cases hrecord
  exact Lease.plain_plain _

end Registry

namespace Keeper

variable {L : Type} {k k' : Keeper L} {b : Block} {id : ResourceId}

/-- `k'` has this market and this ledger, and the configuration of `k`. -/
structure Turned (k k' : Keeper L) (market : Market) (ledger : L) : Prop where
  laid : k'.registry.Laid
  market_eq : k'.registry.market = market
  ledger_eq : k'.ledger = ledger
  config_eq : k'.config = k.config

/-! ## Settlement -/

theorem endLease_done (hl : k.registry.Laid) (h : k.run (endLease id) = (.ok (), k')) :
    ∃ x, k.registry.market.resource id = some x ∧
      Turned k k' (k.registry.market.ended x) k.ledger := by
  simp only [endLease, run_change_bind_eq_ok, run_read_bind_eq_ok, run_change_eq_ok] at h
  obtain ⟨r, hr, x, hx, r', hr', rfl⟩ := h
  obtain ⟨⟨found, s⟩, hdelete, hs⟩ := bind_eq_ok.1 hr
  obtain rfl := pure_eq_ok.1 hs
  obtain ⟨hlaid, hmarket⟩ := Registry.deleteLease_eq_ok hl hdelete
  have hx' := (Registry.resource_eq_ok hlaid).1 hx
  have hid := Registry.id_of_market hlaid hx'
  have hplain : ({ x with leased := false } : Resource).plain = { x with leased := false } :=
    congrArg (fun y : Resource => { y with leased := false })
      (Registry.plain_of_market_resource hx')
  obtain ⟨hlaid', hmarket'⟩ := Registry.setResource_eq_ok hlaid hr'
  rw [hmarket] at hx' hmarket'
  refine ⟨x, hx', hlaid', ?_, rfl, rfl⟩
  rw [hmarket', hplain, Market.ended, hid]

theorem finishSettlement_done {lease : Lease} {paid : Coin} {outcome : Outcome}
    (hl : k.registry.Laid) (h : k.run (finishSettlement b id lease paid) = (.ok outcome, k')) :
    (lease.isFullySettled = true ∧ outcome = .completed paid ∧
      ∃ x, k.registry.market.resource id = some x ∧
        Turned k k' (k.registry.market.ended x) k.ledger) ∨
    (lease.isFullySettled = false ∧ outcome = .settled paid ∧
      Turned k k' (k.registry.market.withLease lease.plain) k.ledger) := by
  unfold finishSettlement at h
  split at h
  · next hfully =>
    obtain ⟨_, k₁, hend, h⟩ := run_bind_eq_ok.1 h
    rw [run_emit_bind_eq_ok, run_pure_eq_ok] at h
    obtain ⟨rfl, rfl⟩ := h
    obtain ⟨x, hx, hturned⟩ := endLease_done hl hend
    exact .inl ⟨hfully, rfl, x, hx, hturned.laid, hturned.market_eq, hturned.ledger_eq,
      hturned.config_eq⟩
  · next hfully =>
    simp only [run_change_bind_eq_ok, run_pure_eq_ok] at h
    obtain ⟨r, hr, rfl, rfl⟩ := h
    obtain ⟨hlaid, hmarket⟩ := Registry.setLease_eq_ok hl hr
    exact .inr ⟨Bool.eq_false_iff.2 hfully, rfl, hlaid, hmarket, rfl, rfl⟩

variable [Ledger L]

/-- The three parts of a payment leave escrow one after the other. -/
def PaidOut (config : Config) (owner : Account) (parts : Split) (ledger ledger' : L) : Prop :=
  ∃ ledger₁ ledger₂, Sent ledger config.escrow owner parts.payment ledger₁ ∧
    Sent ledger₁ config.escrow config.feeCollector parts.feeCollector ledger₂ ∧
    Sent ledger₂ config.escrow config.communityPool parts.communityPool ledger'

/-- The ways in which settling the lease of `id` succeeds. -/
inductive Settled (b : Block) (id : ResourceId) (k : Keeper L) : Outcome → Keeper L → Prop where
  | idle {lease : Lease} (hlease : k.registry.market.lease id = some lease)
      (hnone : lease.accrualAt b.time = .ok none) (hopen : lease.isFullySettled = false) :
      Settled b id k .idle k
  /-- All was settled before. -/
  | spent {lease : Lease} {x : Resource} {k' : Keeper L}
      (hlease : k.registry.market.lease id = some lease)
      (hnone : lease.accrualAt b.time = .ok none) (hfully : lease.isFullySettled = true)
      (hx : k.registry.market.resource id = some x)
      (hturned : Turned k k' (k.registry.market.ended x) k.ledger) :
      Settled b id k (.completed (.zero lease.total.denom)) k'
  | paid {lease lease' : Lease} {params : Params} {a : Accrual} {parts : Split} {ledger : L}
      {k' : Keeper L} (hlease : k.registry.market.lease id = some lease)
      (hparams : k.registry.market.params = some params)
      (hsome : lease.accrualAt b.time = .ok (some a)) (hparts : params.split a.amount = .ok parts)
      (hpaid : PaidOut k.config lease.owner parts k.ledger ledger)
      (hsettle : lease.settle a = .ok lease') (hopen : lease'.isFullySettled = false)
      (hturned : Turned k k' (k.registry.market.withLease lease'.plain) ledger) :
      Settled b id k (.settled a.amount) k'
  | last {lease lease' : Lease} {params : Params} {a : Accrual} {parts : Split} {ledger : L}
      {x : Resource} {k' : Keeper L} (hlease : k.registry.market.lease id = some lease)
      (hparams : k.registry.market.params = some params)
      (hsome : lease.accrualAt b.time = .ok (some a)) (hparts : params.split a.amount = .ok parts)
      (hpaid : PaidOut k.config lease.owner parts k.ledger ledger)
      (hsettle : lease.settle a = .ok lease') (hfully : lease'.isFullySettled = true)
      (hx : k.registry.market.resource id = some x)
      (hturned : Turned k k' (k.registry.market.ended x) ledger) :
      Settled b id k (.completed a.amount) k'

theorem Settled.laid {outcome : Outcome} (h : Settled b id k outcome k') (hl : k.registry.Laid) :
    k'.registry.Laid := by
  cases h with
  | idle => exact hl
  | spent _ _ _ _ hturned => exact hturned.laid
  | paid _ _ _ _ _ _ _ hturned => exact hturned.laid
  | last _ _ _ _ _ _ _ _ hturned => exact hturned.laid

theorem Settled.config_eq {outcome : Outcome} (h : Settled b id k outcome k') :
    k'.config = k.config := by
  cases h with
  | idle => rfl
  | spent _ _ _ _ hturned => exact hturned.config_eq
  | paid _ _ _ _ _ _ _ hturned => exact hturned.config_eq
  | last _ _ _ _ _ _ _ _ hturned => exact hturned.config_eq

theorem settleLease_done {outcome : Outcome} (hl : k.registry.Laid)
    (h : k.run (settleLease b id) = (.ok outcome, k')) : Settled b id k outcome k' := by
  simp only [settleLease, run_read_bind_eq_ok, run_lift_bind_eq_ok] at h
  obtain ⟨lease, hlease, params, hparams, accrual, haccrual, h⟩ := h
  have hlease' := (Registry.lease_eq_ok hl).1 hlease
  have hparams' := Registry.params_eq_ok.1 hparams
  cases accrual with
  | none =>
    simp only at h
    split at h
    · next hfully =>
      rcases finishSettlement_done hl h with ⟨-, rfl, x, hx, hturned⟩ | ⟨hopen, -, -⟩
      · exact .spent hlease' haccrual hfully hx hturned
      · rw [hfully] at hopen
        cases hopen
    · next hopen =>
      obtain ⟨rfl, rfl⟩ := run_pure_eq_ok.1 h
      exact .idle hlease' haccrual (Bool.eq_false_iff.2 hopen)
  | some a =>
    simp only [run_lift_bind_eq_ok, run_refusal_bind_eq_ok, run_configNow_bind_eq_ok,
      run_send_bind_eq_ok, run_emit_bind_eq_ok] at h
    obtain ⟨parts, hparts, ledger₁, hsent₁, ledger₂, hsent₂, ledger₃, hsent₃, lease', hsettle,
      commission, -, h⟩ := h
    have hpaid : PaidOut k.config lease.owner parts k.ledger ledger₃ :=
      ⟨ledger₁, ledger₂, hsent₁, hsent₂, hsent₃⟩
    rcases finishSettlement_done (by exact hl) h with
      ⟨hfully, rfl, x, hx, hturned⟩ | ⟨hopen, rfl, hturned⟩
    · exact .last hlease' hparams' haccrual hparts hpaid hsettle hfully hx
        ⟨hturned.laid, hturned.market_eq, hturned.ledger_eq, hturned.config_eq⟩
    · exact .paid hlease' hparams' haccrual hparts hpaid hsettle hopen
        ⟨hturned.laid, hturned.market_eq, hturned.ledger_eq, hturned.config_eq⟩

/-- The deposits leave escrow one after the other. -/
def Refunded (escrow : Account) : List Deposit → L → L → Prop
  | [], ledger, ledger' => ledger' = ledger
  | d :: rest, ledger, ledger' =>
    ∃ next, Sent ledger escrow d.depositor d.amount next ∧ Refunded escrow rest next ledger'

theorem run_refunds_eq_ok {escrow : Account} {deposits : List Deposit} {u : Unit} :
    k.run (deposits.forM fun d => send escrow d.depositor d.amount) = (.ok u, k') ↔
      ∃ ledger, Refunded escrow deposits k.ledger ledger ∧ { k with ledger } = k' := by
  induction deposits generalizing k with
  | nil =>
    rw [show ([] : List Deposit).forM (m := Action L) (fun d => send escrow d.depositor d.amount) =
      pure () from rfl, run_pure_eq_ok]
    constructor
    · rintro ⟨-, rfl⟩
      exact ⟨k.ledger, rfl, rfl⟩
    · rintro ⟨_, rfl, rfl⟩
      exact ⟨rfl, rfl⟩
  | cons d rest ih =>
    rw [List.forM_eq_forM, List.forM_cons, run_bind_eq_ok]
    constructor
    · rintro ⟨_, _, hsend, hrest⟩
      obtain ⟨next, hsent, rfl⟩ := run_send_eq_ok.1 hsend
      obtain ⟨ledger, hrefunded, rfl⟩ := ih.1 hrest
      exact ⟨ledger, ⟨next, hsent, hrefunded⟩, rfl⟩
    · rintro ⟨ledger, ⟨next, hsent, hrefunded⟩, rfl⟩
      exact ⟨(), _, run_send_eq_ok.2 ⟨next, hsent, rfl⟩, ih.2 ⟨ledger, hrefunded, rfl⟩⟩

theorem releaseDeposits_done {refunds : List (Account × Coin)} (hl : k.registry.Laid)
    (h : k.run (releaseDeposits b id) = (.ok refunds, k')) :
    ∃ x ledger, k.registry.market.resource id = some x ∧ x.status = .closed ∧
      refunds = x.deposits.map (fun d => (d.depositor, d.amount)) ∧
      Refunded k.config.escrow x.deposits k.ledger ledger ∧
      Turned k k' (k.registry.market.withResource { x with deposits := [] }) ledger := by
  simp only [releaseDeposits, run_read_bind_eq_ok, run_refusal_bind_eq_ok] at h
  obtain ⟨x, hx, _, hstatus, h⟩ := h
  have hx' := (Registry.resource_eq_ok hl).1 hx
  split at h
  · next hempty =>
    -- A resource without deposits is as it would be after a release.
    rw [List.isEmpty_iff] at hempty
    obtain ⟨rfl, rfl⟩ := run_pure_eq_ok.1 h
    have hid := Registry.id_of_market hl hx'
    have hsame : ({ x with deposits := [] } : Resource) = x := by rw [← hempty]
    refine ⟨x, k.ledger, hx', require_eq_ok.1 hstatus, ?_, ?_, hl, ?_, rfl, rfl⟩
    · rw [hempty, List.map_nil]
    · rw [hempty]
      exact rfl
    · rw [hsame, Market.withResource_self (hid.symm ▸ hx')]
  · rw [run_configNow_bind_eq_ok, run_bind_eq_ok] at h
    obtain ⟨_, _, hrefunds, h⟩ := h
    obtain ⟨ledger, hrefunded, rfl⟩ := run_refunds_eq_ok.1 hrefunds
    simp only [run_change_bind_eq_ok, run_emit_bind_eq_ok, run_pure_eq_ok] at h
    obtain ⟨r, hr, rfl, rfl⟩ := h
    obtain ⟨hlaid, hmarket⟩ := Registry.setResource_eq_ok hl hr
    have hplain : ({ x with deposits := [] } : Resource).plain = { x with deposits := [] } :=
      congrArg (fun y : Resource => { y with deposits := [] }) (Registry.plain_of_market_resource hx')
    exact ⟨x, ledger, hx', require_eq_ok.1 hstatus, rfl, hrefunded, hlaid,
      hmarket.trans (by rw [hplain]), rfl, rfl⟩

/-! ## Resources -/

omit [Ledger L] in
theorem chooseId_done {chosen : Option ResourceId} (hl : k.registry.Laid)
    (h : k.run (chooseId chosen) = (.ok id, k')) :
    ∃ nextId, Market.Draws k.registry.market chosen id nextId ∧
      Turned k k' { k.registry.market with nextId } k.ledger := by
  cases chosen with
  | some c =>
    simp only [chooseId, run_read_bind_eq_ok, run_refusal_bind_eq_ok, run_pure_eq_ok] at h
    obtain ⟨_, hstored, _, hfree, rfl, rfl⟩ := h
    cases hstored
    rw [require_eq_ok, Registry.hasResource_eq hl, Bool.not_eq_true',
      Option.isSome_eq_false_iff, Option.isNone_iff_eq_none] at hfree
    exact ⟨_, ⟨hfree, .inl ⟨rfl, rfl⟩⟩, hl, rfl, rfl, rfl⟩
  | none =>
    change k.run (liftM k.registry.allocateId >>= fun p => do setRegistry p.2; pure p.1) = _ at h
    rw [run_bind_eq_ok] at h
    obtain ⟨⟨drawn, r⟩, _, halloc, h⟩ := h
    obtain ⟨hallocated, rfl⟩ := run_liftM_eq_ok.1 halloc
    obtain ⟨n, hn, hr⟩ := bind_eq_ok.1 hallocated
    cases hr
    cases h
    have hfirst := Registry.firstFree_of_firstFree? (inRange_eq_ok.1 hn)
    have hfree := hfirst.free
    rw [Registry.hasResource_eq hl, Option.isSome_eq_false_iff, Option.isNone_iff_eq_none] at hfree
    exact ⟨n + 1, ⟨hfree, .inr ⟨rfl, n, hfirst.le, UInt64.ne_of_lt hfirst.lt, rfl, rfl⟩⟩,
      hl.setNextId _, Registry.market_setNextId _ _, rfl, rfl⟩

/-- How a registration succeeds: the checks, the choice of an id, the payment and the record. -/
inductive Registers (b : Block) (m : Message.RegisterResource) (k : Keeper L) :
    Reply.Registered → Keeper L → Prop where
  | steps {params : Params} {least : Coin} {id : ResourceId} {k₁ : Keeper L} {ledger : L}
      {r : Registry} {detail : EventDetail} (hparams : k.registry.params = .ok params)
      (hprice : m.pricePerHour.denom = params.denom) (hdeposit : m.deposit.denom = params.denom)
      (hleast : params.minInitialDeposit = .ok least) (henough : least.amount ≤ m.deposit.amount)
      (hid : k.run (chooseId m.id) = (.ok id, k₁))
      (hsent : Sent k₁.ledger m.sender k₁.config.escrow m.deposit ledger)
      (hvalid : (registered b m params id).Valid)
      (hset : k₁.registry.setResource (registered b m params id) = .ok r)
      (hdetail : detailOf (registered b m params id) = .ok detail) :
      Registers b m k ⟨id, (registered b m params id).status⟩
        { k₁ with
          registry := r, ledger
          events := k₁.events ++ [⟨.resourceRegistered, b.height, some id, detail⟩] }

theorem registers_of_run {m : Message.RegisterResource} {reply : Reply.Registered}
    (h : k.run (performRegistration b m) = (.ok reply, k')) : Registers b m k reply k' := by
  simp only [performRegistration, run_read_bind_eq_ok, run_refusal_bind_eq_ok,
    run_lift_bind_eq_ok] at h
  obtain ⟨params, hparams, _, hprice, _, hdeposit, least, hleast, _, henough, h⟩ := h
  obtain ⟨id, k₁, hid, h⟩ := run_bind_eq_ok.1 h
  simp only [run_configNow_bind_eq_ok, run_send_bind_eq_ok, run_refusal_bind_eq_ok,
    run_change_bind_eq_ok, run_emit_bind_eq_ok, run_pure_eq_ok] at h
  obtain ⟨ledger, hsent, _, hvalid, r, hr, detail, hdetail, rfl, rfl⟩ := h
  exact .steps hparams (Coin.expectDenom_eq_ok.1 hprice) (Coin.expectDenom_eq_ok.1 hdeposit) hleast
    (require_eq_ok.1 henough) hid hsent (Resource.validate_eq_ok.1 hvalid) hr hdetail

theorem performRegistration_done {m : Message.RegisterResource} {reply : Reply.Registered}
    (hl : k.registry.Laid) (h : k.run (performRegistration b m) = (.ok reply, k')) :
    ∃ params nextId ledger, k.registry.market.params = some params ∧
      m.pricePerHour.denom = params.denom ∧ m.deposit.denom = params.denom ∧
      Market.Draws k.registry.market m.id reply.id nextId ∧
      Sent k.ledger m.sender k.config.escrow m.deposit ledger ∧
      (registered b m params reply.id).Valid ∧
      Turned k k'
        (Market.withResource { k.registry.market with nextId } (registered b m params reply.id))
        ledger := by
  cases registers_of_run h with
  | @steps params _ id k₁ ledger r _ hparams hprice hdeposit _ _ hid hsent hvalid hset _ =>
    obtain ⟨nextId, hdraws, hturned⟩ := chooseId_done hl hid
    obtain ⟨hlaid, hmarket⟩ := Registry.setResource_eq_ok hturned.laid hset
    rw [hvalid.plain_eq, hturned.market_eq] at hmarket
    rw [hturned.ledger_eq, hturned.config_eq] at hsent
    exact ⟨params, nextId, ledger, Registry.params_eq_ok.1 hparams, hprice, hdeposit, hdraws, hsent,
      hvalid, hlaid, hmarket, rfl, hturned.config_eq⟩

omit [Ledger L] in
theorem checkPrice_done {price : Option Coin} (h : k.run (checkPrice price) = (.ok (), k')) :
    k' = k ∧ ∀ p, price = some p →
      ∃ params, k.registry.market.params = some params ∧ p.denom = params.denom := by
  cases price with
  | none =>
    obtain ⟨-, rfl⟩ := run_pure_eq_ok.1 h
    exact ⟨rfl, nofun⟩
  | some price =>
    simp only [checkPrice, run_read_bind_eq_ok, run_liftM_refusal_eq_ok] at h
    obtain ⟨params, hparams, hdenom, rfl⟩ := h
    refine ⟨rfl, ?_⟩
    rintro _ ⟨⟩
    exact ⟨params, Registry.params_eq_ok.1 hparams, Coin.expectDenom_eq_ok.1 hdenom⟩

omit [Ledger L] in
theorem performUpdate_done {m : Message.UpdateResource} (hl : k.registry.Laid)
    (h : k.run (performUpdate b m) = (.ok (), k')) :
    ∃ old, k.registry.market.resource m.id = some old ∧ m.sender = old.owner ∧
      old.status ≠ .closed ∧
      (∀ price, m.pricePerHour = some price →
        ∃ params, k.registry.market.params = some params ∧ price.denom = params.denom) ∧
      (updated m old).Valid ∧
      Turned k k' (k.registry.market.withResource (updated m old)) k.ledger := by
  simp only [performUpdate, run_read_bind_eq_ok, run_refusal_bind_eq_ok] at h
  obtain ⟨old, hold, _, hsender, _, hstatus, h⟩ := h
  obtain ⟨_, k₁, hprice, h⟩ := run_bind_eq_ok.1 h
  simp only [run_refusal_bind_eq_ok, run_change_bind_eq_ok, run_emit_eq_ok] at h
  obtain ⟨_, hvalid, r, hr, detail, -, rfl⟩ := h
  obtain ⟨rfl, hdenom⟩ := checkPrice_done hprice
  have hvalid' := Resource.validate_eq_ok.1 hvalid
  obtain ⟨hlaid, hmarket⟩ := Registry.setResource_eq_ok hl hr
  rw [hvalid'.plain_eq] at hmarket
  exact ⟨old, (Registry.resource_eq_ok hl).1 hold, require_eq_ok.1 hsender, require_eq_ok.1 hstatus,
    hdenom, hvalid', hlaid, hmarket, rfl, rfl⟩

/-- The resource with one more deposit. -/
def deposited (b : Block) (m : Message.AddDeposit) (old : Resource) : Resource :=
  { old with deposits := old.deposits ++ [⟨m.sender, m.amount, b.time⟩] }

theorem activate_eq_ok {params : Params} {total : Coin} {x y : Resource}
    (hstatus : x.status = .pending) :
    activate params total x = .ok y ↔
      y = { x with status := if params.minDeposit.amount ≤ total.amount then .active else .pending } := by
  unfold activate
  split
  · rw [Resource.become, check_bind_eq_ok, require_eq_ok, pure_eq_ok, hstatus]
    exact ⟨fun h => h.2.symm, fun h => ⟨rfl, h.symm⟩⟩
  · rw [Except.ok.injEq, ← hstatus, eq_comm]

theorem performDeposit_done {m : Message.AddDeposit} {reply : Reply.Deposited}
    (hl : k.registry.Laid) (h : k.run (performDeposit b m) = (.ok reply, k')) :
    ∃ params old total status ledger, k.registry.market.params = some params ∧
      k.registry.market.resource m.id = some old ∧ old.status = .pending ∧
      m.amount.denom = params.denom ∧ Sent k.ledger m.sender k.config.escrow m.amount ledger ∧
      (deposited b m old).totalDeposit = .ok total ∧
      status = (if params.minDeposit.amount ≤ total.amount then .active else .pending) ∧
      Turned k k'
        (k.registry.market.withResource { deposited b m old with status }.plain) ledger := by
  simp only [performDeposit, run_read_bind_eq_ok, run_refusal_bind_eq_ok,
    run_configNow_bind_eq_ok, run_send_bind_eq_ok, run_change_bind_eq_ok, run_emit_bind_eq_ok,
    run_pure_eq_ok] at h
  obtain ⟨params, hparams, old, hold, _, hstatus, _, hdenom, ledger, hsent, total, htotal, x, hx, r,
    hr, -, rfl⟩ := h
  have hpending := require_eq_ok.1 hstatus
  obtain rfl := (activate_eq_ok (by exact hpending)).1 hx
  obtain ⟨hlaid, hmarket⟩ := Registry.setResource_eq_ok (by exact hl) hr
  exact ⟨params, old, total, _, ledger, Registry.params_eq_ok.1 hparams,
    (Registry.resource_eq_ok hl).1 hold, hpending, Coin.expectDenom_eq_ok.1 hdenom, hsent, htotal,
    rfl, hlaid, hmarket, rfl, rfl⟩

omit [Ledger L] in
/-- An amount that is not zero is recorded as it is. -/
theorem plain_deposited {m : Message.AddDeposit} {old : Resource}
    (hold : k.registry.market.resource id = some old) (hamount : m.amount.value ≠ 0)
    (status : Status) :
    ({ deposited b m old with status } : Resource).plain = { deposited b m old with status } := by
  have hplain := Registry.plain_of_market_resource hold
  have hprice : old.pricePerHour.plain = old.pricePerHour := congrArg Resource.pricePerHour hplain
  have hdeposits : old.deposits.map Deposit.plain = old.deposits := congrArg Resource.deposits hplain
  simp only [Resource.plain, deposited, List.map_append, List.map_cons, List.map_nil, hprice,
    hdeposits, Deposit.plain, Coin.plain_of_value_ne_zero hamount]

omit [Ledger L] in
theorem performClosing_done {m : Message.CloseResource} (hl : k.registry.Laid)
    (h : k.run (performClosing b m) = (.ok (), k')) :
    ∃ old, k.registry.market.resource m.id = some old ∧ m.sender = old.owner ∧
      old.status ≠ .closed ∧ old.leased = false ∧
      Turned k k' (k.registry.market.withResource
        { old with status := .closed, closedAt := some b.time }) k.ledger := by
  simp only [performClosing, run_read_bind_eq_ok, run_refusal_bind_eq_ok, run_change_bind_eq_ok,
    run_emit_eq_ok] at h
  obtain ⟨old, hold, _, hsender, _, hstatus, _, hleased, x, hx, r, hr, detail, -, rfl⟩ := h
  rw [Resource.become, check_bind_eq_ok, pure_eq_ok] at hx
  obtain ⟨-, rfl⟩ := hx
  have hold' := (Registry.resource_eq_ok hl).1 hold
  have hplain := congrArg (fun y : Resource => { y with status := .closed, closedAt := some b.time })
    (Registry.plain_of_market_resource hold')
  obtain ⟨hlaid, hmarket⟩ := Registry.setResource_eq_ok hl hr
  refine ⟨old, hold', require_eq_ok.1 hsender, require_eq_ok.1 hstatus, ?_, hlaid,
    hmarket.trans (congrArg _ hplain), rfl, rfl⟩
  rw [require_eq_ok, Bool.not_eq_true'] at hleased
  exact hleased

/-! ## Leases -/

theorem performLease_done {m : Message.TakeLease} {reply : Reply.Leased} (hl : k.registry.Laid)
    (h : k.run (performLease b m) = (.ok reply, k')) :
    ∃ params x cost ledger, k.registry.market.params = some params ∧
      k.registry.market.resource m.id = some x ∧ x.status = .active ∧ x.leased = false ∧
      x.pricePerHour.times m.hours = .ok cost ∧ m.amount ≈ cost ∧
      Sent k.ledger m.sender k.config.escrow m.amount ledger ∧
      Lease.start m.id m.sender x.owner x.pricePerHour m.hours b.time = .ok reply.lease ∧
      Turned k k' ((k.registry.market.withLease reply.lease.plain).withResource
        { x with leased := true }) ledger := by
  simp only [performLease, run_read_bind_eq_ok, run_refusal_bind_eq_ok, run_configNow_bind_eq_ok,
    run_send_bind_eq_ok, run_change_bind_eq_ok, run_emit_bind_eq_ok, run_pure_eq_ok] at h
  obtain ⟨params, hparams, x, hx, _, hstatus, _, hleased, _, -, cost, hcost, _, hamount, ledger,
    hsent, lease, hstart, r, hr, r', hr', rfl, rfl⟩ := h
  have hx' := (Registry.resource_eq_ok hl).1 hx
  have hplain := congrArg (fun y : Resource => { y with leased := true })
    (Registry.plain_of_market_resource hx')
  obtain ⟨hlaid, hmarket⟩ := Registry.setLease_eq_ok (by exact hl) hr
  obtain ⟨hlaid', hmarket'⟩ := Registry.setResource_eq_ok (by exact hlaid) hr'
  rw [require_eq_ok, Bool.not_eq_true'] at hleased
  refine ⟨params, x, cost, ledger, Registry.params_eq_ok.1 hparams, hx', require_eq_ok.1 hstatus,
    hleased, hcost, require_eq_ok.1 hamount, hsent, hstart, hlaid', ?_, rfl, rfl⟩
  rw [hmarket', hmarket]
  exact congrArg _ hplain

theorem performExtension_done {m : Message.ExtendLease} {reply : Reply.Leased}
    (hl : k.registry.Laid) (h : k.run (performExtension b m) = (.ok reply, k')) :
    ∃ params old cost ledger, k.registry.market.params = some params ∧
      k.registry.market.lease m.id = some old ∧ m.sender = old.lessee ∧
      old.pricePerHour.times m.hours = .ok cost ∧ m.amount ≈ cost ∧
      old.extend m.hours = .ok reply.lease ∧
      Sent k.ledger m.sender k.config.escrow m.amount ledger ∧
      Turned k k' (k.registry.market.withLease reply.lease.plain) ledger := by
  simp only [performExtension, run_read_bind_eq_ok, run_refusal_bind_eq_ok,
    run_configNow_bind_eq_ok, run_send_bind_eq_ok, run_change_bind_eq_ok, run_emit_bind_eq_ok,
    run_pure_eq_ok] at h
  obtain ⟨params, hparams, old, hold, _, hsender, _, -, cost, hcost, _, hamount, lease, hextend,
    ledger, hsent, r, hr, rfl, rfl⟩ := h
  obtain ⟨hlaid, hmarket⟩ := Registry.setLease_eq_ok (by exact hl) hr
  exact ⟨params, old, cost, ledger, Registry.params_eq_ok.1 hparams,
    (Registry.lease_eq_ok hl).1 hold, require_eq_ok.1 hsender, hcost, require_eq_ok.1 hamount,
    hextend, hsent, hlaid, hmarket, rfl, rfl⟩

theorem refundLease_done {refund : Coin} (hl : k.registry.Laid)
    (h : k.run (refundLease id) = (.ok refund, k')) :
    ∃ lease x ledger, k.registry.market.lease id = some lease ∧
      lease.unsettled = .ok refund ∧
      Sent k.ledger k.config.escrow lease.lessee refund ledger ∧
      k.registry.market.resource id = some x ∧
      Turned k k' (k.registry.market.ended x) ledger := by
  simp only [refundLease, run_read_bind_eq_ok, run_lift_bind_eq_ok, run_configNow_bind_eq_ok,
    run_send_bind_eq_ok] at h
  obtain ⟨lease, hlease, c, hrefund, ledger, hsent, h⟩ := h
  obtain ⟨_, k₁, hend, h⟩ := run_bind_eq_ok.1 h
  obtain ⟨rfl, rfl⟩ := run_pure_eq_ok.1 h
  obtain ⟨x, hx, hturned⟩ := endLease_done (by exact hl) hend
  exact ⟨lease, x, ledger, (Registry.lease_eq_ok hl).1 hlease, hrefund, hsent, hx, hturned.laid,
    hturned.market_eq, hturned.ledger_eq, hturned.config_eq⟩

/-- A cancellation is a settlement, and a refund unless the settlement was the last one. -/
theorem performCancellation_done {m : Message.CancelLease} {reply : Reply.Cancelled}
    (hl : k.registry.Laid) (h : k.run (performCancellation b m) = (.ok reply, k')) :
    ∃ lease outcome k₁, k.registry.market.lease m.id = some lease ∧ m.sender = lease.lessee ∧
      Settled b m.id k outcome k₁ ∧
      reply.settled = outcome.amount?.getD (.zero lease.total.denom) ∧ k₁.registry.Laid ∧
      ((∃ paid, outcome = .completed paid) ∧ reply.refunded = .zero lease.total.denom ∧
          Turned k₁ k' k₁.registry.market k₁.ledger ∨
        (∀ paid, outcome ≠ .completed paid) ∧
          ∃ k₂, k₁.run (refundLease m.id) = (.ok reply.refunded, k₂) ∧
            Turned k₂ k' k₂.registry.market k₂.ledger) := by
  simp only [performCancellation, run_read_bind_eq_ok, run_refusal_bind_eq_ok] at h
  obtain ⟨lease, hlease, _, hsender, h⟩ := h
  obtain ⟨outcome, k₁, hsettle, h⟩ := run_bind_eq_ok.1 h
  obtain ⟨refunded, k₂, hrefund, h⟩ := run_bind_eq_ok.1 h
  simp only [run_emit_bind_eq_ok, run_pure_eq_ok] at h
  obtain ⟨rfl, rfl⟩ := h
  have hsettled := settleLease_done hl hsettle
  have hlaid := hsettled.laid hl
  refine ⟨lease, outcome, k₁, (Registry.lease_eq_ok hl).1 hlease, require_eq_ok.1 hsender,
    hsettled, rfl, hlaid, ?_⟩
  cases outcome with
  | completed paid =>
    obtain ⟨hnothing, rfl⟩ := run_pure_eq_ok.1 hrefund
    exact .inl ⟨⟨paid, rfl⟩, hnothing.symm, hlaid, rfl, rfl, rfl⟩
  | idle =>
    obtain ⟨_, _, _, -, -, -, -, hturned⟩ := refundLease_done hlaid hrefund
    exact .inr ⟨nofun, k₂, hrefund, hturned.laid, rfl, rfl, rfl⟩
  | settled paid =>
    obtain ⟨_, _, _, -, -, -, -, hturned⟩ := refundLease_done hlaid hrefund
    exact .inr ⟨nofun, k₂, hrefund, hturned.laid, rfl, rfl, rfl⟩

/-! ## Parameters -/

omit [Ledger L] in
theorem performParamsUpdate_done {m : Message.UpdateParams} (hl : k.registry.Laid)
    (h : k.run (performParamsUpdate b m) = (.ok (), k')) :
    ∃ old, k.registry.market.params = some old ∧ m.authority = k.config.authority ∧
      (old.denom = m.params.denom ∨ k.registry.resourceList = []) ∧
      Turned k k' { k.registry.market with params := some m.params.plain } k.ledger := by
  -- Whether or not the denomination changes, the update ends in the same way.
  have hchange : k.run (do
      change fun r => return r.setParams m.params
      emit b .paramsUpdated none .params) = (.ok (), k') →
      Turned k k' { k.registry.market with params := some m.params.plain } k.ledger := by
    intro hrest
    simp only [run_change_bind_eq_ok, run_emit_eq_ok] at hrest
    obtain ⟨r, hr, rfl⟩ := hrest
    cases hr
    exact ⟨hl.setParams _, Registry.market_set_params _ _, rfl, rfl⟩
  simp only [performParamsUpdate, run_configNow_bind_eq_ok, run_refusal_bind_eq_ok,
    run_read_bind_eq_ok] at h
  obtain ⟨_, hsender, old, hparams, h⟩ := h
  refine ⟨old, Registry.params_eq_ok.1 hparams, require_eq_ok.1 hsender, ?_⟩
  split at h
  · simp only [run_read_bind_eq_ok, run_refusal_bind_eq_ok] at h
    obtain ⟨resources, hresources, _, hempty, h⟩ := h
    rw [Registry.resources_eq hl] at hresources
    cases hresources
    exact ⟨.inr (List.isEmpty_iff.1 (require_eq_ok.1 hempty)), hchange h⟩
  · next hsame => exact ⟨.inl (not_not.1 hsame), hchange h⟩

end Keeper

end LeaseEscrow
