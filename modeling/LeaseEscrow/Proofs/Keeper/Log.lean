import LeaseEscrow.Proofs.Keeper.Escrow
import LeaseEscrow.Proofs.Keeper.Origin
import LeaseEscrow.Proofs.Keeper.Payouts

/-!
# What events tell

Each action that succeeds leaves events, and what these tell of escrow is what the action took into
it and paid out of it. An action that fails leaves none, apart from the report that it failed.
So whoever reads only events knows what escrow holds (`events_tell_escrow`), also when the host
takes them from the keeper between its steps.
-/

namespace LeaseEscrow

namespace Event

/-- What came into escrow of a denomination, as an event tells. -/
def paidIn (denom : String) (ev : Event) : ℚ :=
  match ev.kind, ev.detail with
  | .resourceRegistered, .resource _ _ total => total.valueIn denom
  | .resourceDeposited, .deposit _ amount _ _ => amount.valueIn denom
  | .resourceLeased, .lease _ _ amount _ => amount.valueIn denom
  | .leaseExtended, .lease _ _ amount _ => amount.valueIn denom
  | _, _ => 0

/-- What left escrow of a denomination, as an event tells. -/
def paidOut (denom : String) (ev : Event) : ℚ :=
  match ev.kind, ev.detail with
  | .leasePaymentSettled, .settlement _ payment commission _ _ =>
    payment.valueIn denom + commission.valueIn denom
  | .leaseCancelled, .cancellation _ _ refunded => refunded.valueIn denom
  | .depositsReleased, .release refunds => (refunds.map fun r => r.2.valueIn denom).sum
  | _, _ => 0

/-- What a block tells of records that do not fail: payments, completed leases and releases. -/
def OfBlock (ev : Event) : Prop :=
  ev.kind = .leasePaymentSettled ∨ ev.kind = .leaseCompleted ∨ ev.kind = .depositsReleased

/-- What was settled of the lease of `id` is told in one of these events. -/
def TellPayment (id : ResourceId) (outcome : Outcome) (events : List Event) : Prop :=
  ∀ amount, outcome.amount? = some amount → 0 < amount.value →
    ∃ ev ∈ events, ev.kind = .leasePaymentSettled ∧ ev.resourceId = some id ∧
      ∀ denom, ev.paidOut denom = amount.valueIn denom

/-- What escrow gained of a denomination, as a list of events tells. -/
def gained (denom : String) (events : List Event) : ℚ :=
  (events.map (paidIn denom)).sum - (events.map (paidOut denom)).sum

theorem gained_append (denom : String) (events events' : List Event) :
    gained denom (events ++ events') = gained denom events + gained denom events' := by
  simp only [gained, List.map_append, List.sum_append]
  ring

theorem gained_singleton (denom : String) (ev : Event) :
    gained denom [ev] = ev.paidIn denom - ev.paidOut denom := by
  simp only [gained, List.map_singleton, List.sum_singleton]

end Event

namespace Keeper

variable {α : Type} {c : Config} {k k' k₁ : Keeper Bank} {b : Block} {id : ResourceId}
  {sender : Account → Prop} {f : String → ℚ} {new : List Event} {ev : Event}

/-- These events are what came of a success: they tell of a flow of coins between escrow and the
accounts that the keeper may pay and that pay. -/
structure Logs (sender : Account → Prop) (k k' : Keeper Bank) (new : List Event) : Prop where
  events_eq : k'.events = k.events ++ new
  kind_ne : ∀ ev ∈ new, ev.kind ≠ .settlementFailed
  flow : Flow k.config.escrow (fun a => k.Payee a ∨ sender a) sender k.ledger k'.ledger
    fun denom => Event.gained denom new

theorem Logs.single (hevents : k'.events = k.events ++ [ev]) (hkind : ev.kind ≠ .settlementFailed)
    (hflow : Flow k.config.escrow (fun a => k.Payee a ∨ sender a) sender k.ledger k'.ledger f)
    (hf : ∀ denom, f denom = ev.paidIn denom - ev.paidOut denom) : Logs sender k k' [ev] where
  events_eq := hevents
  kind_ne _ hmem := List.mem_singleton.1 hmem ▸ hkind
  flow := hflow.of_eq fun denom => (hf denom).trans (Event.gained_singleton denom ev).symm

theorem Logs.none (hledger : k'.ledger = k.ledger) (hevents : k'.events = k.events) :
    Logs sender k k' [] where
  events_eq := hevents.trans (List.append_nil _).symm
  kind_ne _ hmem := absurd hmem List.not_mem_nil
  flow := by
    rw [hledger]
    exact (Flow.none _).of_eq fun _ => (sub_zero 0).symm

/-- An event that tells nothing of escrow, which has not changed. -/
theorem Logs.silent (hledger : k'.ledger = k.ledger) (hevents : k'.events = k.events ++ [ev])
    (hkind : ev.kind ≠ .settlementFailed)
    (htells : ∀ denom, ev.paidIn denom = 0 ∧ ev.paidOut denom = 0) : Logs sender k k' [ev] := by
  have hflow : Flow k.config.escrow (fun a => k.Payee a ∨ sender a) sender k.ledger k'.ledger
      fun _ => 0 := by
    rw [hledger]
    exact .none _
  refine .single hevents hkind hflow fun denom => ?_
  rw [(htells denom).1, (htells denom).2, sub_zero]

/-- Who may be paid depends on the market and the configuration. -/
theorem Payee.congr {a : Account} (ha : k.Payee a)
    (hmarket : k.registry.market = k'.registry.market) (hconfig : k.config = k'.config) :
    k'.Payee a := by
  cases ha with
  | named hx ha => exact .named (hmarket ▸ hx) ha
  | lessee hl => exact .lessee (hmarket ▸ hl)
  | feeCollector => exact hconfig ▸ .feeCollector
  | communityPool => exact hconfig ▸ .communityPool

/-- A success and what follows it, when who is paid then could be paid from the start. -/
theorem Logs.trans {new' : List Event} (h : Logs sender k k₁ new) (hconfig : k₁.config = k.config)
    (hpayee : ∀ a, k₁.Payee a → k.Payee a ∨ sender a) (h' : Logs sender k₁ k' new') :
    Logs sender k k' (new ++ new') where
  events_eq := by rw [h'.events_eq, h.events_eq, List.append_assoc]
  kind_ne ev hev := (List.mem_append.1 hev).elim (h.kind_ne ev) (h'.kind_ne ev)
  flow := by
    have hflow := h'.flow
    rw [hconfig] at hflow
    refine (h.flow.trans (hflow.mono (fun ha => ha.elim (hpayee _) .inr) id)).of_eq fun denom => ?_
    rw [Event.gained_append]

/-! ## Settlement -/

theorem events_endLease (h : k.run (endLease id) = (.ok (), k')) :
    k'.ledger = k.ledger ∧ k'.events = k.events := by
  simp only [endLease, run_change_bind_eq_ok, run_read_bind_eq_ok, run_change_eq_ok] at h
  obtain ⟨r, -, x, -, r', -, rfl⟩ := h
  exact ⟨rfl, rfl⟩

theorem logs_finishSettlement {lease : Lease} {paid : Coin} {outcome : Outcome}
    (h : k.run (finishSettlement b id lease paid) = (.ok outcome, k')) :
    outcome.amount? = some paid ∧ ∃ new, Logs sender k k' new ∧ ∀ ev ∈ new, ev.OfBlock := by
  unfold finishSettlement at h
  split at h
  · obtain ⟨_, k₁, hend, h⟩ := run_bind_eq_ok.1 h
    rw [run_emit_bind_eq_ok, run_pure_eq_ok] at h
    obtain ⟨rfl, rfl⟩ := h
    obtain ⟨hledger, hevents⟩ := events_endLease hend
    refine ⟨rfl, _, .silent hledger (congrArg (· ++ _) hevents) (by simp) fun _ => ⟨rfl, rfl⟩, ?_⟩
    exact fun ev hev => List.mem_singleton.1 hev ▸ .inr (.inl rfl)
  · simp only [run_change_bind_eq_ok, run_pure_eq_ok] at h
    obtain ⟨r, -, rfl, rfl⟩ := h
    exact ⟨rfl, [], .none rfl rfl, fun _ hev => absurd hev List.not_mem_nil⟩

/-- An accrual is split into parts of it, and what is told of the parts is all of it. -/
theorem told_parts {l : Lease} {p : Params} {a : Accrual} {parts : Split} {commission : Coin}
    (hl : l.Valid) (hp : p.Valid) (haccrual : l.accrualAt b.time = .ok (some a))
    (hparts : p.split a.amount = .ok parts)
    (hadd : parts.feeCollector.add parts.communityPool = .ok commission) :
    parts.PartsOf a.amount ∧ ∀ denom,
      parts.payment.valueIn denom + commission.valueIn denom = a.amount.valueIn denom := by
  obtain ⟨parts', _, _, hparts', ⟨-, hfee, hpool⟩, -⟩ := exists_parts hl hp haccrual
  obtain rfl := Except.ok.inj (hparts.symm.trans hparts')
  obtain ⟨-, hwhole, -⟩ := Lease.accrual_of_accrualAt hl haccrual
  have hpartsOf := Params.partsOf_split hwhole hparts
  refine ⟨hpartsOf, fun denom => ?_⟩
  rw [Coin.valueIn_add hfee.whole hpool.whole hadd]
  have hsum := hpartsOf.sum_eq
  simp only [Coin.valueIn, hpartsOf.payment, hpartsOf.feeCollector, hpartsOf.communityPool]
  split
  · linarith
  · ring

theorem logs_settleLease {outcome : Outcome} (hk : k.Sound)
    (h : k.run (settleLease b id) = (.ok outcome, k')) :
    ∃ new, Logs sender k k' new ∧ (∀ ev ∈ new, ev.OfBlock) ∧ Event.TellPayment id outcome new := by
  obtain ⟨hl, p, hp⟩ := hk
  simp only [settleLease, run_read_bind_eq_ok, run_lift_bind_eq_ok] at h
  obtain ⟨l, hlease, params, hparams, accrual, haccrual, h⟩ := h
  have hfits := hp.lease ((Registry.lease_eq_ok hl).1 hlease)
  obtain rfl := Option.some.inj (hp.params_eq.symm.trans (Registry.params_eq_ok.1 hparams))
  cases accrual with
  | none =>
    simp only at h
    split at h
    · obtain ⟨hamount, new, hnew, hkinds⟩ := logs_finishSettlement h
      refine ⟨new, hnew, hkinds, fun amount hamount' hpos => ?_⟩
      -- A lease of which all was settled before ends without a payment.
      obtain rfl := Option.some.inj (hamount.symm.trans hamount')
      exact absurd (Coin.value_zero _) hpos.ne'
    · obtain ⟨rfl, rfl⟩ := run_pure_eq_ok.1 h
      exact ⟨[], .none rfl rfl, fun _ hev => absurd hev List.not_mem_nil,
        fun amount hamount => absurd hamount.symm (Option.some_ne_none amount)⟩
  | some a =>
    simp only [run_lift_bind_eq_ok, run_refusal_bind_eq_ok, run_configNow_bind_eq_ok,
      run_send_bind_eq_ok, run_emit_bind_eq_ok] at h
    obtain ⟨parts, hparts, ledger₁, hsent₁, ledger₂, hsent₂, ledger₃, hsent₃, l', hsettle,
      commission, hadd, h⟩ := h
    obtain ⟨hpartsOf, htold⟩ := told_parts hfits.valid hp.params_valid haccrual hparts hadd
    obtain ⟨x, hx, howner⟩ := hfits.owner
    -- The payment is told before the lease is stored or ended.
    let told : Event := ⟨.leasePaymentSettled, b.height, some id,
      .settlement l'.owner parts.payment commission l'.settled l'.total⟩
    let paid : Keeper Bank := { k with ledger := ledger₃, events := k.events ++ [told] }
    have hpaidOut : PaidOut k.config l.owner parts k.ledger ledger₃ :=
      ⟨ledger₁, ledger₂, hsent₁, hsent₂, hsent₃⟩
    have hpaid : Logs sender k paid [told] := by
      refine .single rfl (by simp) (hpaidOut.flow hpartsOf (.inl (.named hx (.inl howner.symm)))
        (.inl .feeCollector) (.inl .communityPool)) fun denom => ?_
      show -a.amount.valueIn denom = 0 - (parts.payment.valueIn denom + commission.valueIn denom)
      rw [htold, zero_sub]
    obtain ⟨hamount, new, hnew, hkinds⟩ : outcome.amount? = some a.amount ∧
      ∃ new, Logs sender paid k' new ∧ ∀ ev ∈ new, ev.OfBlock := logs_finishSettlement h
    refine ⟨_, hpaid.trans rfl (fun _ ha => .inl (ha.congr rfl rfl)) hnew, ?_, ?_⟩
    · exact List.forall_mem_cons.2 ⟨.inl rfl, hkinds⟩
    · intro amount hamount' _
      obtain rfl := Option.some.inj (hamount.symm.trans hamount')
      exact ⟨told, List.mem_cons_self, rfl, rfl, htold⟩

theorem logs_releaseDeposits {refunds : List (Account × Coin)} (hk : k.Sound)
    (h : k.run (releaseDeposits b id) = (.ok refunds, k')) :
    ∃ new, Logs sender k k' new ∧ ∀ ev ∈ new, ev.OfBlock := by
  simp only [releaseDeposits, run_read_bind_eq_ok, run_refusal_bind_eq_ok] at h
  obtain ⟨x, hx, _, -, h⟩ := h
  have hx' := (Registry.resource_eq_ok hk.1).1 hx
  split at h
  · obtain ⟨-, rfl⟩ := run_pure_eq_ok.1 h
    exact ⟨[], .none rfl rfl, fun _ hev => absurd hev List.not_mem_nil⟩
  · rw [run_configNow_bind_eq_ok, run_bind_eq_ok] at h
    obtain ⟨_, _, hrefunds, h⟩ := h
    obtain ⟨ledger, hrefunded, rfl⟩ := run_refunds_eq_ok.1 hrefunds
    simp only [run_change_bind_eq_ok, run_emit_bind_eq_ok, run_pure_eq_ok] at h
    obtain ⟨r, -, -, rfl⟩ := h
    refine ⟨_, .single rfl (by simp)
      (hrefunded.flow fun d hd => .inl (.named hx' (.inr ⟨d, hd, rfl⟩))) fun denom => ?_, ?_⟩
    · show _ = 0 - ((x.deposits.map fun d => (d.depositor, d.amount)).map _).sum
      rw [List.map_map, zero_sub]
      rfl
    · exact fun ev hev => List.mem_singleton.1 hev ▸ .inr (.inr rfl)

/-! ## Requests -/

theorem events_chooseId {chosen : Option ResourceId} (h : k.run (chooseId chosen) = (.ok id, k')) :
    k'.events = k.events := by
  cases chosen with
  | some j =>
    simp only [chooseId, run_read_bind_eq_ok, run_refusal_bind_eq_ok, run_pure_eq_ok] at h
    obtain ⟨_, -, _, -, -, rfl⟩ := h
    rfl
  | none =>
    rw [chooseId, run_allocateId] at h
    split at h
    · cases h
      rfl
    · cases h

theorem detailOf_eq_ok {x : Resource} {detail : EventDetail} :
    detailOf x = .ok detail ↔
      ∃ total, x.totalDeposit = .ok total ∧ detail = .resource x.owner x.status total := by
  rw [detailOf, bind_eq_ok]
  exact exists_congr fun total => and_congr_right fun _ => pure_eq_ok.trans eq_comm

theorem logs_registration {m : Message.RegisterResource} {reply : Reply.Registered}
    (hl : k.registry.Laid) (h : k.run (performRegistration b m) = (.ok reply, k')) :
    ∃ new, Logs (· = m.sender) k k' new := by
  cases registers_of_run h with
  | @steps params _ id k₁ _ _ _ _ _ _ _ _ hid hsent hvalid _ hdetail =>
    obtain ⟨nextId, -, hturned⟩ := chooseId_done hl hid
    rw [hturned.ledger_eq, hturned.config_eq] at hsent
    obtain ⟨total, htotal, rfl⟩ := detailOf_eq_ok.1 hdetail
    refine ⟨_, .single (congrArg (· ++ _) (events_chooseId hid)) (by simp)
      (.received hsent rfl (.none _)) fun denom => ?_⟩
    have hdeposits := Resource.depositsIn_eq_valueIn hvalid htotal denom
    show 0 + m.deposit.valueIn denom = total.valueIn denom - 0
    rw [← hdeposits]
    show 0 + m.deposit.valueIn denom = (m.deposit.valueIn denom + 0) - 0
    ring

theorem logs_update {m : Message.UpdateResource} (h : k.run (performUpdate b m) = (.ok (), k')) :
    ∃ new, Logs sender k k' new := by
  simp only [performUpdate, run_read_bind_eq_ok, run_refusal_bind_eq_ok] at h
  obtain ⟨old, -, _, -, _, -, h⟩ := h
  obtain ⟨_, k₁, hprice, h⟩ := run_bind_eq_ok.1 h
  simp only [run_refusal_bind_eq_ok, run_change_bind_eq_ok, run_emit_eq_ok] at h
  obtain ⟨_, -, r, -, detail, -, rfl⟩ := h
  obtain ⟨rfl, -⟩ := checkPrice_done hprice
  exact ⟨_, .silent rfl rfl (by simp) fun _ => ⟨rfl, rfl⟩⟩

theorem logs_deposit {m : Message.AddDeposit} {reply : Reply.Deposited}
    (h : k.run (performDeposit b m) = (.ok reply, k')) : ∃ new, Logs (· = m.sender) k k' new := by
  simp only [performDeposit, run_read_bind_eq_ok, run_refusal_bind_eq_ok,
    run_configNow_bind_eq_ok, run_send_bind_eq_ok, run_change_bind_eq_ok, run_emit_bind_eq_ok,
    run_pure_eq_ok] at h
  obtain ⟨params, -, old, -, _, -, _, -, ledger, hsent, total, -, x, -, r, -, -, rfl⟩ := h
  refine ⟨_, .single rfl (by simp) (.received hsent rfl (.none _)) fun denom => ?_⟩
  show 0 + m.amount.valueIn denom = m.amount.valueIn denom - 0
  ring

theorem logs_lease {m : Message.TakeLease} {reply : Reply.Leased}
    (h : k.run (performLease b m) = (.ok reply, k')) : ∃ new, Logs (· = m.sender) k k' new := by
  simp only [performLease, run_read_bind_eq_ok, run_refusal_bind_eq_ok, run_configNow_bind_eq_ok,
    run_send_bind_eq_ok, run_change_bind_eq_ok, run_emit_bind_eq_ok, run_pure_eq_ok] at h
  obtain ⟨params, -, x, -, _, -, _, -, _, -, cost, -, _, -, ledger, hsent, lease, -, r, -, r', -, -,
    rfl⟩ := h
  refine ⟨_, .single rfl (by simp) (.received hsent rfl (.none _)) fun denom => ?_⟩
  show 0 + m.amount.valueIn denom = m.amount.valueIn denom - 0
  ring

theorem logs_extension {m : Message.ExtendLease} {reply : Reply.Leased}
    (h : k.run (performExtension b m) = (.ok reply, k')) :
    ∃ new, Logs (· = m.sender) k k' new := by
  simp only [performExtension, run_read_bind_eq_ok, run_refusal_bind_eq_ok,
    run_configNow_bind_eq_ok, run_send_bind_eq_ok, run_change_bind_eq_ok, run_emit_bind_eq_ok,
    run_pure_eq_ok] at h
  obtain ⟨params, -, old, -, _, -, _, -, cost, -, _, -, lease, -, ledger, hsent, r, -, -, rfl⟩ := h
  refine ⟨_, .single rfl (by simp) (.received hsent rfl (.none _)) fun denom => ?_⟩
  show 0 + m.amount.valueIn denom = m.amount.valueIn denom - 0
  ring

theorem logs_closing {m : Message.CloseResource} (h : k.run (performClosing b m) = (.ok (), k')) :
    ∃ new, Logs sender k k' new := by
  simp only [performClosing, run_read_bind_eq_ok, run_refusal_bind_eq_ok, run_change_bind_eq_ok,
    run_emit_eq_ok] at h
  obtain ⟨old, -, _, -, _, -, _, -, x, -, r, -, detail, -, rfl⟩ := h
  exact ⟨_, .silent rfl rfl (by simp) fun _ => ⟨rfl, rfl⟩⟩

theorem logs_paramsUpdate {m : Message.UpdateParams}
    (h : k.run (performParamsUpdate b m) = (.ok (), k')) : ∃ new, Logs sender k k' new := by
  -- Whether or not the denomination changes, the update ends in the same way.
  have hlogs : k.run (do
      change fun r => return r.setParams m.params
      emit b .paramsUpdated none .params) = (.ok (), k') → ∃ new, Logs sender k k' new := by
    intro hrest
    simp only [run_change_bind_eq_ok, run_emit_eq_ok] at hrest
    obtain ⟨r, -, rfl⟩ := hrest
    exact ⟨_, .silent rfl rfl (by simp) fun _ => ⟨rfl, rfl⟩⟩
  simp only [performParamsUpdate, run_configNow_bind_eq_ok, run_refusal_bind_eq_ok,
    run_read_bind_eq_ok] at h
  obtain ⟨_, -, old, -, h⟩ := h
  split at h
  · simp only [run_read_bind_eq_ok, run_refusal_bind_eq_ok] at h
    obtain ⟨resources, -, _, -, h⟩ := h
    exact hlogs h
  · exact hlogs h

theorem events_refundLease {refund : Coin} (h : k.run (refundLease id) = (.ok refund, k')) :
    k'.events = k.events := by
  simp only [refundLease, run_read_bind_eq_ok, run_lift_bind_eq_ok, run_configNow_bind_eq_ok,
    run_send_bind_eq_ok] at h
  obtain ⟨l, -, c, -, ledger, -, h⟩ := h
  obtain ⟨_, k₁, hend, h⟩ := run_bind_eq_ok.1 h
  obtain ⟨-, rfl⟩ := run_pure_eq_ok.1 h
  exact (events_endLease hend).2

/-- A cancellation tells what its settlement told, and then what went back to the lessee. -/
theorem logs_cancellation {m : Message.CancelLease} {reply : Reply.Cancelled} (hk : k.Sound)
    (h : k.run (performCancellation b m) = (.ok reply, k')) : ∃ new, Logs sender k k' new := by
  simp only [performCancellation, run_read_bind_eq_ok, run_refusal_bind_eq_ok] at h
  obtain ⟨lease, -, _, -, h⟩ := h
  obtain ⟨outcome, k₁, hsettle, h⟩ := run_bind_eq_ok.1 h
  obtain ⟨refunded, k₂, hrefund, h⟩ := run_bind_eq_ok.1 h
  simp only [run_emit_bind_eq_ok, run_pure_eq_ok] at h
  obtain ⟨rfl, rfl⟩ := h
  have haccounted : Accounted sender k k₁ := accounted_settleLease hk hsettle
  obtain ⟨new, hnew, -⟩ : ∃ new, Logs sender k k₁ new ∧ _ := logs_settleLease hk hsettle
  let told : Event := ⟨.leaseCancelled, b.height, some m.id, .cancellation m.sender
    (outcome.amount?.getD (.zero lease.total.denom)) refunded⟩
  suffices hlast : Logs sender k₁ { k₂ with events := k₂.events ++ [told] } [told] from
    ⟨_, hnew.trans haccounted.config_eq (fun a ha => haccounted.payee ha) hlast⟩
  have hpaid : k₁.run (refundLease m.id) = (.ok refunded, k₂) →
      Logs sender k₁ { k₂ with events := k₂.events ++ [told] } [told] := by
    intro hrest
    obtain ⟨l, x, ledger, hl, -, hsent, -, hturned⟩ := refundLease_done haccounted.sound.1 hrest
    rw [← hturned.ledger_eq] at hsent
    refine .single (congrArg (· ++ _) (events_refundLease hrest)) (by simp)
      (.paid hsent (.inl (.lessee hl)) (.none _)) fun denom => rfl
  cases outcome with
  | completed paid =>
    obtain ⟨rfl, rfl⟩ := run_pure_eq_ok.1 hrefund
    refine .silent rfl rfl (by simp) fun denom => ⟨rfl, ?_⟩
    exact Coin.valueIn_of_value_eq_zero (Coin.value_zero _) denom
  | idle => exact hpaid hrefund
  | settled paid => exact hpaid hrefund

theorem logs_perform {m : Request α} {reply : α} (hk : k.Sound)
    (h : k.run (m.perform b) = (.ok reply, k')) : ∃ new, Logs (· = m.sender) k k' new := by
  cases m with
  | register m => exact logs_registration hk.1 h
  | update m => exact logs_update h
  | deposit m => exact logs_deposit h
  | lease m => exact logs_lease h
  | extend m => exact logs_extension h
  | cancel m => exact logs_cancellation hk h
  | close m => exact logs_closing h
  | setParams m => exact logs_paramsUpdate h

/-! ## Runs -/

/-- A backed keeper whose escrow holds what the events tell, those that were taken before and those
that are pending. -/
structure Told (c : Config) (taken : List Event) (k : Keeper Bank) : Prop where
  backed : k.Backed c
  holds : k.ledger.Holds c.escrow fun denom => Event.gained denom (taken ++ k.events)

variable {taken : List Event}

theorem Told.congr (hk : Told c taken k) (h : k ≈ k') : Told c taken k' where
  backed := ofContents_backed.congr h hk.backed
  holds := h.events ▸ hk.holds.congr h.book

theorem recoverable_told : Recoverable (Told c taken) := by
  refine .of_failed (fun b id reason k hk => ?_) (fun k hk => hk.congr (enter_equiv k).symm)
    (fun k hk => hk.congr (keep_equiv k).symm)
    fun ha hresult hk => hk.congr (equiv_of_branch_error ha.tame hresult).symm
  refine ⟨ofContents_backed.events _ hk.backed, hk.holds.of_eq fun denom => ?_⟩
  rw [emitFailure, run_emit, ← List.append_assoc, Event.gained_append _ (taken ++ k.events),
    Event.gained_singleton]
  exact (add_eq_left.2 (sub_zero 0)).symm

theorem Told.logs (hk : Told c taken k) (hsender : ∀ s, sender s → s ≠ c.escrow)
    (haccounted : Accounted sender k k') (h : Logs sender k k' new) : Told c taken k' where
  backed := hk.backed.accounted hsender haccounted
  holds := by
    have hflow := h.flow
    rw [hk.backed.config_eq] at hflow
    refine (hflow.holds hk.holds (fun ha => ha.elim hk.backed.payee_ne (hsender _))
      (hsender _)).of_eq fun denom => ?_
    rw [h.events_eq, ← List.append_assoc, Event.gained_append _ (taken ++ k.events)]

theorem told_settleLease (b : Block) (id : ResourceId) :
    KeepsOk (Told c taken) (settleLease b id) := by
  intro k outcome k' hk h
  obtain ⟨new, hnew, -⟩ : ∃ new, Logs (fun _ => False) k k' new ∧ _ :=
    logs_settleLease hk.backed.sound h
  exact hk.logs (fun _ hnone => hnone.elim) (accounted_settleLease hk.backed.sound h) hnew

theorem told_releaseDeposits (b : Block) (id : ResourceId) :
    KeepsOk (Told c taken) (releaseDeposits b id) := by
  intro k refunds k' hk h
  obtain ⟨new, hnew, -⟩ : ∃ new, Logs (fun _ => False) k k' new ∧ _ :=
    logs_releaseDeposits hk.backed.sound h
  exact hk.logs (fun _ hnone => hnone.elim) (accounted_releaseDeposits hk.backed.sound h) hnew

theorem Told.elsewhere (hk : Told c taken k) {ledger : Bank}
    (h : k.ledger.Elsewhere c.escrow ledger) : Told c taken { k with ledger } :=
  ⟨hk.backed.elsewhere h, hk.holds.elsewhere h⟩

/-- Every step that avoids escrow is told in full. -/
theorem told_next (s : Step) (havoids : s.Avoids c.escrow) (hk : Told c taken k) :
    Told c taken (k.next s) := by
  have hP : Recoverable (Told c taken) := recoverable_told
  cases s with
  | request b m =>
    refine hP.handle b (fun hcheck k reply k' hk h => ?_) k hk
    obtain ⟨new, hnew⟩ := logs_perform hk.backed.sound h
    refine hk.logs ?_ (accounted_perform hk.backed.sound hcheck h) hnew
    rintro _ rfl
    exact havoids
  | beginBlock e b => exact hP.beginBlock e b (told_settleLease b) (told_releaseDeposits b) k hk
  | settle b id => exact hP.branch (built_settleLease b id) (told_settleLease b id) k hk
  | mint account coin =>
    exact Keeps.onLedger (fun _ _ hk h => hk.elsewhere (.mint h havoids)) k hk
  | burn account coin =>
    exact Keeps.onLedger (fun _ _ hk h => hk.elsewhere (.burn h havoids)) k hk
  | transfer source target coin =>
    exact Keeps.onLedger (fun _ _ hk h => hk.elsewhere (.transfer h havoids.1 havoids.2)) k hk

end Keeper

/-- What a host does that also reads the events. -/
inductive Turn : Type 1 where
  | step (s : Step)
  | takeEvents

def Turn.Avoids (a : Account) : Turn → Prop
  | .step s => s.Avoids a
  | .takeEvents => True

/-- A keeper, and all events that the host has taken from it, oldest first. -/
structure Watched where
  keeper : Keeper Bank
  taken : List Event

namespace Watched

def turn (w : Watched) : Turn → Watched
  | .step s => { w with keeper := w.keeper.next s }
  | .takeEvents =>
    match w.keeper.run Keeper.takeEvents with
    | (.ok events, keeper) => ⟨keeper, w.taken ++ events⟩
    | (.error _, keeper) => { w with keeper }

/-- All events so far, taken or pending. -/
def events (w : Watched) : List Event := w.taken ++ w.keeper.events

end Watched

namespace Keeper

/-- The keeper after some turns, and the events taken meanwhile. -/
def watched (k : Keeper Bank) (turns : List Turn) : Watched := turns.foldl Watched.turn ⟨k, []⟩

variable {c : Config} {k : Keeper Bank}

theorem told_turn {w : Watched} (t : Turn) (havoids : t.Avoids c.escrow)
    (hw : Told c w.taken w.keeper) : Told c (w.turn t).taken (w.turn t).keeper := by
  cases t with
  | step s => exact told_next s havoids hw
  | takeEvents =>
    refine ⟨ofContents_backed.events [] hw.backed, hw.holds.of_eq fun denom => ?_⟩
    show _ = Event.gained denom ((w.taken ++ w.keeper.events) ++ [])
    rw [List.append_nil]

theorem told_watched {w : Watched} {turns : List Turn} (havoids : ∀ t ∈ turns, t.Avoids c.escrow)
    (hw : Told c w.taken w.keeper) :
    Told c (turns.foldl Watched.turn w).taken (turns.foldl Watched.turn w).keeper := by
  induction turns generalizing w with
  | nil => exact hw
  | cons t turns ih =>
    refine ih (fun t' ht' => havoids t' (List.mem_cons_of_mem _ ht')) ?_
    exact told_turn t (havoids t List.mem_cons_self) hw

/-- Whatever the host runs and whenever it takes events, escrow holds what came in less what left,
as all events so far tell it, in each denomination. -/
theorem events_tell_escrow {config : Config} {ledger : Bank} {params : Params}
    (hcreate : create config ledger params = .ok k)
    (hempty : ∀ denom, (Ledger.balance ledger config.escrow denom).isZero = true)
    (turns : List Turn) (havoids : ∀ t ∈ turns, t.Avoids config.escrow) (denom : String) :
    (Ledger.balance (k.watched turns).keeper.ledger config.escrow denom).value =
      ((k.watched turns).events.map (Event.paidIn denom)).sum -
        ((k.watched turns).events.map (Event.paidOut denom)).sum := by
  have hbacked := backed_create hcreate hempty
  obtain ⟨-, -, hk⟩ := create_eq_ok.1 hcreate
  have hstart : Told config [] k := by
    refine ⟨hbacked, fun d => ⟨(hbacked.holds d).1, ?_⟩⟩
    rw [hk]
    exact (Decimal.isZero_iff.1 (hempty d)).trans (sub_zero 0).symm
  exact ((told_watched havoids hstart).holds denom).2

/-- The registration and the lease of a node are taken from the log before its first hour is
settled; the settlement and the cancellation that follows are pending. -/
def cancelledNode : List Turn :=
  [.step (.request (Sample.block 0) (.register Sample.registration)),
    .step (.request (Sample.block 0) (.lease (Sample.lease 3))), .takeEvents,
    .step (.beginBlock .fresh (Sample.block 1)),
    .step (.request (Sample.block 1) (.cancel Sample.cancellation))]

/-- Here escrow keeps the deposit of the node, and nothing of its lease. -/
theorem events_tell_escrow_of_cancelled_node :
    let w := Sample.keeper.watched cancelledNode
    w.taken.map Event.kind = [.resourceRegistered, .resourceLeased] ∧
      w.keeper.events.map Event.kind = [.leasePaymentSettled, .leaseCancelled] ∧
      (w.events.map (Event.paidIn "umedia")).sum - (w.events.map (Event.paidOut "umedia")).sum =
        1000 := by
  have havoids : ∀ t ∈ cancelledNode, t.Avoids Sample.config.escrow := by
    have howner : Sample.owner ≠ Sample.config.escrow := by decide
    have hlessee : Sample.lessee ≠ Sample.config.escrow := by decide
    simp only [cancelledNode, List.forall_mem_cons]
    exact ⟨howner, hlessee, trivial, trivial, hlessee, fun _ hnone => absurd hnone List.not_mem_nil⟩
  have htold := events_tell_escrow Sample.create_keeper Sample.escrow_isZero cancelledNode havoids
    "umedia"
  have hbalance : Ledger.balance (Sample.keeper.watched cancelledNode).keeper.ledger
      Sample.config.escrow "umedia" = Sample.coins 1000 := by decide +kernel
  intro w
  refine ⟨by decide +kernel, by decide +kernel, htold.symm.trans ?_⟩
  rw [hbalance]
  exact Decimal.value_ofUInt64 1000

end Keeper

end LeaseEscrow
