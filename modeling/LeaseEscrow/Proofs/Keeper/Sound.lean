import LeaseEscrow.Proofs.Keeper.Performed
import LeaseEscrow.Proofs.Keeper.Steps
import LeaseEscrow.Proofs.Registry.Sound

/-!
# Sound keepers

A keeper is sound when its registry is laid out well and its market is sound. Requests and
settlements that succeed keep it so, and with them every step.
-/

namespace LeaseEscrow.Keeper

variable {L α : Type}

def Sound (k : Keeper L) : Prop := k.registry.Laid ∧ ∃ p, k.registry.market.Sound p

theorem ofRecords_sound : OfRecords (Sound (L := L)) := by
  intro k k' h hk
  obtain ⟨hlaid, hmarket⟩ := hk
  rw [← Registry.market_congr h] at hmarket
  exact ⟨(Registry.laid_congr h).2 hlaid, hmarket⟩

theorem ofContents_sound : OfContents Sound := ofRecords_sound.ofContents

variable {k k' : Keeper L} {market : Market} {ledger : L}

theorem Sound.of_turned {p : Params} (h : Turned k k' market ledger) (hmarket : market.Sound p) :
    k'.Sound :=
  ⟨h.laid, p, h.market_eq ▸ hmarket⟩

theorem Sound.of_same (h : Turned k k' k.registry.market ledger) (hk : k.Sound) : k'.Sound := by
  obtain ⟨-, p, hp⟩ := hk
  exact .of_turned h hp

theorem keeper_id (hl : k.registry.Laid) {id : ResourceId} {x : Resource}
    (hx : k.registry.market.resource id = some x) :
    k.registry.market.resource x.id = some x := (Registry.id_of_market hl hx).symm ▸ hx

/-! ## New keepers -/

variable {config : Config} {params : Params}

theorem create_eq_ok :
    create config ledger params = .ok k ↔
      config.validate = .ok () ∧ params.validate = .ok () ∧
        k = { registry := Registry.empty.setParams params, ledger, config, events := [] } := by
  rw [create, check_bind_eq_ok, check_bind_eq_ok, liftM_eq_ok, pure_eq_ok]
  exact and_congr_right fun _ => and_congr_right fun _ => eq_comm

/-- A new keeper is sound. -/
theorem sound_create (h : create config ledger params = .ok k) : k.Sound := by
  obtain ⟨-, hparams, rfl⟩ := create_eq_ok.1 h
  refine ⟨Registry.laid_empty.setParams params, params.plain, ?_⟩
  show (Registry.empty.setParams params).market.Sound _
  rw [Registry.market_set_params]
  exact {
    params_eq := rfl, params_valid := (Params.validate_eq_ok.1 hparams).plain
    nextId_ne := show (1 : UInt64) ≠ 0 by decide, resource := nofun, lease := nofun }

/-- A new keeper has no records. -/
theorem market_create (h : create config ledger params = .ok k) :
    (∀ id, k.registry.market.resource id = none) ∧ ∀ id, k.registry.market.lease id = none := by
  obtain ⟨-, -, rfl⟩ := create_eq_ok.1 h
  have hmarket := Registry.market_set_params Registry.empty params
  constructor
  · intro id
    rw [hmarket]
    rfl
  · intro id
    rw [hmarket]
    rfl

/-! ## Settlement -/

variable [Ledger L] {b : Block} {id : ResourceId}

theorem Settled.sound {outcome : Outcome} (hk : k.Sound)
    (h : Settled b id k outcome k') : k'.Sound := by
  obtain ⟨hl, p, hp⟩ := hk
  cases h with
  | idle => exact ⟨hl, p, hp⟩
  | spent _ _ _ hx hturned => exact .of_turned hturned (hp.ended (keeper_id hl hx))
  | last _ _ _ _ _ _ _ hx hturned => exact .of_turned hturned (hp.ended (keeper_id hl hx))
  | paid hlease _ hsome _ _ hsettle _ hturned =>
    have hfits := hp.lease hlease
    obtain ⟨-, hwhole, hnonneg⟩ := Lease.accrual_of_accrualAt hfits.valid hsome
    have hvalid := Lease.valid_settle hfits.valid hwhole hnonneg hsettle
    obtain ⟨_, _, _, _, _, rfl⟩ := Lease.settle_eq_ok.1 hsettle
    have hold := (congrArg k.registry.market.lease hfits.id_eq).trans hlease
    exact .of_turned hturned (hp.withLease hold hvalid.plain hfits.denom_eq rfl)

theorem keepsOk_settleLease (b : Block) (id : ResourceId) : KeepsOk (Sound (L := L)) (settleLease b id) :=
  fun _ _ _ hk h => (settleLease_done hk.1 h).sound hk

theorem valid_without_deposits {x : Resource} (h : x.Valid) :
    ({ x with deposits := [] } : Resource).Valid :=
  { h with
    deposits := fun _ hd => absurd hd List.not_mem_nil
    summable := ⟨Coin.zero x.pricePerHour.denom, rfl⟩ }

theorem keepsOk_releaseDeposits (b : Block) (id : ResourceId) :
    KeepsOk (Sound (L := L)) (releaseDeposits b id) := by
  intro k refunds k' hk h
  obtain ⟨hl, p, hp⟩ := hk
  obtain ⟨x, ledger, hx, -, -, -, hturned⟩ := releaseDeposits_done hl h
  have hfits := hp.resource hx
  exact .of_turned hturned (hp.replaced hx ⟨rfl, rfl, rfl⟩ (valid_without_deposits hfits.valid)
    hfits.denom_eq)

/-! ## Requests -/

theorem sound_registration {m : Message.RegisterResource} {reply : Reply.Registered} (hk : k.Sound)
    (h : k.run (performRegistration b m) = (.ok reply, k')) : k'.Sound := by
  obtain ⟨hl, p, hp⟩ := hk
  obtain ⟨params, nextId, ledger, hparams, hprice, -, hdraws, -, hvalid, hturned⟩ :=
    performRegistration_done hl h
  obtain rfl := Option.some.inj (hp.params_eq.symm.trans hparams)
  have hfree := hp.lease_of_absent hdraws.free
  refine .of_turned hturned ((hp.withNextId (hdraws.nextId_ne hp.nextId_ne)).withResource hvalid
    hprice ?_ ?_)
  · show false = true ↔ (k.registry.market.lease reply.id).isSome = true
    rw [hfree]
    exact ⟨nofun, nofun⟩
  · intro l hl'
    cases hfree.symm.trans hl'

omit [Ledger L] in
theorem sound_update {m : Message.UpdateResource} (hk : k.Sound)
    (h : k.run (performUpdate b m) = (.ok (), k')) : k'.Sound := by
  obtain ⟨hl, p, hp⟩ := hk
  obtain ⟨old, hold, -, -, hprice, hvalid, hturned⟩ := performUpdate_done hl h
  have hfits := hp.resource hold
  refine .of_turned hturned (hp.replaced hold ⟨rfl, rfl, rfl⟩ hvalid ?_)
  cases hnew : m.pricePerHour with
  | none =>
    rw [updated, hnew]
    exact hfits.denom_eq
  | some price =>
    obtain ⟨params, hparams, hdenom⟩ := hprice price hnew
    obtain rfl := Option.some.inj (hp.params_eq.symm.trans hparams)
    rw [updated, hnew]
    exact hdenom

theorem valid_deposited {m : Message.AddDeposit} {old : Resource} {total : Coin} {status : Status}
    (hvalid : old.Valid) (hpending : old.status = .pending) (hamount : m.amount.Valid)
    (hpos : 0 < m.amount.value) (hdenom : m.amount.denom = old.pricePerHour.denom)
    (htotal : (deposited b m old).totalDeposit = .ok total) (hstatus : status ≠ .closed) :
    ({ deposited b m old with status } : Resource).Valid := by
  -- A pending resource is neither leased nor closed.
  have hleased : old.leased ≠ true := fun hleased => by
    have := hvalid.active hleased
    rw [hpending] at this
    cases this
  exact { hvalid with
    deposits := fun d hd => by
      rcases List.mem_append.1 hd with hd | hd
      · exact hvalid.deposits d hd
      · rw [List.mem_singleton] at hd
        subst hd
        exact ⟨hamount, hpos, hdenom⟩
    summable := ⟨total, htotal⟩
    closing := by
      refine ⟨fun hclosed => ?_, fun hclosed => absurd hclosed hstatus⟩
      have := hvalid.closing.1 hclosed
      rw [hpending] at this
      cases this
    active := fun h => absurd h hleased }

theorem sound_deposit {m : Message.AddDeposit} {reply : Reply.Deposited} (hk : k.Sound)
    (hcheck : m.validate = .ok ()) (h : k.run (performDeposit b m) = (.ok reply, k')) :
    k'.Sound := by
  obtain ⟨hl, p, hp⟩ := hk
  obtain ⟨params, old, total, status, ledger, hparams, hold, hpending, hdenom, -, htotal, hstatus,
    hturned⟩ := performDeposit_done hl h
  obtain rfl := Option.some.inj (hp.params_eq.symm.trans hparams)
  have hfits := hp.resource hold
  obtain ⟨hamount, hpos⟩ := Coin.validatePositive_eq_ok.1 hcheck
  have hopen : status ≠ .closed := by
    rw [hstatus]
    split <;> nofun
  have hvalid := valid_deposited hfits.valid hpending hamount hpos
    (hdenom.trans hfits.denom_eq.symm) htotal hopen
  rw [hvalid.plain_eq] at hturned
  exact .of_turned hturned (hp.replaced hold ⟨rfl, rfl, rfl⟩ hvalid hfits.denom_eq)

omit [Ledger L] in
theorem sound_closing {m : Message.CloseResource} (hk : k.Sound)
    (h : k.run (performClosing b m) = (.ok (), k')) : k'.Sound := by
  obtain ⟨hl, p, hp⟩ := hk
  obtain ⟨old, hold, -, -, hleased, hturned⟩ := performClosing_done hl h
  have hfits := hp.resource hold
  have hv := hfits.valid
  have hvalid : ({ old with status := .closed, closedAt := some b.time } : Resource).Valid :=
    { hv with
      closing := ⟨fun _ => rfl, fun _ => rfl⟩
      active := fun h => absurd h (by rw [hleased]; decide) }
  exact .of_turned hturned (hp.replaced hold ⟨rfl, rfl, rfl⟩ hvalid hfits.denom_eq)

theorem sound_lease {m : Message.TakeLease} {reply : Reply.Leased} (hk : k.Sound)
    (hcheck : m.validate = .ok ()) (h : k.run (performLease b m) = (.ok reply, k')) :
    k'.Sound := by
  obtain ⟨hl, p, hp⟩ := hk
  obtain ⟨params, x, cost, ledger, -, hx, hactive, -, -, -, -, hstart, hturned⟩ :=
    performLease_done hl h
  have hfits := hp.resource hx
  have hhours : m.hours ≠ 0 := require_eq_ok.1 (check_bind_eq_ok.1 hcheck).1
  have hvalid := Lease.valid_start hfits.valid.price hfits.valid.price_pos hhours hstart
  obtain ⟨total, -, hlease⟩ := Lease.start_eq_ok.1 hstart
  have hid : reply.lease.plain.resourceId = x.id := by rw [hlease]; exact hfits.id_eq.symm
  have hdenom : reply.lease.plain.pricePerHour.denom = p.denom := by
    rw [hlease]
    exact hfits.denom_eq
  have howner : reply.lease.plain.owner = x.owner := by rw [hlease]; rfl
  exact .of_turned hturned (hp.taken (keeper_id hl hx) hactive hvalid.plain hid hdenom howner)

theorem sound_extension {m : Message.ExtendLease} {reply : Reply.Leased} (hk : k.Sound)
    (h : k.run (performExtension b m) = (.ok reply, k')) : k'.Sound := by
  obtain ⟨hl, p, hp⟩ := hk
  obtain ⟨params, old, cost, ledger, -, hold, -, -, -, hextend, -, hturned⟩ :=
    performExtension_done hl h
  have hfits := hp.lease hold
  have hvalid := Lease.valid_extend hfits.valid hextend
  obtain ⟨-, _, _, -, -, hlease⟩ := Lease.extend_eq_ok.1 hextend
  have hid : reply.lease.plain.resourceId = m.id := by rw [hlease]; exact hfits.id_eq
  have hdenom : reply.lease.plain.pricePerHour.denom = p.denom := by
    rw [hlease]
    exact hfits.denom_eq
  have howner : reply.lease.plain.owner = old.owner := by rw [hlease]; rfl
  have hold' := (congrArg k.registry.market.lease hid).trans hold
  exact .of_turned hturned (hp.withLease hold' hvalid.plain hdenom howner)

theorem sound_refund {refund : Coin} (hk : k.Sound)
    (h : k.run (refundLease id) = (.ok refund, k')) : k'.Sound := by
  obtain ⟨hl, p, hp⟩ := hk
  obtain ⟨lease, x, ledger, -, -, -, hx, hturned⟩ := refundLease_done hl h
  exact .of_turned hturned (hp.ended (keeper_id hl hx))

theorem sound_cancellation {m : Message.CancelLease} {reply : Reply.Cancelled} (hk : k.Sound)
    (h : k.run (performCancellation b m) = (.ok reply, k')) : k'.Sound := by
  rcases performCancellation_done hk.1 h with
    ⟨lease, outcome, k₁, -, -, hsettled, -, -, ⟨-, -, hturned⟩ | ⟨-, k₂, hrefund, hturned⟩⟩
  · exact .of_same hturned (hsettled.sound hk)
  · exact .of_same hturned (sound_refund (hsettled.sound hk) hrefund)

omit [Ledger L] in
theorem sound_paramsUpdate {m : Message.UpdateParams} (hk : k.Sound) (hcheck : m.validate = .ok ())
    (h : k.run (performParamsUpdate b m) = (.ok (), k')) : k'.Sound := by
  obtain ⟨hl, p, hp⟩ := hk
  obtain ⟨old, hold, -, hdenom, hturned⟩ := performParamsUpdate_done hl h
  obtain rfl := Option.some.inj (hp.params_eq.symm.trans hold)
  have hvalid := (Params.validate_eq_ok.1 hcheck).plain
  refine .of_turned hturned (hp.withParams hvalid ?_)
  rcases hdenom with hdenom | hempty
  · exact .inl hdenom
  · right
    intro id
    rw [← Option.not_isSome_iff_eq_none, Option.isSome_iff_exists]
    rintro ⟨x, hx⟩
    have hmem := ((Registry.isTable_resources hl).mem_iff x).2 (keeper_id hl hx)
    rw [hempty] at hmem
    cases hmem

theorem keepsOk_perform {m : Request α} (hcheck : m.check = .ok ()) :
    KeepsOk (Sound (L := L)) (m.perform b) := by
  intro k reply k' hk h
  cases m with
  | register m => exact sound_registration hk h
  | update m => exact sound_update hk h
  | deposit m => exact sound_deposit hk (liftM_eq_ok.1 hcheck) h
  | lease m => exact sound_lease hk (liftM_eq_ok.1 hcheck) h
  | extend m => exact sound_extension hk h
  | cancel m => exact sound_cancellation hk h
  | close m => exact sound_closing hk h
  | setParams m => exact sound_paramsUpdate hk hcheck h

/-! ## Steps -/

/-- Every step keeps a keeper sound. -/
theorem sound_next {k : Keeper Bank} (s : Step) (hk : k.Sound) : (k.next s).Sound := by
  have hP := ofContents_sound.recoverable
  cases s with
  | request b m => exact hP.handle b keepsOk_perform k hk
  | beginBlock e b =>
    exact hP.beginBlock e b (keepsOk_settleLease b) (keepsOk_releaseDeposits b) k hk
  | settle b id => exact hP.branch (built_settleLease b id) (keepsOk_settleLease b id) k hk
  | mint account coin => exact Keeps.onLedger (fun _ _ hk _ => hk) k hk
  | burn account coin => exact Keeps.onLedger (fun _ _ hk _ => hk) k hk
  | transfer source target coin => exact Keeps.onLedger (fun _ _ hk _ => hk) k hk

theorem sound_after {k : Keeper Bank} {ledger : Bank} (h : create config ledger params = .ok k)
    (steps : List Step) : (k.after steps).Sound :=
  invariant_after (sound_create h) fun s _ _ hk => sound_next s hk

end LeaseEscrow.Keeper
