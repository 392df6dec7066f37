import LeaseEscrow.Proofs.Keeper.Obligations
import LeaseEscrow.Proofs.Keeper.Range

/-!
# Funding

Four messages put coins into escrow: they register a resource, deposit on it, lease it and extend
its lease. Each has a list of conditions, which a sender can check. In a solvent keeper they are
all that matters (`funding_succeeds_iff`): a message that meets them passes every later step of its
handler, and one that does not is stopped somewhere.

The conditions are about whole values: amounts may be written at any scale, prices and totals are
compared as numbers, and hours are added up without wrapping.
-/

namespace LeaseEscrow

/-! ## Conditions -/

/-- A positive whole amount of the denomination. -/
structure Coin.Pays (c : Coin) (denom : String) : Prop where
  denom_eq : c.denom = denom
  whole : c.amount.Whole
  pos : 0 < c.value

/-- The account holds the coin. -/
def Bank.Affords (b : Bank) (a : Account) (c : Coin) : Prop :=
  c.value ≤ (b.amount ⟨a, c.denom⟩).value

/-- The amount is the price of so many hours. -/
structure Coin.Buys (amount price : Coin) (hours : UInt64) : Prop where
  denom_eq : amount.denom = price.denom
  value_eq : amount.value = price.value * hours.toNat

namespace Message

variable (k : Keeper Bank) (p : Params)

structure RegisterResource.Admitted (m : RegisterResource) : Prop where
  url : validateUrl m.url = .ok ()
  info : m.info.validate = .ok ()
  hardware : m.hardware.validate = .ok ()
  price : m.pricePerHour.Pays p.denom
  deposit : m.deposit.Pays p.denom
  enough : ∃ least, p.minInitialDeposit = .ok least ∧ least.value ≤ m.deposit.value
  /-- An id that is chosen is not taken. -/
  free : ∀ id, m.id = some id → k.registry.hasResource id = false
  /-- Where none is chosen, the counter has not come to its end. -/
  counted : m.id = none → ¬ k.Exhausted
  held : k.ledger.Affords m.sender m.deposit

structure AddDeposit.Admitted (m : AddDeposit) : Prop where
  amount : m.amount.Pays p.denom
  pending : ∃ x, k.registry.resource m.id = .ok x ∧ x.status = .pending
  held : k.ledger.Affords m.sender m.amount

structure TakeLease.Admitted (m : TakeLease) : Prop where
  hours_ne : m.hours ≠ 0
  hours : p.minLeaseHours ≤ m.hours ∧ m.hours ≤ p.maxLeaseHours
  available : ∃ x, k.registry.resource m.id = .ok x ∧ x.status = .active ∧ x.leased = false ∧
    m.amount.Buys x.pricePerHour m.hours
  held : k.ledger.Affords m.sender m.amount

structure ExtendLease.Admitted (m : ExtendLease) : Prop where
  hours_ne : m.hours ≠ 0
  running : ∃ l, k.registry.lease m.id = .ok l ∧ m.sender = l.lessee ∧
    l.hours.toNat + m.hours.toNat ≤ p.maxLeaseHours.toNat ∧ m.amount.Buys l.pricePerHour m.hours ∧
    l.total.value + m.amount.value < Decimal.capacity
  held : k.ledger.Affords m.sender m.amount

end Message

/-! ## Coins -/

theorem Coin.Pays.valid {c : Coin} {denom : String} (h : c.Pays denom)
    (hdenom : isDenom denom = true) : c.Valid where
  denom := h.denom_eq.symm ▸ hdenom
  nonneg := h.pos.le
  whole := h.whole

theorem Coin.validatePositive_iff_pays {c : Coin} {denom : String} (hdenom : isDenom denom = true) :
    c.validatePositive = .ok () ∧ c.denom = denom ↔ c.Pays denom := by
  rw [validatePositive_eq_ok]
  constructor
  · rintro ⟨⟨hvalid, hpos⟩, hc⟩
    exact ⟨hc, hvalid.whole, hpos⟩
  · intro h
    exact ⟨⟨h.valid hdenom, h.pos⟩, h.denom_eq⟩

theorem Coin.Buys.pays {amount price : Coin} {hours : UInt64} {denom : String}
    (h : amount.Buys price hours) (hprice : price.Pays denom) (hhours : hours ≠ 0) :
    amount.Pays denom where
  denom_eq := h.denom_eq.trans hprice.denom_eq
  whole := Lease.whole_of_eq_times hprice.whole h.value_eq
  pos := by
    have hne : hours.toNat ≠ 0 := fun h0 => hhours (UInt64.toNat_inj.1 h0)
    rw [h.value_eq]
    exact mul_pos hprice.pos (Nat.cast_pos.2 (Nat.pos_of_ne_zero hne))

/-- A payment goes through when the payer holds it. -/
theorem Bank.exists_sent_iff {b : Bank} {source : Account} {coin : Coin} (target : Account)
    (hb : b.current.Balanced) (hcoin : coin.Valid) :
    (∃ b', Keeper.Sent b source target coin b') ↔ b.Affords source coin := by
  constructor
  · rintro ⟨b', hsent⟩
    unfold Keeper.Sent at hsent
    split at hsent
    · next hzero =>
      rw [Affords, Coin.isZero_iff.1 hzero]
      exact (amount_balanced hb _).2
    · next hzero =>
      obtain ⟨-, hsent⟩ := transfer_eq_ok.1 hsent
      rw [if_neg hzero] at hsent
      obtain ⟨left, hdebit, -⟩ := hsent
      exact Decimal.le_iff_value.1 (afterDebit_eq_ok.1 hdebit).1
  · exact exists_sent target hb hcoin

namespace Keeper

/-! ## Actions that succeed -/

section

variable {L α β : Type} {k : Keeper L}

def Succeeds (k : Keeper L) (a : Action L α) : Prop := ∃ x, (k.run a).1 = .ok x

theorem succeeds_iff {a : Action L α} : k.Succeeds a ↔ ∃ x k', k.run a = (.ok x, k') :=
  ⟨fun ⟨x, hx⟩ => ⟨x, (k.run a).2, run_of_fst hx⟩,
    fun ⟨x, _, hrun⟩ => ⟨x, congrArg Prod.fst hrun⟩⟩

theorem succeeds_pure (k : Keeper L) (x : α) : k.Succeeds (pure x) ↔ True :=
  iff_true_intro ⟨x, rfl⟩

theorem succeeds_bind {a : Action L α} {f : α → Action L β} :
    k.Succeeds (a >>= f) ↔ ∃ x k₁, k.run a = (.ok x, k₁) ∧ k₁.Succeeds (f x) := by
  simp only [succeeds_iff, run_bind_eq_ok]
  constructor
  · rintro ⟨y, k', x, k₁, hrun, hrest⟩
    exact ⟨x, k₁, hrun, y, k', hrest⟩
  · rintro ⟨x, k₁, hrun, y, k', hrest⟩
    exact ⟨y, k', x, k₁, hrun, hrest⟩

theorem succeeds_lift_bind {x : Except Fault α} {f : α → Action L β} :
    k.Succeeds (liftM x >>= f) ↔ ∃ a, x = .ok a ∧ k.Succeeds (f a) := by
  simp only [succeeds_bind, run_liftM_eq_ok]
  constructor
  · rintro ⟨a, _, ⟨ha, rfl⟩, hrest⟩
    exact ⟨a, ha, hrest⟩
  · rintro ⟨a, ha, hrest⟩
    exact ⟨a, k, ⟨ha, rfl⟩, hrest⟩

theorem succeeds_refusal_bind {x : Except Refusal α} {f : α → Action L β} :
    k.Succeeds (liftM x >>= f) ↔ ∃ a, x = .ok a ∧ k.Succeeds (f a) := by
  simp only [succeeds_bind, run_liftM_refusal_eq_ok]
  constructor
  · rintro ⟨a, _, ⟨ha, rfl⟩, hrest⟩
    exact ⟨a, ha, hrest⟩
  · rintro ⟨a, ha, hrest⟩
    exact ⟨a, k, ⟨ha, rfl⟩, hrest⟩

theorem succeeds_check_bind {x : Except Refusal Unit} {f : Unit → Action L β} :
    k.Succeeds (liftM x >>= f) ↔ x = .ok () ∧ k.Succeeds (f ()) :=
  succeeds_refusal_bind.trans ⟨fun ⟨_, h⟩ => h, fun h => ⟨(), h⟩⟩

theorem succeeds_read_bind {f : Registry → Except Refusal α} {g : α → Action L β} :
    k.Succeeds (read f >>= g) ↔ ∃ a, f k.registry = .ok a ∧ k.Succeeds (g a) :=
  succeeds_refusal_bind

theorem succeeds_configNow_bind {f : Config → Action L β} :
    k.Succeeds (configNow >>= f) ↔ k.Succeeds (f k.config) := Iff.rfl

theorem succeeds_change_bind {f : Registry → Except Refusal Registry} {g : Unit → Action L β} :
    k.Succeeds (change f >>= g) ↔
      ∃ r, f k.registry = .ok r ∧ Succeeds { k with registry := r } (g ()) := by
  simp only [succeeds_bind, run_change_eq_ok]
  constructor
  · rintro ⟨_, _, ⟨r, hr, rfl⟩, hrest⟩
    exact ⟨r, hr, hrest⟩
  · rintro ⟨r, hr, hrest⟩
    exact ⟨(), _, ⟨r, hr, rfl⟩, hrest⟩

theorem succeeds_emit_bind {block : Block} {kind : EventKind} {id : Option ResourceId}
    {detail : EventDetail} {f : Unit → Action L β} :
    k.Succeeds (emit block kind id detail >>= f) ↔
      Succeeds { k with events := k.events ++ [⟨kind, block.height, id, detail⟩] } (f ()) := Iff.rfl

theorem succeeds_send_bind [Ledger L] {source target : Account} {amount : Coin}
    {f : Unit → Action L β} :
    k.Succeeds (send source target amount >>= f) ↔
      ∃ ledger, Sent k.ledger source target amount ledger ∧
        Succeeds { k with ledger } (f ()) := by
  simp only [succeeds_bind, run_send_eq_ok]
  constructor
  · rintro ⟨_, _, ⟨ledger, hsent, rfl⟩, hrest⟩
    exact ⟨ledger, hsent, hrest⟩
  · rintro ⟨ledger, hsent, hrest⟩
    exact ⟨(), _, ⟨ledger, hsent, rfl⟩, hrest⟩

end

variable {α : Type} {c : Config} {k : Keeper Bank} {p : Params} {b : Block}

/-- A request is handled when its check passes and it can be performed; that it is performed under
a checkpoint makes no difference. -/
theorem succeeds_handle {m : Request α} :
    k.Succeeds (m.handle b) ↔ m.check = .ok () ∧ k.Succeeds (m.perform b) := by
  have hperform : (k.enter.run (m.perform b)).1 = (k.run (m.perform b)).1 :=
    ((tame_perform b m).agree (enter_equiv k)).1
  have henter : k.enter.Succeeds (m.perform b) ↔ k.Succeeds (m.perform b) := by
    rw [Succeeds, hperform, Succeeds]
  rw [← henter, succeeds_iff, succeeds_iff]
  simp only [run_handle_eq_ok]
  constructor
  · rintro ⟨reply, k', hcheck, k₁, hrun, -⟩
    exact ⟨hcheck, reply, k₁, hrun⟩
  · rintro ⟨hcheck, reply, k₁, hrun⟩
    exact ⟨reply, _, hcheck, k₁, hrun, rfl⟩

/-! ## Registration -/

theorem exists_chooseId_iff {chosen : Option ResourceId} :
    (∃ id k₁, k.run (chooseId chosen) = (.ok id, k₁)) ↔
      (∀ id, chosen = some id → k.registry.hasResource id = false) ∧
        (chosen = none → ¬ k.Exhausted) := by
  cases chosen with
  | some id =>
    simp only [chooseId, run_read_bind_eq_ok, run_refusal_bind_eq_ok, run_pure_eq_ok]
    constructor
    · rintro ⟨_, _, _, hstored, _, hfree, -⟩
      cases hstored
      rw [require_eq_ok, Bool.not_eq_true'] at hfree
      refine ⟨?_, fun hnone => absurd hnone (Option.some_ne_none id)⟩
      rintro _ ⟨⟩
      exact hfree
    · rintro ⟨hfree, -⟩
      refine ⟨id, k, _, rfl, (), ?_, rfl, rfl⟩
      rw [require_eq_ok, Bool.not_eq_true']
      exact hfree id rfl
  | none =>
    constructor
    · rintro ⟨id, k₁, hrun⟩
      refine ⟨fun _ hsome => absurd hsome.symm (Option.some_ne_none _), fun _ hexhausted => ?_⟩
      change k.run allocateId = _ at hrun
      rw [run_allocateId] at hrun
      cases hfirst : k.registry.firstFree? k.registry.nextId with
      | none =>
        rw [hfirst] at hrun
        cases hrun
      | some n =>
        have hn := Registry.firstFree_of_firstFree? hfirst
        exact absurd (hexhausted n hn.le hn.lt) (Bool.eq_false_iff.1 hn.free)
    · rintro ⟨-, hopen⟩
      cases hfirst : k.registry.firstFree? k.registry.nextId with
      | none => exact absurd (Registry.taken_of_firstFree? hfirst) (hopen rfl)
      | some n =>
        refine ⟨.ofCounter n, { k with registry := k.registry.setNextId (n + 1) }, ?_⟩
        show k.run allocateId = _
        rw [run_allocateId, hfirst]

/-- What is registered for a message that is admitted is valid, and its deposits have a total. -/
theorem valid_registered {m : Message.RegisterResource} (hp : p.Valid) (hm : m.Admitted k p)
    (id : ResourceId) :
    (registered b m p id).Valid ∧ ∃ total, (registered b m p id).totalDeposit = .ok total := by
  have hdenom : m.deposit.denom = m.pricePerHour.denom :=
    hm.deposit.denom_eq.trans hm.price.denom_eq.symm
  have hdeposit := hm.deposit.valid hp.minDeposit.denom
  obtain ⟨total, htotal, -⟩ : ∃ total, Coin.sum m.pricePerHour.denom [m.deposit] = .ok total ∧
      total.denom = m.pricePerHour.denom := by
    refine Coin.exists_sum (fun c hc => ?_) hdeposit.whole ?_
    · rw [List.mem_singleton] at hc
      exact hc ▸ ⟨hdeposit, hdenom⟩
    · rw [List.map_singleton, List.sum_singleton]
      exact le_rfl
  refine ⟨?_, total, htotal⟩
  exact {
    url := hm.url, info := hm.info, hardware := hm.hardware
    price := hm.price.valid hp.minDeposit.denom, price_pos := hm.price.pos
    deposits := fun d hd => by
      rw [show (registered b m p id).deposits = [⟨m.sender, m.deposit, b.time⟩] from rfl,
        List.mem_singleton] at hd
      subst hd
      exact ⟨hdeposit, hm.deposit.pos, hdenom⟩
    summable := ⟨total, htotal⟩
    closing := by
      show none.isSome = true ↔ (if _ then Status.active else Status.pending) = .closed
      split <;> simp
    active := nofun }

/-- What is checked of a registration on its own, with the denomination of the parameters. -/
theorem validate_registration_iff {m : Message.RegisterResource}
    (hdenom : Coin.isDenom p.denom = true) :
    m.validate = .ok () ∧ m.pricePerHour.denom = p.denom ∧ m.deposit.denom = p.denom ↔
      validateUrl m.url = .ok () ∧ m.info.validate = .ok () ∧ m.hardware.validate = .ok () ∧
        m.pricePerHour.Pays p.denom ∧ m.deposit.Pays p.denom := by
  rw [← Coin.validatePositive_iff_pays hdenom, ← Coin.validatePositive_iff_pays hdenom,
    Message.RegisterResource.validate, check_bind_eq_ok, check_bind_eq_ok, check_bind_eq_ok,
    check_bind_eq_ok, check_bind_eq_ok, Coin.expectDenom_eq_ok]
  constructor
  · rintro ⟨⟨hurl, hinfo, hhardware, hprice, hdeposit, -⟩, hpricedenom, hdepositdenom⟩
    exact ⟨hurl, hinfo, hhardware, ⟨hprice, hpricedenom⟩, hdeposit, hdepositdenom⟩
  · rintro ⟨hurl, hinfo, hhardware, ⟨hprice, hpricedenom⟩, hdeposit, hdepositdenom⟩
    exact ⟨⟨hurl, hinfo, hhardware, hprice, hdeposit, hdepositdenom.trans hpricedenom.symm⟩,
      hpricedenom, hdepositdenom⟩

theorem succeeds_registerResource (hk : k.Solvent c) (hp : k.registry.market.Sound p)
    {m : Message.RegisterResource} :
    k.Succeeds (registerResource b m) ↔ m.Admitted k p := by
  have hl := hk.sound.1
  have hparams := Registry.params_eq_ok.2 hp.params_eq
  have hdenom : Coin.isDenom p.denom = true := hp.params_valid.minDeposit.denom
  rw [show registerResource b m = (Request.register m).handle b from rfl, succeeds_handle]
  simp only [Request.check, Request.perform, liftM_eq_ok, performRegistration, succeeds_read_bind,
    succeeds_check_bind, succeeds_lift_bind, Coin.expectDenom_eq_ok]
  constructor
  · rintro ⟨hvalid, params, hparams', hpricedenom, hdepositdenom, least, hleast, henough, hrest⟩
    obtain rfl := Except.ok.inj (hparams.symm.trans hparams')
    obtain ⟨id, k₁, hid, hrest⟩ := succeeds_bind.1 hrest
    simp only [succeeds_configNow_bind, succeeds_send_bind] at hrest
    obtain ⟨ledger, hsent, -⟩ := hrest
    obtain ⟨hurl, hinfo, hhardware, hprice, hdeposit⟩ :=
      (validate_registration_iff hdenom).1 ⟨hvalid, hpricedenom, hdepositdenom⟩
    obtain ⟨hfree, hcounted⟩ := exists_chooseId_iff.1 ⟨id, k₁, hid⟩
    obtain ⟨nextId, -, hturned⟩ := chooseId_done hl hid
    rw [hturned.ledger_eq] at hsent
    exact {
      url := hurl, info := hinfo, hardware := hhardware, price := hprice, deposit := hdeposit
      enough := ⟨least, hleast, Decimal.le_iff_value.1 (require_eq_ok.1 henough)⟩
      free := hfree, counted := hcounted
      held := (Bank.exists_sent_iff _ hk.balanced (hdeposit.valid hdenom)).1 ⟨ledger, hsent⟩ }
  · intro hm
    obtain ⟨hvalid, hpricedenom, hdepositdenom⟩ :=
      (validate_registration_iff hdenom).2 ⟨hm.url, hm.info, hm.hardware, hm.price, hm.deposit⟩
    obtain ⟨least, hleast, henough⟩ := hm.enough
    obtain ⟨id, k₁, hid⟩ := exists_chooseId_iff.2 ⟨hm.free, hm.counted⟩
    obtain ⟨nextId, -, hturned⟩ := chooseId_done hl hid
    obtain ⟨hresource, total, htotal⟩ := valid_registered hp.params_valid hm id
    obtain ⟨ledger, hsent⟩ := (Bank.exists_sent_iff k₁.config.escrow hk.balanced
      (hm.deposit.valid hdenom)).2 hm.held
    obtain ⟨r, hset⟩ := hturned.laid.exists_setResource (registered b m p id)
    refine ⟨hvalid, p, hparams, hpricedenom, hdepositdenom, least, hleast,
      require_eq_ok.2 (Decimal.le_iff_value.2 henough), succeeds_bind.2 ⟨id, k₁, hid, ?_⟩⟩
    simp only [succeeds_configNow_bind, succeeds_send_bind, succeeds_change_bind,
      succeeds_refusal_bind, succeeds_emit_bind, succeeds_pure]
    have hdetail : detailOf (registered b m p id) =
        .ok (.resource m.sender (registered b m p id).status total) :=
      bind_eq_ok.2 ⟨total, htotal, rfl⟩
    exact ⟨ledger, hturned.ledger_eq.symm ▸ hsent, (), Resource.validate_eq_ok.2 hresource, r, hset,
      _, hdetail, trivial⟩

/-! ## Deposits -/

/-- What escrow holds bounds the deposits on a resource, and so one more has a sum with them. -/
theorem exists_totalDeposit_deposited (hk : k.Solvent c) (hp : k.registry.market.Sound p)
    {m : Message.AddDeposit} (hne : m.sender ≠ c.escrow) (hamount : m.amount.Pays p.denom)
    {x : Resource} (hx : k.registry.market.resource m.id = some x) {ledger : Bank}
    (hsent : Sent k.ledger m.sender c.escrow m.amount ledger) :
    ∃ total, (deposited b m x).totalDeposit = .ok total := by
  have hl := hk.sound.1
  have hfits := hp.resource hx
  have hmem := ((Registry.isTable_resources hl).mem_iff x).2 (keeper_id hl hx)
  have hdenom : Coin.isDenom p.denom = true := hp.params_valid.minDeposit.denom
  have hold : ∀ coin ∈ x.deposits.map Deposit.amount,
      coin.Valid ∧ coin.denom = x.pricePerHour.denom := by
    intro coin hcoin
    obtain ⟨d, hd, rfl⟩ := List.mem_map.1 hcoin
    exact ⟨(hfits.valid.deposits d hd).amount, (hfits.valid.deposits d hd).denom_eq⟩
  obtain ⟨sum, hsum⟩ := hfits.valid.summable
  obtain ⟨-, -, hdeposits⟩ := depositsIn_of_mem hl hp hmem hsum
  -- Escrow held the deposits before, and holds the new one as well now.
  have hbefore := (depositsIn_le_owed hl hp hmem p.denom).trans (hk.covered p.denom)
  have hafter := Bank.amount_received hk.balanced hsent hne p.denom
  rw [hdeposits, if_pos rfl,
    Coin.value_sum (fun coin hcoin => (hold coin hcoin).1.whole) hsum] at hbefore
  rw [Coin.valueIn, if_pos hamount.denom_eq] at hafter
  have hwhole := (Bank.amount_balanced (Bank.balanced_sent hk.balanced hsent)
    ⟨c.escrow, p.denom⟩).1
  have hcoins : (deposited b m x).deposits.map Deposit.amount =
      x.deposits.map Deposit.amount ++ [m.amount] := by
    rw [deposited, List.map_append, List.map_singleton]
  obtain ⟨total, htotal, -⟩ : ∃ total, Coin.sum x.pricePerHour.denom
      ((deposited b m x).deposits.map Deposit.amount) = .ok total ∧
        total.denom = x.pricePerHour.denom := by
    rw [hcoins]
    refine Coin.exists_sum (fun coin hcoin => ?_) hwhole ?_
    · rcases List.mem_append.1 hcoin with hcoin | hcoin
      · exact hold coin hcoin
      · rw [List.mem_singleton] at hcoin
        exact hcoin ▸ ⟨hamount.valid hdenom, hamount.denom_eq.trans hfits.denom_eq.symm⟩
    · rw [List.map_append, List.sum_append, List.map_singleton, List.sum_singleton]
      linarith
  exact ⟨total, htotal⟩

theorem succeeds_addDeposit (hk : k.Solvent c) (hp : k.registry.market.Sound p)
    {m : Message.AddDeposit} (hne : m.sender ≠ c.escrow) :
    k.Succeeds (addDeposit b m) ↔ m.Admitted k p := by
  have hl := hk.sound.1
  have hparams := Registry.params_eq_ok.2 hp.params_eq
  have hdenom : Coin.isDenom p.denom = true := hp.params_valid.minDeposit.denom
  rw [show addDeposit b m = (Request.deposit m).handle b from rfl, succeeds_handle]
  simp only [Request.check, Request.perform, liftM_eq_ok, performDeposit, succeeds_read_bind,
    succeeds_configNow_bind, succeeds_send_bind, succeeds_check_bind, Coin.expectDenom_eq_ok]
  constructor
  · rintro ⟨hvalid, params, hparams', x, hx, hpending, hamountdenom, ledger, hsent, -⟩
    obtain rfl := Except.ok.inj (hparams.symm.trans hparams')
    have hamount := (Coin.validatePositive_iff_pays hdenom).1 ⟨hvalid, hamountdenom⟩
    exact {
      amount := hamount
      pending := ⟨x, hx, require_eq_ok.1 hpending⟩
      held := (Bank.exists_sent_iff _ hk.balanced (hamount.valid hdenom)).1 ⟨ledger, hsent⟩ }
  · intro hm
    obtain ⟨hvalid, hamountdenom⟩ := (Coin.validatePositive_iff_pays hdenom).2 hm.amount
    obtain ⟨x, hx, hpending⟩ := hm.pending
    obtain ⟨ledger, hsent⟩ := (Bank.exists_sent_iff k.config.escrow hk.balanced
      (hm.amount.valid hdenom)).2 hm.held
    obtain ⟨total, htotal⟩ := exists_totalDeposit_deposited (b := b) hk hp hne hm.amount
      ((Registry.resource_eq_ok hl).1 hx) (hk.config_eq ▸ hsent)
    refine ⟨hvalid, p, hparams, x, hx, require_eq_ok.2 hpending, hamountdenom, ledger, hsent, ?_⟩
    simp only [succeeds_change_bind, succeeds_refusal_bind, succeeds_emit_bind, succeeds_pure]
    obtain ⟨r, hset⟩ := hl.exists_setResource { deposited b m x with status :=
      if p.minDeposit.amount ≤ total.amount then .active else .pending }
    exact ⟨total, htotal, _, (activate_eq_ok (by exact hpending)).2 rfl, r, hset, trivial⟩

/-! ## Leases -/

/-- The check of a message that pays for hours, when its amount is their price. -/
theorem validate_bought {amount price : Coin} {hours : UInt64}
    (hdenom : Coin.isDenom p.denom = true) (hprice : price.Pays p.denom)
    (hbuys : amount.Buys price hours) (hne : hours ≠ 0) :
    Message.validateHours hours = .ok () ∧ amount.validatePositive = .ok () :=
  ⟨require_eq_ok.2 hne, ((Coin.validatePositive_iff_pays hdenom).2 (hbuys.pays hprice hne)).1⟩

theorem buys_iff {amount price : Coin} {hours : UInt64} (hprice : price.amount.Whole) :
    amount.Buys price hours ↔ ∃ cost, price.times hours = .ok cost ∧ amount ≈ cost := by
  rw [Coin.exists_times_equiv_iff hprice]
  exact ⟨fun h => ⟨h.denom_eq, h.value_eq⟩, fun h => ⟨h.1, h.2⟩⟩

theorem succeeds_takeLease (hk : k.Solvent c) (hp : k.registry.market.Sound p)
    {m : Message.TakeLease} : k.Succeeds (takeLease b m) ↔ m.Admitted k p := by
  have hl := hk.sound.1
  have hparams := Registry.params_eq_ok.2 hp.params_eq
  have hdenom : Coin.isDenom p.denom = true := hp.params_valid.minDeposit.denom
  have hprice : ∀ {x}, k.registry.resource m.id = .ok x → x.pricePerHour.Pays p.denom := by
    intro x hx
    have hfits := hp.resource ((Registry.resource_eq_ok hl).1 hx)
    exact ⟨hfits.denom_eq, hfits.valid.price.whole, hfits.valid.price_pos⟩
  rw [show takeLease b m = (Request.lease m).handle b from rfl, succeeds_handle]
  simp only [Request.check, Request.perform, liftM_eq_ok, Message.TakeLease.validate,
    check_bind_eq_ok, performLease, succeeds_read_bind, succeeds_configNow_bind,
    succeeds_send_bind, succeeds_refusal_bind]
  constructor
  · rintro ⟨⟨hhours, hvalid⟩, params, hparams', x, hx, _, hactive, _, hfree, _, hbounds, cost,
      hcost, _, hamount, ledger, hsent, -⟩
    obtain rfl := Except.ok.inj (hparams.symm.trans hparams')
    rw [require_eq_ok, Bool.not_eq_true'] at hfree
    exact {
      hours_ne := require_eq_ok.1 hhours, hours := require_eq_ok.1 hbounds
      available := ⟨x, hx, require_eq_ok.1 hactive, hfree,
        (buys_iff (hprice hx).whole).2 ⟨cost, hcost, require_eq_ok.1 hamount⟩⟩
      held := (Bank.exists_sent_iff _ hk.balanced (Coin.validatePositive_eq_ok.1 hvalid).1).1
        ⟨ledger, hsent⟩ }
  · intro hm
    obtain ⟨x, hx, hactive, hfree, hbuys⟩ := hm.available
    have hpays := hbuys.pays (hprice hx) hm.hours_ne
    obtain ⟨cost, hcost, hamount⟩ := (buys_iff (hprice hx).whole).1 hbuys
    obtain ⟨ledger, hsent⟩ := (Bank.exists_sent_iff k.config.escrow hk.balanced
      (hpays.valid hdenom)).2 hm.held
    obtain ⟨lease, hstart⟩ : ∃ lease,
        Lease.start m.id m.sender x.owner x.pricePerHour m.hours b.time = .ok lease :=
      ⟨_, Lease.start_eq_ok.2 ⟨cost, hcost, rfl⟩⟩
    obtain ⟨r, hset⟩ := hl.exists_setLease lease
    obtain ⟨r', hset'⟩ :=
      (Registry.setLease_eq_ok hl hset).1.exists_setResource { x with leased := true }
    have hnotleased : (!x.leased) = true := by rw [hfree, Bool.not_false]
    refine ⟨validate_bought hdenom (hprice hx) hbuys hm.hours_ne, p, hparams, x, hx,
      (), require_eq_ok.2 hactive, (), require_eq_ok.2 hnotleased, (), require_eq_ok.2 hm.hours,
      cost, hcost, (), require_eq_ok.2 hamount, ledger, hsent, lease, hstart, ?_⟩
    simp only [succeeds_change_bind, succeeds_emit_bind, succeeds_pure]
    exact ⟨r, hset, r', hset', trivial⟩

/-- The sum of the hours, cut off at the largest word, is within the bound and was not cut off
exactly when the sum itself is within the bound. -/
theorem min_hours_le_iff {hours extra most : UInt64} :
    min (hours.toNat + extra.toNat) largestWord.toNat ≤ most.toNat ∧
        hours.toNat + extra.toNat < UInt64.size ↔
      hours.toNat + extra.toNat ≤ most.toNat := by
  have hmost := most.toNat_lt
  simp only [largestWord_toNat, UInt64.size]
  omega

/-- A lease can be extended when its hours fit a word and its total stays within capacity. -/
theorem exists_extend_iff {l : Lease} {amount : Coin} {extra : UInt64} (hl : l.Valid)
    (hbuys : amount.Buys l.pricePerHour extra) :
    (∃ l', l.extend extra = .ok l') ↔ l.hours.toNat + extra.toNat < UInt64.size ∧
      l.total.value + amount.value < Decimal.capacity := by
  obtain ⟨cost, hcost, -⟩ := (buys_iff hl.price.whole).1 hbuys
  have hvalue := Coin.value_times hl.price.whole hcost
  have hdenom : cost.denom = l.total.denom :=
    (Coin.times_eq_ok.1 hcost).1.trans hl.total_denom.symm
  have hvalid : cost.Valid := by
    refine ⟨?_, ?_, Coin.whole_times hl.price.whole hcost⟩
    · rw [hdenom, hl.total_denom]
      exact hl.price.denom
    · rw [hvalue]
      exact mul_nonneg hl.price_pos.le (Nat.cast_nonneg _)
  rw [show amount.value = cost.value from hbuys.value_eq.trans hvalue.symm,
    ← Coin.exists_add_iff hl.total_valid hvalid hdenom]
  simp only [Lease.extend_eq_ok]
  constructor
  · rintro ⟨l', hlt, cost', total, hcost', htotal, -⟩
    obtain rfl := Except.ok.inj (hcost.symm.trans hcost')
    exact ⟨hlt, total, htotal⟩
  · rintro ⟨hlt, total, htotal⟩
    exact ⟨_, hlt, cost, total, hcost, htotal, rfl⟩

theorem succeeds_extendLease (hk : k.Solvent c) (hp : k.registry.market.Sound p)
    {m : Message.ExtendLease} : k.Succeeds (extendLease b m) ↔ m.Admitted k p := by
  have hl := hk.sound.1
  have hparams := Registry.params_eq_ok.2 hp.params_eq
  have hdenom : Coin.isDenom p.denom = true := hp.params_valid.minDeposit.denom
  have hfits : ∀ {l}, k.registry.lease m.id = .ok l →
      l.Valid ∧ l.pricePerHour.Pays p.denom := by
    intro l hlease
    have hfits := hp.lease ((Registry.lease_eq_ok hl).1 hlease)
    exact ⟨hfits.valid, hfits.denom_eq, hfits.valid.price.whole, hfits.valid.price_pos⟩
  rw [show extendLease b m = (Request.extend m).handle b from rfl, succeeds_handle]
  simp only [Request.check, Request.perform, liftM_eq_ok, Message.ExtendLease.validate,
    check_bind_eq_ok, performExtension, succeeds_read_bind, succeeds_configNow_bind,
    succeeds_send_bind, succeeds_refusal_bind]
  constructor
  · rintro ⟨⟨hhours, hvalid⟩, params, hparams', l, hlease, _, hsender, _, hbound, cost, hcost, _,
      hamount, lease, hextend, ledger, hsent, -⟩
    obtain rfl := Except.ok.inj (hparams.symm.trans hparams')
    obtain ⟨hold, hprice⟩ := hfits hlease
    have hbuys := (buys_iff hprice.whole).2 ⟨cost, hcost, require_eq_ok.1 hamount⟩
    obtain ⟨hlt, hcapacity⟩ := (exists_extend_iff hold hbuys).1 ⟨lease, hextend⟩
    exact {
      hours_ne := require_eq_ok.1 hhours
      running := ⟨l, hlease, require_eq_ok.1 hsender,
        min_hours_le_iff.1 ⟨require_eq_ok.1 hbound, hlt⟩, hbuys, hcapacity⟩
      held := (Bank.exists_sent_iff _ hk.balanced (Coin.validatePositive_eq_ok.1 hvalid).1).1
        ⟨ledger, hsent⟩ }
  · intro hm
    obtain ⟨l, hlease, hsender, hhours, hbuys, hcapacity⟩ := hm.running
    obtain ⟨hold, hprice⟩ := hfits hlease
    obtain ⟨hbound, hlt⟩ := min_hours_le_iff.2 hhours
    obtain ⟨cost, hcost, hamount⟩ := (buys_iff hprice.whole).1 hbuys
    obtain ⟨lease, hextend⟩ := (exists_extend_iff hold hbuys).2 ⟨hlt, hcapacity⟩
    obtain ⟨ledger, hsent⟩ := (Bank.exists_sent_iff k.config.escrow hk.balanced
      ((hbuys.pays hprice hm.hours_ne).valid hdenom)).2 hm.held
    obtain ⟨r, hset⟩ := hl.exists_setLease lease
    refine ⟨validate_bought hdenom hprice hbuys hm.hours_ne, p, hparams, l, hlease,
      (), require_eq_ok.2 hsender, (), require_eq_ok.2 hbound, cost, hcost,
      (), require_eq_ok.2 hamount, lease, hextend, ledger, hsent, ?_⟩
    simp only [succeeds_change_bind, succeeds_emit_bind, succeeds_pure]
    exact ⟨r, hset, trivial⟩

/-- Whatever a host has run over a bank, without acting for escrow, the messages that fund something
succeed exactly under their conditions. -/
theorem funding_succeeds_iff {config : Config} {ledger : Bank} {params : Params}
    {start : Keeper Bank} (hcreate : create config ledger params = .ok start)
    (hbank : ledger.Reached) (steps : List Step) (havoids : ∀ s ∈ steps, s.Avoids config.escrow)
    (b : Block) :
    let k := start.after steps
    ∃ p, k.registry.params = .ok p ∧
      (∀ m : Message.RegisterResource,
        (∃ reply, (k.run (registerResource b m)).1 = .ok reply) ↔ m.Admitted k p) ∧
      (∀ m : Message.AddDeposit, m.sender ≠ config.escrow →
        ((∃ reply, (k.run (addDeposit b m)).1 = .ok reply) ↔ m.Admitted k p)) ∧
      (∀ m : Message.TakeLease,
        (∃ reply, (k.run (takeLease b m)).1 = .ok reply) ↔ m.Admitted k p) ∧
      ∀ m : Message.ExtendLease,
        (∃ reply, (k.run (extendLease b m)).1 = .ok reply) ↔ m.Admitted k p := by
  intro k
  have hk : k.Solvent config := solvent_after (solvent_create hcreate hbank) havoids
  obtain ⟨-, p, hp⟩ := hk.sound
  exact ⟨p, Registry.params_eq_ok.2 hp.params_eq, fun m => succeeds_registerResource hk hp,
    fun m hne => succeeds_addDeposit hk hp hne, fun m => succeeds_takeLease hk hp,
    fun m => succeeds_extendLease hk hp⟩

/-- A node that is active once it is registered can be leased, and takes no more deposits. -/
theorem funding_of_registered_node :
    let k := Sample.keeper.after [.request (Sample.block 0) (.register Sample.registration)]
    (∃ reply, (k.run (takeLease (Sample.block 0) (Sample.lease 3))).1 = .ok reply) ∧
      ¬ ∃ reply, (k.run (addDeposit (Sample.block 0)
        ⟨Sample.nodeId, Sample.coins 1, Sample.lessee⟩)).1 = .ok reply := by
  intro k
  have havoids : ∀ s ∈ [Step.request (Sample.block 0) (.register Sample.registration)],
      s.Avoids Sample.config.escrow := by
    intro s hs
    rw [List.mem_singleton] at hs
    subst hs
    show Sample.owner ≠ Sample.config.escrow
    decide
  obtain ⟨p, hp, -, hdeposit, hlease, -⟩ := funding_succeeds_iff Sample.create_keeper
    Sample.reached_bank [.request (Sample.block 0) (.register Sample.registration)] havoids
    (Sample.block 0)
  have hparams : k.registry.params = .ok .default := by decide +kernel
  obtain rfl := Except.ok.inj (hp.symm.trans hparams)
  have hresource : k.registry.resource Sample.nodeId = .ok
      (registered (Sample.block 0) Sample.registration .default Sample.nodeId) := by decide +kernel
  have hvalue : ∀ n, (Sample.coins n).value = n.toNat := Decimal.value_ofUInt64
  constructor
  · refine (hlease (Sample.lease 3)).2 {
      hours_ne := by decide, hours := by decide
      available := ⟨_, hresource, by decide, rfl, rfl, ?_⟩
      held := Decimal.le_iff_value.1 (by decide +kernel) }
    show (Sample.coins 30).value = (Sample.coins 10).value * _
    rw [hvalue, hvalue]
    show ((30 : ℕ) : ℚ) = (10 : ℕ) * (3 : ℕ)
    norm_num
  · intro hok
    obtain ⟨-, ⟨x, hx, hpending⟩, -⟩ :=
      (hdeposit ⟨Sample.nodeId, Sample.coins 1, Sample.lessee⟩ (by decide)).1 hok
    obtain rfl := Except.ok.inj (hresource.symm.trans hx)
    exact absurd hpending (by decide)

end Keeper

end LeaseEscrow
