import LeaseEscrow.Proofs.Keeper.Sound
import LeaseEscrow.Proofs.Ledger.Balance
import LeaseEscrow.Proofs.Registry.Owed

/-!
# Accounting for escrow

What a request or a settlement pays out of escrow and into it is a flow of coins, and it comes to
what the records owe more or less after it. Who is paid is named in the records or in the
configuration, and nobody but the sender pays. Each action is looked at once (`accounted_perform`,
`accounted_settleLease`, `accounted_releaseDeposits`); an invariant that holds escrow against what
is owed follows from `next_of_accounted`.
-/

namespace LeaseEscrow

/-- The account has no part in a step of the host. -/
def Step.Avoids (a : Account) : Step → Prop
  | .request _ m => m.sender ≠ a
  | .beginBlock _ _ => True
  | .settle _ _ => True
  | .mint account _ => account ≠ a
  | .burn account _ => account ≠ a
  | .transfer source target _ => source ≠ a ∧ target ≠ a

/-- The bank after an operation of the host in which the account has no part. -/
inductive Bank.Elsewhere (a : Account) (b : Bank) : Bank → Prop where
  | mint {b' : Bank} {account : Account} {coin : Coin} (h : b.mint account coin = .ok b')
      (hne : account ≠ a) : Elsewhere a b b'
  | burn {b' : Bank} {account : Account} {coin : Coin} (h : b.burn account coin = .ok b')
      (hne : account ≠ a) : Elsewhere a b b'
  | transfer {b' : Bank} {source target : Account} {coin : Coin}
      (h : b.transfer source target coin = .ok b') (hsource : source ≠ a) (htarget : target ≠ a) :
      Elsewhere a b b'

theorem Bank.Holds.elsewhere {a : Account} {b b' : Bank} {f : String → ℚ} (hb : b.Holds a f)
    (h : b.Elsewhere a b') : b'.Holds a f := by
  cases h with
  | mint h hne => exact hb.mint h hne
  | burn h hne => exact hb.burn h hne
  | transfer h hsource htarget => exact hb.transfer h hsource htarget

/-- The account owns the resource or has a deposit on it. -/
def Resource.Names (a : Account) (x : Resource) : Prop :=
  x.owner = a ∨ ∃ d ∈ x.deposits, d.depositor = a

namespace Keeper

/-! ## Flows of coins -/

/-- Coins that the account sends to payees and is sent by payers, one after the other, and what
they add up to. -/
inductive Flow (a : Account) (payee payer : Account → Prop) : Bank → Bank → (String → ℚ) → Prop
    where
  | none (b : Bank) : Flow a payee payer b b fun _ => 0
  | paid {b b₁ b₂ : Bank} {target : Account} {coin : Coin} {f : String → ℚ}
      (hsent : Sent b a target coin b₁) (htarget : payee target)
      (rest : Flow a payee payer b₁ b₂ f) :
      Flow a payee payer b b₂ fun denom => f denom - coin.valueIn denom
  | received {b b₁ b₂ : Bank} {source : Account} {coin : Coin} {f : String → ℚ}
      (hsent : Sent b source a coin b₁) (hsource : payer source)
      (rest : Flow a payee payer b₁ b₂ f) :
      Flow a payee payer b b₂ fun denom => f denom + coin.valueIn denom

section Flow

variable {a : Account} {payee payee' payer payer' : Account → Prop} {b b₁ b₂ : Bank}
  {f g : String → ℚ}

theorem Flow.of_eq (h : Flow a payee payer b b₁ f) (heq : ∀ denom, f denom = g denom) :
    Flow a payee payer b b₁ g := funext heq ▸ h

theorem Flow.mono (h : Flow a payee payer b b₁ f) (hpayee : ∀ {t}, payee t → payee' t)
    (hpayer : ∀ {s}, payer s → payer' s) : Flow a payee' payer' b b₁ f := by
  induction h with
  | none b => exact .none b
  | paid hsent htarget _ ih => exact .paid hsent (hpayee htarget) ih
  | received hsent hsource _ ih => exact .received hsent (hpayer hsource) ih

theorem Flow.trans (h : Flow a payee payer b b₁ f) (h' : Flow a payee payer b₁ b₂ g) :
    Flow a payee payer b b₂ fun denom => f denom + g denom := by
  induction h with
  | none b => exact h'.of_eq fun denom => (zero_add _).symm
  | paid hsent htarget _ ih =>
    exact (Flow.paid hsent htarget (ih h')).of_eq fun denom => by ring
  | received hsent hsource _ ih =>
    exact (Flow.received hsent hsource (ih h')).of_eq fun denom => by ring

/-- An account that pays others and is paid by others holds what its flow leaves. -/
theorem Flow.holds (h : Flow a payee payer b b₁ f) (hb : b.Holds a g)
    (hpayee : ∀ {t}, payee t → t ≠ a) (hpayer : ∀ {s}, payer s → s ≠ a) :
    b₁.Holds a fun denom => g denom + f denom := by
  induction h generalizing g with
  | none b => exact hb.of_eq fun denom => (add_zero _).symm
  | paid hsent htarget _ ih =>
    exact (ih (hb.paid hsent (hpayee htarget))).of_eq fun denom => by ring
  | received hsent hsource _ ih =>
    exact (ih (hb.received hsent (hpayer hsource))).of_eq fun denom => by ring

end Flow

/-! ## What an action accounts for -/

/-- An account that the keeper may pay. -/
inductive Payee (k : Keeper Bank) : Account → Prop where
  | named {a : Account} {id : ResourceId} {x : Resource}
      (hx : k.registry.market.resource id = some x) (ha : x.Names a) : Payee k a
  | lessee {id : ResourceId} {l : Lease} (hl : k.registry.market.lease id = some l) :
      Payee k l.lessee
  | feeCollector : Payee k k.config.feeCollector
  | communityPool : Payee k k.config.communityPool

/-- Escrow changed by a flow to payees and from these senders, and the records came to owe as much
more. -/
structure Accounted (sender : Account → Prop) (k k' : Keeper Bank) : Prop where
  sound : k'.Sound
  config_eq : k'.config = k.config
  payee : ∀ {a}, k'.Payee a → k.Payee a ∨ sender a
  flow : ∃ f, Flow k.config.escrow (fun a => k.Payee a ∨ sender a) sender k.ledger k'.ledger f ∧
    ∀ denom, k'.registry.owed denom = k.registry.owed denom + f denom

/-- The records changed so that they name nobody new but these senders, and owe as much more. -/
structure Recorded (sender : Account → Prop) (f : String → ℚ) (k k' : Keeper Bank) : Prop where
  sound : k'.Sound
  config_eq : k'.config = k.config
  payee : ∀ {a}, k'.Payee a → k.Payee a ∨ sender a
  owed : ∀ denom, k'.registry.owed denom = k.registry.owed denom + f denom

/-- The sender paid the coin to escrow, and the records came to owe it. -/
structure Received (sender : Account) (coin : Coin) (k k' : Keeper Bank) : Prop where
  recorded : Recorded (· = sender) (fun denom => coin.valueIn denom) k k'
  sent : Sent k.ledger sender k.config.escrow coin k'.ledger

variable {α : Type} {c : Config} {k k' k₁ : Keeper Bank} {b : Block} {id : ResourceId}
  {market : Market} {ledger ledger' : Bank} {f : String → ℚ} {sender payee : Account → Prop}

theorem Accounted.trans (h : Accounted sender k k₁) (h' : Accounted sender k₁ k') :
    Accounted sender k k' where
  sound := h'.sound
  config_eq := h'.config_eq.trans h.config_eq
  payee ha := (h'.payee ha).elim h.payee .inr
  flow := by
    obtain ⟨f, hf, howed⟩ := h.flow
    obtain ⟨g, hg, howed'⟩ := h'.flow
    rw [h.config_eq] at hg
    refine ⟨_, hf.trans (hg.mono (fun ha => ha.elim h.payee .inr) id), fun denom => ?_⟩
    rw [howed', howed, add_assoc]

theorem Recorded.accounted (h : Recorded sender f k k')
    (hflow : Flow k.config.escrow (fun a => k.Payee a ∨ sender a) sender k.ledger k'.ledger f) :
    Accounted sender k k' := ⟨h.sound, h.config_eq, h.payee, f, hflow, h.owed⟩

theorem Received.accounted {sender : Account} {coin : Coin} (h : Received sender coin k k') :
    Accounted (· = sender) k k' := by
  have hflow : Flow k.config.escrow (fun a => k.Payee a ∨ a = sender) (· = sender) k.ledger
      k'.ledger fun denom => 0 + coin.valueIn denom := .received h.sent rfl (.none _)
  exact h.recorded.accounted (hflow.of_eq fun _ => zero_add _)

/-- Only what the records of `id` owe has to be compared when nothing else changed. -/
theorem Recorded.changed (hk : k.Sound) (hsound : k'.Sound) (ht : Turned k k' market ledger)
    (hsame : Market.SameOff id k.registry.market market)
    (hx : ∀ x, market.resource id = some x → ∀ a, x.Names a → k.Payee a ∨ sender a)
    (hl : ∀ l, market.lease id = some l → k.Payee l.lessee ∨ sender l.lessee)
    (howed : ∀ denom, k.registry.market.owedAt id denom + f denom = market.owedAt id denom) :
    Recorded sender f k k' := by
  obtain ⟨hlaid, rfl, -, hconfig⟩ := ht
  refine ⟨hsound, hconfig, fun ha => ?_, fun denom => ?_⟩
  · cases ha with
    | @named a j x hj ha =>
      by_cases hid : j = id
      · exact hx x (hid ▸ hj) _ ha
      · exact .inl (.named ((hsame j hid).1 ▸ hj) ha)
    | @lessee j l hj =>
      by_cases hid : j = id
      · exact hl l (hid ▸ hj)
      · exact .inl (.lessee ((hsame j hid).2 ▸ hj))
    | feeCollector => exact .inl (hconfig ▸ .feeCollector)
    | communityPool => exact .inl (hconfig ▸ .communityPool)
  · have hadd := Registry.owed_add hk.1 hlaid hsame denom
    have hdenom := howed denom
    linarith

/-- Neither the records nor the ledger change. -/
theorem Accounted.kept (hk : k.Sound) (hsound : k'.Sound) (ht : Turned k k' market k.ledger)
    (hresource : market.resource = k.registry.market.resource)
    (hlease : market.lease = k.registry.market.lease) : Accounted sender k k' := by
  obtain ⟨hlaid, rfl, hledger, hconfig⟩ := ht
  refine ⟨hsound, hconfig, fun ha => .inl ?_, fun _ => 0, hledger ▸ .none _, fun denom => ?_⟩
  · cases ha with
    | named hx ha => exact .named (hresource ▸ hx) ha
    | lessee hl => exact .lessee (hlease ▸ hl)
    | feeCollector => exact hconfig ▸ .feeCollector
    | communityPool => exact hconfig ▸ .communityPool
  · rw [Registry.owed_of_same hk.1 hlaid hresource hlease, add_zero]

/-- A new record of a resource that only adds to its deposits. -/
theorem Recorded.replaced (hk : k.Sound) (hsound : k'.Sound) {old x : Resource}
    (hold : k.registry.market.resource id = some old)
    (ht : Turned k k' (k.registry.market.withResource x) ledger) (hid : x.id = old.id)
    (hx : ∀ a, x.Names a → old.Names a ∨ sender a)
    (howed : ∀ denom, old.depositsIn denom + f denom = x.depositsIn denom) :
    Recorded sender f k k' := by
  obtain rfl : x.id = id := hid.trans (Registry.id_of_market hk.1 hold)
  refine .changed hk hsound ht (Market.sameOff_withResource _ x) ?_
    (fun l hl => .inl (.lessee hl)) fun denom => ?_
  · intro y hy a ha
    obtain rfl := Option.some.inj ((Market.resource_withResource _ x).symm.trans hy)
    exact (hx a ha).imp_left (.named hold)
  · have hdenom := howed denom
    have hat := Market.owedAt_withResource hold denom
    linarith

/-- The end of the lease of `id`, and of what it owed. -/
theorem Recorded.ended (hk : k.Sound) (hsound : k'.Sound) {x : Resource} {l : Lease}
    (hx : k.registry.market.resource id = some x) (hl : k.registry.market.lease id = some l)
    (ht : Turned k k' (k.registry.market.ended x) ledger) :
    Recorded sender (fun denom => -l.owedIn denom) k k' := by
  obtain rfl := Registry.id_of_market hk.1 hx
  have hresource := Market.resource_ended k.registry.market x
  have hlease := Market.lease_ended k.registry.market x
  refine .changed hk hsound ht (Market.sameOff_ended _ x) ?_ ?_ fun denom => ?_
  · intro y hy a ha
    obtain rfl := Option.some.inj (hresource.symm.trans hy)
    exact .inl (.named hx ha)
  · intro l' hl'
    cases hlease.symm.trans hl'
  · rw [Market.owedAt_leased hx hl, Market.owedAt_free hresource hlease,
      show ({ x with leased := false } : Resource).depositsIn denom = x.depositsIn denom from rfl]
    ring

/-- A new record of the lease of `id`. -/
theorem Recorded.withLease (hk : k.Sound) (hsound : k'.Sound) {old l : Lease}
    (hold : k.registry.market.lease id = some old) (hid : l.resourceId = id)
    (hlessee : l.lessee = old.lessee) (ht : Turned k k' (k.registry.market.withLease l) ledger)
    (howed : ∀ denom, old.owedIn denom + f denom = l.owedIn denom) : Recorded sender f k k' := by
  subst hid
  refine .changed hk hsound ht (Market.sameOff_withLease _ l) (fun x hx a ha => .inl (.named hx ha))
    ?_ fun denom => ?_
  · intro l' hl'
    obtain rfl := Option.some.inj ((Market.lease_withLease _ l).symm.trans hl')
    exact hlessee ▸ .inl (.lessee hold)
  · have hdenom := howed denom
    have hat := Market.owedAt_withLease hold denom
    linarith

/-! ## Settlement -/

/-- The three parts of a payment are what it settles. -/
theorem PaidOut.flow {owner : Account} {parts : Split} {amount : Coin} {payer : Account → Prop}
    (hpaid : PaidOut c owner parts ledger ledger') (hparts : parts.PartsOf amount)
    (howner : payee owner) (hfee : payee c.feeCollector) (hpool : payee c.communityPool) :
    Flow c.escrow payee payer ledger ledger' fun denom => -amount.valueIn denom := by
  obtain ⟨ledger₁, ledger₂, hpayment, hfees, hpools⟩ := hpaid
  refine (Flow.paid hpayment howner
    (.paid hfees hfee (.paid hpools hpool (.none _)))).of_eq fun denom => ?_
  have hsum := hparts.sum_eq
  simp only [Coin.valueIn, hparts.payment, hparts.feeCollector, hparts.communityPool]
  split
  · linarith
  · ring

theorem Refunded.flow {escrow : Account} {deposits : List Deposit} {payer : Account → Prop}
    (h : Refunded escrow deposits ledger ledger') (hd : ∀ d ∈ deposits, payee d.depositor) :
    Flow escrow payee payer ledger ledger' fun denom =>
      -(deposits.map fun d => d.amount.valueIn denom).sum := by
  induction deposits generalizing ledger with
  | nil =>
    obtain rfl := h
    exact (Flow.none _).of_eq fun denom => neg_zero.symm
  | cons d deposits ih =>
    obtain ⟨next, hsent, hrest⟩ := h
    have hnext := ih hrest fun d' hd' => hd d' (List.mem_cons_of_mem _ hd')
    refine (Flow.paid hsent (hd d List.mem_cons_self) hnext).of_eq fun denom => ?_
    rw [List.map_cons, List.sum_cons]
    ring

theorem Settled.accounted {outcome : Outcome} (hk : k.Sound) (h : Settled b id k outcome k') :
    Accounted sender k k' := by
  have hsound := h.sound hk
  obtain ⟨p, hp⟩ := hk.2
  have howner : ∀ {l}, k.registry.market.lease id = some l → k.Payee l.owner := by
    intro l hl
    obtain ⟨x, hx, hxowner⟩ := (hp.lease hl).owner
    exact .named hx (.inl hxowner.symm)
  -- What is paid out for a lease goes to its owner and to the two module accounts.
  have hflow : ∀ {lease params a parts ledger}, k.registry.market.lease id = some lease →
      lease.accrualAt b.time = .ok (some a) → Params.split params a.amount = .ok parts →
      PaidOut k.config lease.owner parts k.ledger ledger →
      Flow k.config.escrow (fun a => k.Payee a ∨ sender a) sender k.ledger ledger fun denom =>
        -a.amount.valueIn denom := by
    intro lease params a parts ledger hlease hsome hparts hpaid
    obtain ⟨-, hwhole, -⟩ := Lease.accrual_of_accrualAt (hp.lease hlease).valid hsome
    exact hpaid.flow (Params.partsOf_split hwhole hparts) (.inl (howner hlease))
      (.inl .feeCollector) (.inl .communityPool)
  cases h with
  | idle hlease =>
    exact .kept hk hk ⟨hk.1, rfl, rfl, rfl⟩ rfl rfl
  | spent hlease _ hfully hx hturned =>
    refine (Recorded.ended hk hsound hx hlease hturned).accounted ?_
    rw [hturned.ledger_eq]
    refine (Flow.none _).of_eq fun denom => ?_
    rw [Lease.owedIn_eq_zero (hp.lease hlease).valid hfully, neg_zero]
  | paid hlease _ hsome hparts hpaid hsettle _ hturned =>
    have hvalid := (hp.lease hlease).valid
    obtain ⟨-, hwhole, -⟩ := Lease.accrual_of_accrualAt hvalid hsome
    refine (Recorded.withLease hk hsound hlease ?_ ?_ hturned fun denom => ?_).accounted
      (hturned.ledger_eq ▸ hflow hlease hsome hparts hpaid)
    · obtain ⟨_, _, _, _, _, rfl⟩ := Lease.settle_eq_ok.1 hsettle
      exact (hp.lease hlease).id_eq
    · obtain ⟨_, _, _, _, _, rfl⟩ := Lease.settle_eq_ok.1 hsettle
      rfl
    · rw [Lease.owedIn_plain, Lease.owedIn_settle hvalid hwhole hsettle]
      ring
  | last hlease _ hsome hparts hpaid hsettle hfully hx hturned =>
    have hvalid := (hp.lease hlease).valid
    obtain ⟨-, hwhole, hnonneg⟩ := Lease.accrual_of_accrualAt hvalid hsome
    have hvalid' := Lease.valid_settle hvalid hwhole hnonneg hsettle
    refine (Recorded.ended hk hsound hx hlease hturned).accounted
      (hturned.ledger_eq ▸ (hflow hlease hsome hparts hpaid).of_eq fun denom => ?_)
    -- The last accrual is all that the lease still owed.
    have howed := Lease.owedIn_settle hvalid hwhole hsettle denom
    rw [Lease.owedIn_eq_zero hvalid' hfully] at howed
    linarith

theorem accounted_settleLease {outcome : Outcome} (hk : k.Sound)
    (h : k.run (settleLease b id) = (.ok outcome, k')) : Accounted sender k k' :=
  (settleLease_done hk.1 h).accounted hk

theorem accounted_releaseDeposits {refunds : List (Account × Coin)} (hk : k.Sound)
    (h : k.run (releaseDeposits b id) = (.ok refunds, k')) : Accounted sender k k' := by
  have hsound := keepsOk_releaseDeposits b id k refunds k' hk h
  obtain ⟨x, ledger, hx, -, -, hrefunded, hturned⟩ := releaseDeposits_done hk.1 h
  have hpayee : ∀ d ∈ x.deposits, k.Payee d.depositor ∨ sender d.depositor := fun d hd =>
    .inl (.named hx (.inr ⟨d, hd, rfl⟩))
  refine (Recorded.replaced hk hsound hx hturned rfl ?_ fun denom => ?_).accounted
    (hturned.ledger_eq ▸ hrefunded.flow hpayee)
  · rintro a (ha | ⟨d, hd, -⟩)
    · exact .inl (.inl ha)
    · cases hd
  · exact add_neg_cancel _

/-! ## Requests -/

theorem received_registration {m : Message.RegisterResource} {reply : Reply.Registered}
    (hk : k.Sound) (h : k.run (performRegistration b m) = (.ok reply, k')) :
    Received m.sender m.deposit k k' := by
  have hsound := sound_registration hk h
  obtain ⟨hl, p, hp⟩ := hk
  obtain ⟨params, nextId, ledger, -, -, -, hdraws, hsent, -, hturned⟩ :=
    performRegistration_done hl h
  have hresource : (Market.withResource { k.registry.market with nextId }
      (registered b m params reply.id)).resource reply.id = _ := Market.resource_withResource ..
  -- The id was free, so that nothing was owed at it before.
  have hlease := hp.lease_of_absent hdraws.free
  have hsame : Market.SameOff reply.id k.registry.market _ := Market.sameOff_withResource
    { k.registry.market with nextId } (registered b m params reply.id)
  refine ⟨.changed ⟨hl, p, hp⟩ hsound hturned hsame ?_ (fun l hl => .inl (.lessee hl))
    fun denom => ?_, hturned.ledger_eq ▸ hsent⟩
  · intro x hx a ha
    obtain rfl := Option.some.inj (hresource.symm.trans hx)
    rcases ha with ha | ⟨d, hd, ha⟩
    · exact .inr ha.symm
    · rw [List.mem_singleton.1 hd] at ha
      exact .inr ha.symm
  · rw [Market.owedAt_absent hdraws.free hlease, Market.owedAt_free hresource hlease]
    show 0 + m.deposit.valueIn denom = m.deposit.valueIn denom + 0
    ring

theorem accounted_update {m : Message.UpdateResource} (hk : k.Sound)
    (h : k.run (performUpdate b m) = (.ok (), k')) : Accounted sender k k' := by
  have hsound := sound_update hk h
  obtain ⟨old, hold, -, -, -, -, hturned⟩ := performUpdate_done hk.1 h
  exact (Recorded.replaced hk hsound hold hturned rfl (fun a ha => .inl ha)
    fun denom => add_zero _).accounted (hturned.ledger_eq ▸ .none _)

theorem received_deposit {m : Message.AddDeposit} {reply : Reply.Deposited} (hk : k.Sound)
    (hcheck : m.validate = .ok ()) (h : k.run (performDeposit b m) = (.ok reply, k')) :
    Received m.sender m.amount k k' := by
  have hsound := sound_deposit hk hcheck h
  obtain ⟨params, old, total, status, ledger, -, hold, -, -, hsent, -, -, hturned⟩ :=
    performDeposit_done hk.1 h
  refine ⟨.replaced hk hsound hold hturned rfl (fun a ha => ?_) fun denom => ?_,
    hturned.ledger_eq ▸ hsent⟩
  · rcases ha with ha | ⟨d, hd, ha⟩
    · exact .inl (.inl ha)
    · obtain ⟨d', hd', rfl⟩ := List.mem_map.1 hd
      rcases List.mem_append.1 hd' with hd' | hd'
      · exact .inl (.inr ⟨d', hd', ha⟩)
      · rw [List.mem_singleton.1 hd'] at ha
        exact .inr ha.symm
  · rw [Resource.depositsIn_plain]
    simp only [Resource.depositsIn, deposited, List.map_append, List.sum_append,
      List.map_singleton, List.sum_singleton]

theorem accounted_closing {m : Message.CloseResource} (hk : k.Sound)
    (h : k.run (performClosing b m) = (.ok (), k')) : Accounted sender k k' := by
  have hsound := sound_closing hk h
  obtain ⟨old, hold, -, -, -, hturned⟩ := performClosing_done hk.1 h
  exact (Recorded.replaced hk hsound hold hturned rfl (fun a ha => .inl ha)
    fun denom => add_zero _).accounted (hturned.ledger_eq ▸ .none _)

theorem received_lease {m : Message.TakeLease} {reply : Reply.Leased} (hk : k.Sound)
    (hcheck : m.validate = .ok ()) (h : k.run (performLease b m) = (.ok reply, k')) :
    Received m.sender m.amount k k' := by
  have hsound := sound_lease hk hcheck h
  obtain ⟨hl, p, hp⟩ := hk
  obtain ⟨params, x, cost, ledger, -, hx, -, hfree, hcost, hamount, hsent, hstart, hturned⟩ :=
    performLease_done hl h
  obtain ⟨total, -, hlease⟩ := Lease.start_eq_ok.1 hstart
  have hxid := Registry.id_of_market hl hx
  have hlid : reply.lease.plain.resourceId = x.id :=
    (Lease.resourceId_start hstart).trans hxid.symm
  have hresource := Market.resource_withResource (k.registry.market.withLease reply.lease.plain)
    { x with leased := true }
  have hlease' : ((k.registry.market.withLease reply.lease.plain).withResource
      { x with leased := true }).lease x.id = some reply.lease.plain :=
    hlid ▸ Market.lease_withLease _ _
  have hx' := keeper_id hl hx
  have hsame : Market.SameOff x.id k.registry.market
      ((k.registry.market.withLease reply.lease.plain).withResource { x with leased := true }) :=
    fun j hj => ⟨Function.update_of_ne hj _ _, Function.update_of_ne (hlid.symm ▸ hj) _ _⟩
  refine ⟨.changed ⟨hl, p, hp⟩ hsound hturned hsame ?_ ?_ fun denom => ?_,
    hturned.ledger_eq ▸ hsent⟩
  · intro y hy a ha
    obtain rfl := Option.some.inj (hresource.symm.trans hy)
    exact .inl (.named hx ha)
  · intro l hl'
    obtain rfl := Option.some.inj (hlease'.symm.trans hl')
    rw [hlease]
    exact .inr rfl
  -- The resource was free, so that no other lease stood at its id.
  · rw [Market.owedAt_free hx' (hp.lease_of_free hx' hfree),
      Market.owedAt_leased hresource hlease', Lease.owedIn_plain, Lease.owedIn_start hcost hstart,
      Coin.valueIn_congr hamount]
    show x.depositsIn denom + _ = x.depositsIn denom + _
    ring

theorem received_extension {m : Message.ExtendLease} {reply : Reply.Leased} (hk : k.Sound)
    (h : k.run (performExtension b m) = (.ok reply, k')) : Received m.sender m.amount k k' := by
  have hsound := sound_extension hk h
  obtain ⟨hl, p, hp⟩ := hk
  obtain ⟨params, old, cost, ledger, -, hold, -, hcost, hamount, hextend, hsent, hturned⟩ :=
    performExtension_done hl h
  obtain ⟨-, _, _, -, -, hlease⟩ := Lease.extend_eq_ok.1 hextend
  refine ⟨.withLease ⟨hl, p, hp⟩ hsound hold ?_ ?_ hturned fun denom => ?_,
    hturned.ledger_eq ▸ hsent⟩
  · rw [hlease]
    exact (hp.lease hold).id_eq
  · rw [hlease]
    rfl
  · rw [Lease.owedIn_plain, Lease.owedIn_extend (hp.lease hold).valid hcost hextend,
      Coin.valueIn_congr hamount]

theorem accounted_refund {refund : Coin} (hk : k.Sound)
    (h : k.run (refundLease id) = (.ok refund, k')) : Accounted sender k k' := by
  have hsound := sound_refund hk h
  obtain ⟨hl, p, hp⟩ := hk
  obtain ⟨lease, x, ledger, hlease, hunsettled, hsent, hx, hturned⟩ := refundLease_done hl h
  have hvalid := (hp.lease hlease).valid
  refine (Recorded.ended ⟨hl, p, hp⟩ hsound hx hlease hturned).accounted
    (hturned.ledger_eq ▸ (Flow.paid hsent (.inl (.lessee hlease)) (.none _)).of_eq fun denom => ?_)
  rw [Lease.owedIn_eq_valueIn hvalid (Lease.unsettled_eq_ok.1 hunsettled).1
    (Lease.value_unsettled hvalid hunsettled), zero_sub]

theorem accounted_cancellation {m : Message.CancelLease} {reply : Reply.Cancelled} (hk : k.Sound)
    (h : k.run (performCancellation b m) = (.ok reply, k')) : Accounted sender k k' := by
  rcases performCancellation_done hk.1 h with
    ⟨lease, outcome, k₁, -, -, hsettled, -, -, ⟨-, -, hturned⟩ | ⟨-, k₂, hrefund, hturned⟩⟩
  · have h₁ : Accounted sender k k₁ := hsettled.accounted hk
    exact h₁.trans (.kept h₁.sound (.of_same hturned h₁.sound) hturned rfl rfl)
  · have h₁ : Accounted sender k k₁ := hsettled.accounted hk
    have h₂ : Accounted sender k₁ k₂ := accounted_refund h₁.sound hrefund
    exact (h₁.trans h₂).trans (.kept h₂.sound (.of_same hturned h₂.sound) hturned rfl rfl)

theorem accounted_paramsUpdate {m : Message.UpdateParams} (hk : k.Sound)
    (hcheck : m.validate = .ok ()) (h : k.run (performParamsUpdate b m) = (.ok (), k')) :
    Accounted sender k k' := by
  have hsound := sound_paramsUpdate hk hcheck h
  obtain ⟨old, -, -, -, hturned⟩ := performParamsUpdate_done hk.1 h
  exact .kept hk hsound hturned rfl rfl

/-- A request that succeeds takes coins from its sender only, and accounts for them. -/
theorem accounted_perform {m : Request α} {reply : α} (hk : k.Sound) (hcheck : m.check = .ok ())
    (h : k.run (m.perform b) = (.ok reply, k')) : Accounted (· = m.sender) k k' := by
  cases m with
  | register m => exact (received_registration hk h).accounted
  | update m => exact accounted_update hk h
  | deposit m => exact (received_deposit hk (liftM_eq_ok.1 hcheck) h).accounted
  | lease m => exact (received_lease hk (liftM_eq_ok.1 hcheck) h).accounted
  | extend m => exact (received_extension hk h).accounted
  | cancel m => exact accounted_cancellation hk h
  | close m => exact accounted_closing hk h
  | setParams m => exact accounted_paramsUpdate hk hcheck h

/-! ## Steps -/

/-- A property of sound keepers that outlives accounted changes, and what the host does to other
accounts, outlives every step that avoids the account. -/
theorem next_of_accounted {P : Keeper Bank → Prop} {a : Account} (hP : OfContents P)
    (hsound : ∀ {k}, P k → k.Sound)
    (haccounted : ∀ sender {k k'}, (∀ s, sender s → s ≠ a) → P k → Accounted sender k k' → P k')
    (helsewhere : ∀ {k ledger}, P k → k.ledger.Elsewhere a ledger → P { k with ledger })
    (s : Step) (havoids : s.Avoids a) (hk : P k) : P (k.next s) := by
  have hnobody : ∀ s : Account, False → s ≠ a := fun _ h => h.elim
  have hsettle : ∀ b id, KeepsOk P (settleLease b id) := fun b id k outcome k' hk h =>
    haccounted _ hnobody hk (accounted_settleLease (hsound hk) h)
  have hrelease : ∀ b id, KeepsOk P (releaseDeposits b id) := fun b id k refunds k' hk h =>
    haccounted _ hnobody hk (accounted_releaseDeposits (hsound hk) h)
  cases s with
  | request b m =>
    refine hP.recoverable.handle b (fun hcheck k reply k' hk h => ?_) k hk
    exact haccounted (· = m.sender) (fun _ hs => hs ▸ havoids) hk
      (accounted_perform (hsound hk) hcheck h)
  | beginBlock e b => exact hP.recoverable.beginBlock e b (hsettle b) (hrelease b) k hk
  | settle b id => exact hP.recoverable.branch (built_settleLease b id) (hsettle b id) k hk
  | mint account coin =>
    exact Keeps.onLedger (fun k _ hk h => helsewhere hk (.mint h havoids)) k hk
  | burn account coin =>
    exact Keeps.onLedger (fun k _ hk h => helsewhere hk (.burn h havoids)) k hk
  | transfer source target coin =>
    exact Keeps.onLedger (fun k _ hk h => helsewhere hk (.transfer h havoids.1 havoids.2)) k hk

end Keeper

end LeaseEscrow
