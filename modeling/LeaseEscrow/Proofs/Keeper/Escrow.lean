import LeaseEscrow.Proofs.Keeper.Origin

/-!
# Escrow

A keeper is *backed* when its escrow account holds exactly what its registry owes, in each
denomination. What a request or a settlement puts into escrow or takes from it is what the records
owe more or less after it. Main statement (`escrow_eq_owed_after`): as long as nobody acts for the
escrow account itself, a keeper stays backed.
-/

namespace LeaseEscrow

/-- The account neither owns the resource nor has a deposit on it. -/
structure Resource.Apart (a : Account) (x : Resource) : Prop where
  owner : x.owner ≠ a
  depositor : ∀ d ∈ x.deposits, d.depositor ≠ a

/-- Only the owner and the lessee hold coins at first. -/
theorem Sample.escrow_isZero (denom : String) :
    (Ledger.balance bank config.escrow denom).isZero = true := by
  have howner : config.escrow ≠ owner := by decide
  have hlessee : config.escrow ≠ lessee := by decide
  have hget : bank.current.balances.get? ⟨config.escrow, denom⟩ = none := by
    show ((OrderedMap.empty.insert _ _).insert _ _).get? _ = none
    rw [OrderedMap.get?_insert, OrderedMap.get?_insert,
      if_neg fun h => hlessee (congrArg Holding.account h),
      if_neg fun h => howner (congrArg Holding.account h)]
    rfl
  show (Option.getD _ Decimal.zero).isZero = true
  rw [hget]
  rfl

namespace Keeper

/-- Nothing owed is missing from escrow, nothing else is in it, and nobody that the keeper pays
is the escrow account. -/
structure Backed (c : Config) (k : Keeper Bank) : Prop where
  sound : k.Sound
  config_eq : k.config = c
  modules : c.escrow ≠ c.feeCollector ∧ c.escrow ≠ c.communityPool
  resource : ∀ {id x}, k.registry.market.resource id = some x → x.Apart c.escrow
  lessee : ∀ {id l}, k.registry.market.lease id = some l → l.lessee ≠ c.escrow
  holds : k.ledger.Holds c.escrow k.registry.owed

variable {c : Config} {k k' : Keeper Bank}

theorem ofContents_backed : OfContents (Backed c) where
  congr h hk :=
    { sound := ofContents_sound.congr h hk.sound
      config_eq := h.config ▸ hk.config_eq
      modules := hk.modules
      resource := fun hx => hk.resource ((Registry.market_congr h.registry).symm ▸ hx)
      lessee := fun hl => hk.lessee ((Registry.market_congr h.registry).symm ▸ hl)
      holds := Registry.owed_congr h.registry ▸ hk.holds.congr h.book }
  events _ hk := ⟨hk.sound, hk.config_eq, hk.modules, hk.resource, hk.lessee, hk.holds⟩

/-- Nobody that a backed keeper pays is the escrow account. -/
theorem Backed.payee_ne (hk : k.Backed c) {a : Account} (ha : k.Payee a) : a ≠ c.escrow := by
  cases ha with
  | named hx ha =>
    rcases ha with rfl | ⟨d, hd, rfl⟩
    · exact (hk.resource hx).owner
    · exact (hk.resource hx).depositor d hd
  | lessee hl => exact hk.lessee hl
  | feeCollector => exact hk.config_eq ▸ hk.modules.1.symm
  | communityPool => exact hk.config_eq ▸ hk.modules.2.symm

theorem Backed.accounted (hk : k.Backed c) {sender : Account → Prop}
    (hsender : ∀ s, sender s → s ≠ c.escrow) (h : Accounted sender k k') : k'.Backed c := by
  obtain ⟨f, hflow, howed⟩ := h.flow
  have hpayee : ∀ {a}, k.Payee a ∨ sender a → a ≠ c.escrow := fun ha =>
    ha.elim hk.payee_ne (hsender _)
  have hpayee' : ∀ {a}, k'.Payee a → a ≠ c.escrow := fun ha => hpayee (h.payee ha)
  rw [hk.config_eq] at hflow
  exact {
    sound := h.sound, config_eq := h.config_eq.trans hk.config_eq, modules := hk.modules
    resource := fun hx => ⟨hpayee' (.named hx (.inl rfl)),
      fun d hd => hpayee' (.named hx (.inr ⟨d, hd, rfl⟩))⟩
    lessee := fun hl => hpayee' (.lessee hl)
    holds := (hflow.holds hk.holds hpayee (hsender _)).of_eq fun denom => (howed denom).symm }

theorem Backed.elsewhere (hk : k.Backed c) {ledger : Bank}
    (h : k.ledger.Elsewhere c.escrow ledger) : Backed c { k with ledger } :=
  ⟨hk.sound, hk.config_eq, hk.modules, hk.resource, hk.lessee, hk.holds.elsewhere h⟩

/-! ## Runs -/

/-- Every step that avoids escrow keeps a keeper backed. -/
theorem backed_next (s : Step) (havoids : s.Avoids c.escrow) (hk : k.Backed c) :
    (k.next s).Backed c :=
  next_of_accounted ofContents_backed (fun hk => hk.sound)
    (fun _ _ _ hsender hk h => hk.accounted hsender h) (fun hk h => hk.elsewhere h) s havoids hk

/-- A new keeper is backed when its escrow account is empty. -/
theorem backed_create {ledger : Bank} {params : Params} (h : create c ledger params = .ok k)
    (hempty : ∀ denom, (Ledger.balance ledger c.escrow denom).isZero = true) : k.Backed c := by
  have hsound := sound_create h
  obtain ⟨hresource, hlease⟩ := market_create h
  obtain ⟨hconfig, -, rfl⟩ := create_eq_ok.1 h
  rw [Config.validate, check_bind_eq_ok, require_eq_ok] at hconfig
  refine ⟨hsound, rfl, hconfig.1, fun {id x} hx => ?_, fun {id l} hl => ?_, fun denom => ?_⟩
  · cases (hresource id).symm.trans hx
  · cases (hlease id).symm.trans hl
  · have hzero : (ledger.amount ⟨c.escrow, denom⟩).value = 0 := Decimal.isZero_iff.1 (hempty denom)
    exact ⟨⟨0, hzero.trans Int.cast_zero.symm⟩,
      hzero.trans (Registry.owed_of_no_records hsound.1 hresource hlease denom).symm⟩

/-- Whatever the host runs, escrow holds exactly the deposits and the unsettled rest of all
leases, in each denomination. -/
theorem escrow_eq_owed_after {config : Config} {ledger : Bank} {params : Params}
    {k : Keeper Bank} (hcreate : create config ledger params = .ok k)
    (hempty : ∀ denom, (Ledger.balance ledger config.escrow denom).isZero = true)
    (steps : List Step) (havoids : ∀ s ∈ steps, s.Avoids config.escrow) :
    ∃ resources leases, (k.after steps).registry.resources = .ok resources ∧
      (k.after steps).registry.leases = .ok leases ∧
      ∀ denom, (Ledger.balance (k.after steps).ledger config.escrow denom).value =
        (resources.map (·.depositsIn denom)).sum + (leases.map (·.owedIn denom)).sum := by
  have hk : (k.after steps).Backed config :=
    invariant_after (backed_create hcreate hempty) fun s hs _ hk => backed_next s (havoids s hs) hk
  have hl := hk.sound.1
  exact ⟨_, _, Registry.resources_eq hl, Registry.leases_eq hl, fun denom => (hk.holds denom).2⟩

/-- Here escrow holds the deposit of a node and two of the three hours of its lease. -/
theorem escrow_of_leased_node :
    ∃ resources leases,
      (Sample.keeper.after Sample.firstHour).registry.resources = .ok resources ∧
      (Sample.keeper.after Sample.firstHour).registry.leases = .ok leases ∧
      (resources.map (·.depositsIn "umedia")).sum + (leases.map (·.owedIn "umedia")).sum =
        1020 := by
  obtain ⟨resources, leases, hresources, hleases, howed⟩ :=
    escrow_eq_owed_after Sample.create_keeper Sample.escrow_isZero Sample.firstHour
      Sample.avoids_firstHour
  refine ⟨resources, leases, hresources, hleases, (howed "umedia").symm.trans ?_⟩
  have hbalance : Ledger.balance (Sample.keeper.after Sample.firstHour).ledger Sample.config.escrow
      "umedia" = Sample.coins 1020 := by decide +kernel
  rw [hbalance]
  exact Decimal.value_ofUInt64 1020

end Keeper

end LeaseEscrow
