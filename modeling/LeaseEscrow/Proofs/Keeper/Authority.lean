import LeaseEscrow.Proofs.Keeper.Frame

/-!
# Authority

What a request may do to whom. Coins leave the accounts of the sender and of escrow only, since only
these pay (`Unspent`). Records are written about the subject of the request only (`writes_handle`);
there the terms of a resource are its owner's to change, and a lease is its lessee's
(`authorized_perform`). None of this asks that escrow can pay what it owes. Main statement:
`requests_keep_to_their_own`.
-/

namespace LeaseEscrow

/-! ## Terms of a resource -/

/-- What only the owner of a resource sets is the same, and the resource has not become closed. -/
structure Resource.SameTerms (x x' : Resource) : Prop where
  url : x'.url = x.url
  info : x'.info = x.info
  hardware : x'.hardware = x.hardware
  pricePerHour : x'.pricePerHour = x.pricePerHour
  opened : x'.status = .closed → x.status = .closed

theorem Resource.SameTerms.refl (x : Resource) : x.SameTerms x :=
  ⟨rfl, rfl, rfl, rfl, fun hclosed => hclosed⟩

theorem Resource.SameTerms.trans {x₁ x₂ x₃ : Resource} (h : x₁.SameTerms x₂)
    (h' : x₂.SameTerms x₃) : x₁.SameTerms x₃ where
  url := h'.url.trans h.url
  info := h'.info.trans h.info
  hardware := h'.hardware.trans h.hardware
  pricePerHour := h'.pricePerHour.trans h.pricePerHour
  opened hclosed := h.opened (h'.opened hclosed)

/-- The fields that the message provides are what it provides, and no other field changed. -/
structure Resource.UpdatedBy (m : Message.UpdateResource) (x x' : Resource) : Prop where
  url : x'.url = m.url.getD x.url
  info : x'.info = m.info.getD x.info
  hardware : x'.hardware = m.hardware.getD x.hardware
  pricePerHour : x'.pricePerHour = m.pricePerHour.getD x.pricePerHour
  rest : x' = { x with
    url := x'.url
    info := x'.info
    hardware := x'.hardware
    pricePerHour := x'.pricePerHour }

theorem Resource.updatedBy_updated (m : Message.UpdateResource) (x : Resource) :
    x.UpdatedBy m (Keeper.updated m x) := ⟨rfl, rfl, rfl, rfl, rfl⟩

namespace Market

variable {m m' m₁ m₂ m₃ : Market} {sender : Account} {id : ResourceId} {x old : Resource}
  {l : Lease}

/-- The resource of `id` stays and keeps its terms. -/
def KeepsTerms (id : ResourceId) (m m' : Market) : Prop :=
  ∀ x, m.resource id = some x → ∃ x', m'.resource id = some x' ∧ x.SameTerms x'

theorem KeepsTerms.of_resource_eq (h : m'.resource = m.resource) : KeepsTerms id m m' :=
  fun x hx => ⟨x, h ▸ hx, .refl x⟩

theorem KeepsTerms.trans (h : KeepsTerms id m₁ m₂) (h' : KeepsTerms id m₂ m₃) :
    KeepsTerms id m₁ m₃ := by
  intro x hx
  obtain ⟨y, hy, hsame⟩ := h x hx
  obtain ⟨z, hz, hsame'⟩ := h' y hy
  exact ⟨z, hz, hsame.trans hsame'⟩

theorem keepsTerms_ended (hx : m.resource x.id = some x) : KeepsTerms x.id m (m.ended x) := by
  intro y hy
  obtain rfl := Option.some.inj (hx.symm.trans hy)
  exact ⟨_, resource_ended m x, ⟨rfl, rfl, rfl, rfl, fun hclosed => hclosed⟩⟩

/-- What is stored about `id` changed as the sender may change it: the terms of the resource as its
owner, the lease as its lessee. -/
structure Authorized (sender : Account) (id : ResourceId) (m m' : Market) : Prop where
  resource : ∀ x, m.resource id = some x →
    ∃ x', m'.resource id = some x' ∧ (x.SameTerms x' ∨ sender = x.owner)
  lease : ∀ l, m.lease id = some l → m'.lease id = some l ∨ sender = l.lessee

theorem Authorized.of_same (hresource : m'.resource id = m.resource id)
    (hlease : m'.lease id = m.lease id) : Authorized sender id m m' where
  resource x hx := ⟨x, hresource.trans hx, .inl (.refl x)⟩
  lease _ hl := .inl (hlease.trans hl)

theorem Authorized.of_keepsTerms (h : KeepsTerms id m m') (hold : m.lease id = some l)
    (hlessee : sender = l.lessee) : Authorized sender id m m' where
  resource x hx := by
    obtain ⟨x', hx', hsame⟩ := h x hx
    exact ⟨x', hx', .inl hsame⟩
  lease l' hl' := .inr (Option.some.inj (hold.symm.trans hl') ▸ hlessee)

theorem authorized_withResource (hold : m.resource id = some old) (hid : x.id = id)
    (h : old.SameTerms x ∨ sender = old.owner) :
    Authorized sender id m (m.withResource x) where
  resource y hy := by
    obtain rfl := Option.some.inj (hold.symm.trans hy)
    exact ⟨x, hid ▸ resource_withResource m x, h⟩
  lease _ hl := .inl hl

end Market

namespace Keeper

variable {α : Type} {c : Config} {k k' : Keeper Bank} {b : Block} {id : ResourceId}
  {spends : Account → Prop} {bank : Bank}

/-! ## Balances -/

/-- Nobody but escrow and those who spend holds less than in `bank`. -/
structure Unspent (c : Config) (spends : Account → Prop) (bank : Bank) (k : Keeper Bank) : Prop
    where
  orderly : k.Orderly
  config_eq : k.config = c
  le_amount : ∀ a, a ≠ c.escrow → ¬ spends a → ∀ denom,
    (bank.amount ⟨a, denom⟩).value ≤ (k.ledger.amount ⟨a, denom⟩).value

theorem Orderly.unspent (hk : k.Orderly) (spends : Account → Prop) :
    Unspent k.config spends k.ledger k := ⟨hk, rfl, fun _ _ _ _ => le_rfl⟩

theorem ofContents_unspent : OfContents (Unspent c spends bank) where
  congr {k k'} h hk :=
    { orderly := ofContents_orderly.congr h hk.orderly
      config_eq := h.config ▸ hk.config_eq
      le_amount := fun a ha hs denom => by
        rw [← Bank.amount_congr h.book]
        exact hk.le_amount a ha hs denom }
  events events hk := ⟨ofContents_orderly.events events hk.orderly, hk.config_eq, hk.le_amount⟩

theorem Unspent.accounted (hk : Unspent c spends bank k) (h : Accounted spends k k') :
    Unspent c spends bank k' := by
  obtain ⟨f, hflow, -⟩ := h.flow
  rw [hk.config_eq] at hflow
  refine ⟨hk.orderly.accounted h, h.config_eq.trans hk.config_eq, fun a ha hs denom => ?_⟩
  exact (hk.le_amount a ha hs denom).trans (hflow.le_amount_other hk.orderly.balanced ha hs denom)

/-- In a request only its sender spends. -/
theorem unspent_handle (hk : k.Orderly) (b : Block) (m : Request α) :
    Unspent k.config (· = m.sender) k.ledger (k.run (m.handle b)).2 := by
  refine ofContents_unspent.recoverable.handle b (fun hcheck => ?_) k (hk.unspent _)
  exact fun _ _ _ hk h => hk.accounted (accounted_perform hk.orderly.sound hcheck h)

/-- In a block nobody spends. -/
theorem unspent_beginBlock (hk : k.Orderly) (e : Engine) (b : Block) :
    Unspent k.config (fun _ => False) k.ledger (k.run (e.beginBlock b)).2 := by
  refine ofContents_unspent.recoverable.beginBlock e b ?_ ?_ k (hk.unspent _)
  · exact fun _ _ _ _ hk h => hk.accounted (accounted_settleLease hk.orderly.sound h)
  · exact fun _ _ _ _ hk h => hk.accounted (accounted_releaseDeposits hk.orderly.sound h)

/-! ## The subject of a request -/

theorem keepsTerms_of_ended {x : Resource} {ledger : Bank} (hl : k.registry.Laid)
    (hx : k.registry.market.resource id = some x)
    (hturned : Turned k k' (k.registry.market.ended x) ledger) :
    Market.KeepsTerms id k.registry.market k'.registry.market := by
  obtain rfl := Registry.id_of_market hl hx
  exact hturned.market_eq ▸ Market.keepsTerms_ended hx

theorem Settled.keepsTerms {outcome : Outcome} (hl : k.registry.Laid)
    (h : Settled b id k outcome k') :
    Market.KeepsTerms id k.registry.market k'.registry.market := by
  cases h with
  | idle => exact .of_resource_eq rfl
  | spent _ _ _ hx hturned => exact keepsTerms_of_ended hl hx hturned
  | last _ _ _ _ _ _ _ hx hturned => exact keepsTerms_of_ended hl hx hturned
  | paid _ _ _ _ _ _ _ hturned => exact hturned.market_eq ▸ .of_resource_eq rfl

theorem authorized_deposit {m : Message.AddDeposit} {reply : Reply.Deposited}
    (hl : k.registry.Laid) (h : k.run (performDeposit b m) = (.ok reply, k')) :
    Market.Authorized m.sender m.id k.registry.market k'.registry.market := by
  obtain ⟨_, old, _, status, _, -, hold, -, -, -, -, hstatus, hturned⟩ :=
    performDeposit_done hl h
  have hplace := Registry.id_of_market hl hold
  have hplain := Registry.plain_of_market_resource hold
  rw [hturned.market_eq]
  refine Market.authorized_withResource hold hplace (.inl ?_)
  refine ⟨rfl, rfl, rfl, ?_, fun (hclosed : status = .closed) => ?_⟩
  · exact (congrArg Resource.pricePerHour hplain : old.pricePerHour.plain = old.pricePerHour)
  · rw [hclosed] at hstatus
    split at hstatus <;> cases hstatus

theorem authorized_lease {m : Message.TakeLease} {reply : Reply.Leased} (hk : k.Sound)
    (h : k.run (performLease b m) = (.ok reply, k')) :
    Market.Authorized m.sender m.id k.registry.market k'.registry.market := by
  obtain ⟨hl, p, hp⟩ := hk
  obtain ⟨_, x, _, _, -, hx, -, hfree, -, -, -, -, hturned⟩ := performLease_done hl h
  have hplace := Registry.id_of_market hl hx
  -- There was no lease before, so that only the resource has to be looked at.
  have hnone := hp.lease_of_free hx hfree
  have hresource : Market.Authorized m.sender m.id
      (k.registry.market.withLease reply.lease.plain) k'.registry.market := by
    rw [hturned.market_eq]
    refine Market.authorized_withResource hx hplace (.inl ?_)
    exact ⟨rfl, rfl, rfl, rfl, fun hclosed => hclosed⟩
  refine ⟨hresource.resource, fun l hlease => ?_⟩
  cases hnone.symm.trans hlease

theorem authorized_cancellation {m : Message.CancelLease} {reply : Reply.Cancelled} (hk : k.Sound)
    (h : k.run (performCancellation b m) = (.ok reply, k')) :
    Market.Authorized m.sender m.id k.registry.market k'.registry.market := by
  obtain ⟨lease, _, k₁, hlease, hsender, hsettled, -, hl₁, hend⟩ := performCancellation_done hk.1 h
  have hkept₁ := hsettled.keepsTerms hk.1
  refine .of_keepsTerms ?_ hlease hsender
  rcases hend with ⟨-, -, hturned⟩ | ⟨-, k₂, hrefund, hturned⟩
  · rw [hturned.market_eq]
    exact hkept₁
  · obtain ⟨_, x, _, -, -, -, hx, hended⟩ := refundLease_done hl₁ hrefund
    rw [hturned.market_eq]
    exact hkept₁.trans (keepsTerms_of_ended hl₁ hx hended)

/-- At its subject a request that succeeds does what its sender may do. -/
theorem authorized_perform {m : Request α} {reply : α} (hk : k.Sound)
    (h : k.run (m.perform b) = (.ok reply, k')) (hsubject : m.subject reply = some id) :
    Market.Authorized m.sender id k.registry.market k'.registry.market := by
  have hl := hk.1
  cases m with
  | register m =>
    -- The resource is new, and so there was nothing to change.
    obtain ⟨p, hp⟩ := hk.2
    obtain ⟨_, _, _, -, -, -, hdraws, -, -, -⟩ := performRegistration_done hl h
    obtain rfl := Option.some.inj hsubject
    have hnone := hp.lease_of_absent hdraws.free
    refine ⟨fun x hx => ?_, fun l hlease => ?_⟩
    · cases hdraws.free.symm.trans hx
    · cases hnone.symm.trans hlease
  | update m =>
    obtain rfl := Option.some.inj hsubject
    obtain ⟨old, hold, hsender, -, -, -, hturned⟩ := performUpdate_done hl h
    have hplace := Registry.id_of_market hl hold
    rw [hturned.market_eq]
    exact Market.authorized_withResource hold hplace (.inr hsender)
  | deposit m =>
    obtain rfl := Option.some.inj hsubject
    exact authorized_deposit hl h
  | lease m =>
    obtain rfl := Option.some.inj hsubject
    exact authorized_lease hk h
  | extend m =>
    obtain rfl := Option.some.inj hsubject
    obtain ⟨_, old, _, _, -, hold, hsender, -, -, -, -, hturned⟩ := performExtension_done hl h
    rw [hturned.market_eq]
    exact .of_keepsTerms (.of_resource_eq rfl) hold hsender
  | cancel m =>
    obtain rfl := Option.some.inj hsubject
    exact authorized_cancellation hk h
  | close m =>
    obtain rfl := Option.some.inj hsubject
    obtain ⟨old, hold, hsender, -, -, hturned⟩ := performClosing_done hl h
    have hplace := Registry.id_of_market hl hold
    rw [hturned.market_eq]
    exact Market.authorized_withResource hold hplace (.inr hsender)
  | setParams m => cases hsubject

/-! ## Handlers -/

theorem authorized_handle (hk : k.Sound) (b : Block) (m : Request α) (id : ResourceId) :
    Market.Authorized m.sender id k.registry.market (k.run (m.handle b)).2.registry.market := by
  by_cases hsame : ∀ key, Key.About id key →
      (k.run (m.handle b)).2.registry.records.get? key = k.registry.records.get? key
  · refine .of_same ?_ ?_
    · exact congrArg (Option.bind · Record.resource?) (hsame _ (Key.about_resource id))
    · exact congrArg (Option.bind · Record.lease?) (hsame _ (Key.about_lease id))
  · push Not at hsame
    obtain ⟨key, habout, hchanged⟩ := hsame
    obtain ⟨reply, hreply, htouches⟩ := writes_handle hk.1 hchanged
    obtain ⟨k₁, hperform, hafter⟩ := exists_perform hreply
    have hentered := ofContents_sound.congr (enter_equiv k).symm hk
    have hauthorized := authorized_perform hentered hperform (htouches.subject_eq habout)
    rwa [Registry.market_congr (enter_equiv k).registry, Registry.market_congr hafter.registry]
      at hauthorized

/-- Parameters that are different were set by the authority, and nothing else is different. -/
theorem params_handle {m : Request α} (hl : k.registry.Laid)
    (hchanged : (k.run (m.handle b)).2.registry.records.get? Key.params ≠
      k.registry.records.get? Key.params) :
    m.sender = k.config.authority ∧
      (∀ key, key ≠ Key.params → (k.run (m.handle b)).2.registry.records.get? key =
        k.registry.records.get? key) ∧
      (k.run (m.handle b)).2.ledger.current = k.ledger.current := by
  obtain ⟨reply, hreply, ⟨id, -, habout⟩ | hown⟩ := writes_handle hl hchanged
  · exact absurd habout (Key.not_about_params id)
  · cases m with
    | setParams m =>
      obtain ⟨k₁, hperform, hafter⟩ := exists_perform hreply
      have hentered := (Registry.laid_congr (enter_equiv k).registry).2 hl
      obtain ⟨_, -, hsender, -, hturned⟩ := performParamsUpdate_done hentered hperform
      refine ⟨hsender, fun key hkey => ?_, ?_⟩
      · by_contra hother
        obtain ⟨_, -, ⟨_, hsubject, -⟩ | hown'⟩ := writes_handle hl hother
        · cases hsubject
        · exact hkey (Option.some.inj hown').symm
      · rw [← hafter.book, hturned.ledger_eq]
        exact (enter_equiv k).book
    | register m =>
      obtain ⟨-, hkey⟩ := Option.ite_none_right_eq_some.1 hown
      exact absurd (Option.some.inj hkey) Key.counter_ne_params
    | _ => cases hown

/-- An update that is answered changes what it provides, and one that is not changes nothing. -/
theorem updated_handle (hk : k.Sound) (b : Block) (m : Message.UpdateResource) {x : Resource}
    (hx : k.registry.market.resource m.id = some x) :
    let k' := (k.run (updateResource b m)).2
    (∃ x', k'.registry.market.resource m.id = some x' ∧
      match (k.run (updateResource b m)).1 with
      | .ok _ => x.UpdatedBy m x'
      | .error _ => x' = x) ∧
      k'.registry.market.lease = k.registry.market.lease ∧
      k'.ledger.current = k.ledger.current := by
  intro k'
  cases hresult : (k.run (updateResource b m)).1 with
  | error e =>
    have hback : k' ≈ k := equiv_of_handle_error (m := .update m) b hresult
    rw [Registry.market_congr hback.registry]
    exact ⟨⟨x, hx, rfl⟩, rfl, hback.book⟩
  | ok reply =>
    obtain ⟨k₁, hperform, hafter⟩ := exists_perform (m := .update m) hresult
    have hafter : k₁ ≈ k' := hafter
    have hentered := (Registry.laid_congr (enter_equiv k).registry).2 hk.1
    obtain ⟨old, hold, -, -, -, -, hturned⟩ := performUpdate_done hentered hperform
    rw [Registry.market_congr (enter_equiv k).registry] at hold
    obtain rfl := Option.some.inj (hold.symm.trans hx)
    rw [← Registry.market_congr hafter.registry, hturned.market_eq, ← hafter.book,
      hturned.ledger_eq, Registry.market_congr (enter_equiv k).registry]
    refine ⟨⟨updated m old, ?_, Resource.updatedBy_updated m old⟩, rfl, (enter_equiv k).book⟩
    have hplace := Registry.id_of_market hk.1 hold
    have hid : (updated m old).id = m.id := hplace
    exact hid ▸ Market.resource_withResource _ (updated m old)

/-! ## Main statement -/

/-- How far a request goes, seen from the keepers before and after it and from its answer. -/
structure InFrame (m : Request α) (answer : Except Fault α) (k k' : Keeper Bank) : Prop where
  /-- Only the sender and escrow may hold less. -/
  le_amount : ∀ a, a ≠ m.sender → a ≠ k.config.escrow → ∀ denom,
    (k.ledger.amount ⟨a, denom⟩).value ≤ (k'.ledger.amount ⟨a, denom⟩).value
  /-- Records of a resource and of its lease, and their index entries, only change when the request
  is answered and about this resource. -/
  about : ∀ id key, Key.About id key →
    k'.registry.records.get? key ≠ k.registry.records.get? key →
      ∃ reply, answer = .ok reply ∧ m.subject reply = some id
  terms : ∀ id x, k.registry.resource id = .ok x →
    ∃ x', k'.registry.resource id = .ok x' ∧ (x.SameTerms x' ∨ m.sender = x.owner)
  lease : ∀ id l, k.registry.lease id = .ok l →
    k'.registry.lease id = .ok l ∨ m.sender = l.lessee
  params : k'.registry.records.get? Key.params ≠ k.registry.records.get? Key.params →
    m.sender = k.config.authority ∧
      (∀ key, key ≠ Key.params →
        k'.registry.records.get? key = k.registry.records.get? key) ∧
      k'.ledger.current = k.ledger.current

theorem Orderly.inFrame (hk : k.Orderly) (b : Block) (m : Request α) :
    InFrame m (k.run (m.handle b)).1 k (k.run (m.handle b)).2 := by
  have hl := hk.sound.1
  have hafter := unspent_handle hk b m
  have hl' := hafter.orderly.sound.1
  refine ⟨fun a hsender hescrow => hafter.le_amount a hescrow hsender, ?_, ?_, ?_,
    params_handle hl⟩
  · intro id key habout hchanged
    obtain ⟨reply, hreply, htouches⟩ := writes_handle hl hchanged
    exact ⟨reply, hreply, htouches.subject_eq habout⟩
  · intro id x hx
    obtain ⟨x', hx', hterms⟩ :=
      (authorized_handle hk.sound b m id).resource x ((Registry.resource_eq_ok hl).1 hx)
    exact ⟨x', (Registry.resource_eq_ok hl').2 hx', hterms⟩
  · intro id l hlease
    have hkept := (authorized_handle hk.sound b m id).lease l ((Registry.lease_eq_ok hl).1 hlease)
    exact hkept.imp_left (Registry.lease_eq_ok hl').2

/-- **Authority and frame.** Whatever happened before, a request takes coins from its sender and
from escrow only, writes about its own subject only, and does with a resource, a lease and the
parameters what only their owner, their lessee and the authority may do. An update changes the
fields that it provides and no others, and a block takes coins from escrow only. -/
theorem requests_keep_to_their_own {start : Keeper Bank} (h : start.Started)
    (hbank : start.ledger.Reached) (steps : List Step) (b : Block) :
    let k := start.after steps
    (∀ {α : Type} (m : Request α), InFrame m (k.run (m.handle b)).1 k (k.run (m.handle b)).2) ∧
    (∀ (m : Message.UpdateResource) x, k.registry.resource m.id = .ok x →
      let k' := (k.run (updateResource b m)).2
      (∃ x', k'.registry.resource m.id = .ok x' ∧
        match (k.run (updateResource b m)).1 with
        | .ok _ => x.UpdatedBy m x'
        | .error _ => x' = x) ∧
      k'.registry.lease = k.registry.lease ∧ k'.ledger.current = k.ledger.current) ∧
    ∀ (e : Engine) a, a ≠ k.config.escrow → ∀ denom,
      (k.ledger.amount ⟨a, denom⟩).value ≤
        ((k.run (e.beginBlock b)).2.ledger.amount ⟨a, denom⟩).value := by
  intro k
  have hk : k.Orderly := h.orderly_after hbank steps
  refine ⟨hk.inFrame b, ?_, fun e a hescrow => ?_⟩
  · intro m x hx k'
    have hl := hk.sound.1
    have hl' : k'.registry.Laid := (unspent_handle hk b (.update m)).orderly.sound.1
    obtain ⟨⟨x', hx', hupdated⟩, hlease, hbook⟩ :=
      updated_handle hk.sound b m ((Registry.resource_eq_ok hl).1 hx)
    refine ⟨⟨x', (Registry.resource_eq_ok hl').2 hx', hupdated⟩, ?_, hbook⟩
    funext id
    rw [Registry.lease, Registry.lease, Registry.lease?_eq hl, Registry.lease?_eq hl', hlease]
  · exact (unspent_beginBlock hk e b).le_amount a hescrow not_false

/-- The lease of a node is given up after its first hour: the owner of the node holds no less for
it, and as the lease is gone, the one who gave it up had it. -/
theorem only_lessee_gives_up_node :
    let k := Sample.keeper.after Sample.firstHour
    let k' := (k.run ((Request.cancel Sample.cancellation).handle (Sample.block 2))).2
    (∀ denom, (k.ledger.amount ⟨Sample.owner, denom⟩).value ≤
      (k'.ledger.amount ⟨Sample.owner, denom⟩).value) ∧
    ∃ l, k.registry.lease Sample.nodeId = .ok l ∧ k'.registry.lease Sample.nodeId ≠ .ok l ∧
      Sample.cancellation.sender = l.lessee := by
  intro k k'
  have hframe : InFrame (.cancel Sample.cancellation) _ k k' :=
    (requests_keep_to_their_own (.created Sample.create_keeper) Sample.reached_bank
      Sample.firstHour (Sample.block 2)).1 (.cancel Sample.cancellation)
  have hconfig : k.config = Sample.config := config_after Sample.keeper Sample.firstHour
  have hescrow : Sample.owner ≠ k.config.escrow := by
    rw [hconfig]
    decide
  refine ⟨hframe.le_amount Sample.owner (by decide) hescrow, ?_⟩
  have hleased : ((k.registry.lease Sample.nodeId).map fun _ => ()) = .ok () := by decide +kernel
  have hgone : ((k'.registry.lease Sample.nodeId).map fun _ => ()) ≠ .ok () := by decide +kernel
  obtain ⟨l, hl, -⟩ := map_eq_ok.1 hleased
  have hchanged : k'.registry.lease Sample.nodeId ≠ .ok l :=
    fun hkept => hgone (map_eq_ok.2 ⟨l, hkept, rfl⟩)
  exact ⟨l, hl, hchanged, (hframe.lease Sample.nodeId l hl).resolve_left hchanged⟩

end Keeper

end LeaseEscrow
