import LeaseEscrow.Proofs.Keeper.Sound

/-!
# What leaves a lease alone

The record of a lease changes when it is settled, extended or cancelled, and at no other time:
not by what happens to other leases, to resources, deposits and parameters, or in the ledger.
-/

namespace LeaseEscrow

/-- The request asks for the end of the lease of `id`. -/
def Request.Cancels {α : Type} (id : ResourceId) : Request α → Prop
  | .cancel m => m.id = id
  | _ => False

def Step.Cancels (id : ResourceId) : Step → Prop
  | .request _ m => m.Cancels id
  | _ => False

namespace Keeper

/-- The lease of `id` in a sound keeper of this configuration. -/
structure Standing (c : Config) (id : ResourceId) (l? : Option Lease) (k : Keeper Bank) : Prop where
  sound : k.Sound
  config_eq : k.config = c
  lease_eq : k.registry.market.lease id = l?

variable {α : Type} {c : Config} {id j : ResourceId} {l? : Option Lease} {l : Lease}
  {k k' : Keeper Bank} {b : Block} {market : Market} {ledger : Bank}

theorem ofContents_standing : OfContents (Standing c id l?) where
  congr h hk :=
    { sound := ofContents_sound.congr h hk.sound
      config_eq := h.config ▸ hk.config_eq
      lease_eq := Registry.market_congr h.registry ▸ hk.lease_eq }
  events _ hk := ⟨hk.sound, hk.config_eq, hk.lease_eq⟩

theorem Standing.turned (hk : Standing c id l? k) (hsound : k'.Sound)
    (ht : Turned k k' market ledger) {l' : Option Lease} (hlease : market.lease id = l') :
    Standing c id l' k' where
  sound := hsound
  config_eq := ht.config_eq.trans hk.config_eq
  lease_eq := ht.market_eq.symm ▸ hlease

/-- The end of the lease of another resource. -/
theorem Standing.ended_of_ne (hk : Standing c id l? k) (hsound : k'.Sound) (hne : j ≠ id)
    {x : Resource} (hx : k.registry.market.resource j = some x)
    (ht : Turned k k' (k.registry.market.ended x) ledger) : Standing c id l? k' := by
  obtain rfl := Registry.id_of_market hk.sound.1 hx
  exact hk.turned hsound ht ((Function.update_of_ne hne.symm _ _).trans hk.lease_eq)

/-! ## Settlement -/

theorem Settled.standing_of_ne {outcome : Outcome} (hk : Standing c id l? k) (hne : j ≠ id)
    (h : Settled b j k outcome k') : Standing c id l? k' := by
  have hsound := h.sound hk.sound
  cases h with
  | idle => exact hk
  | spent _ _ _ hx hturned => exact hk.ended_of_ne hsound hne hx hturned
  | last _ _ _ _ _ _ _ hx hturned => exact hk.ended_of_ne hsound hne hx hturned
  | paid hlease _ _ _ _ hsettle _ hturned =>
    obtain ⟨_, _, _, _, _, rfl⟩ := Lease.settle_eq_ok.1 hsettle
    have hid := Registry.resourceId_of_market hk.sound.1 hlease
    refine hk.turned hsound hturned ((Function.update_of_ne ?_ _ _).trans hk.lease_eq)
    exact fun h => hne (hid.symm.trans h.symm)

theorem standing_settleLease (b : Block) (hne : j ≠ id) :
    KeepsOk (Standing c id l?) (settleLease b j) :=
  fun _ _ _ hk h => (settleLease_done hk.sound.1 h).standing_of_ne hk hne

theorem standing_releaseDeposits (b : Block) (j : ResourceId) :
    KeepsOk (Standing c id l?) (releaseDeposits b j) := by
  intro k refunds k' hk h
  have hsound := keepsOk_releaseDeposits b j k refunds k' hk.sound h
  obtain ⟨x, ledger, -, -, -, -, hturned⟩ := releaseDeposits_done hk.sound.1 h
  exact hk.turned hsound hturned hk.lease_eq

/-! ## Requests -/

theorem standing_lease {m : Message.TakeLease} {reply : Reply.Leased}
    (hk : Standing c id (some l) k) (hcheck : m.validate = .ok ())
    (h : k.run (performLease b m) = (.ok reply, k')) : Standing c id (some l) k' := by
  have hsound := sound_lease hk.sound hcheck h
  obtain ⟨hl, p, hp⟩ := hk.sound
  obtain ⟨_, x, _, _, -, hx, -, hfree, -, -, -, hstart, hturned⟩ := performLease_done hl h
  -- A resource with a lease cannot be leased again.
  have hne : id ≠ m.id := by
    rintro rfl
    cases hk.lease_eq.symm.trans (hp.lease_of_free hx hfree)
  have hid : reply.lease.plain.resourceId = m.id := Lease.resourceId_start hstart
  refine hk.turned hsound hturned ((Function.update_of_ne ?_ _ _).trans hk.lease_eq)
  exact hid.symm ▸ hne

theorem standing_extension {m : Message.ExtendLease} {reply : Reply.Leased}
    (hk : Standing c id (some l) k) (h : k.run (performExtension b m) = (.ok reply, k')) :
    Standing c id (some l) k' ∨
      ∃ extra l', l.extend extra = .ok l' ∧ Standing c id (some l'.plain) k' := by
  have hsound := sound_extension hk.sound h
  obtain ⟨_, old, _, _, -, hold, -, -, -, hextend, -, hturned⟩ := performExtension_done hk.sound.1 h
  have hid : reply.lease.plain.resourceId = m.id :=
    (Lease.resourceId_extend hextend).trans (Registry.resourceId_of_market hk.sound.1 hold)
  by_cases hm : m.id = id
  · right
    subst hm
    obtain rfl := Option.some.inj (hk.lease_eq.symm.trans hold)
    exact ⟨m.hours, reply.lease, hextend, hk.turned hsound hturned (hid ▸ Market.lease_withLease _ _)⟩
  · left
    refine hk.turned hsound hturned ((Function.update_of_ne ?_ _ _).trans hk.lease_eq)
    exact fun h => hm (hid.symm.trans h.symm)

theorem standing_cancellation {m : Message.CancelLease} {reply : Reply.Cancelled}
    (hk : Standing c id l? k) (hne : m.id ≠ id)
    (h : k.run (performCancellation b m) = (.ok reply, k')) : Standing c id l? k' := by
  rcases performCancellation_done hk.sound.1 h with
    ⟨lease, outcome, k₁, -, -, hsettled, -, -, ⟨-, -, hturned⟩ | ⟨-, k₂, hrefund, hturned⟩⟩
  · have hk₁ := hsettled.standing_of_ne hk hne
    exact hk₁.turned (.of_same hturned hk₁.sound) hturned hk₁.lease_eq
  · have hk₁ := hsettled.standing_of_ne hk hne
    have hsound := sound_refund hk₁.sound hrefund
    obtain ⟨_, x, _, -, -, -, hx, hturned'⟩ := refundLease_done hk₁.sound.1 hrefund
    have hk₂ := hk₁.ended_of_ne hsound hne hx hturned'
    exact hk₂.turned (.of_same hturned hk₂.sound) hturned hk₂.lease_eq

/-- A request that does not cancel the lease leaves it as it is or extends it. -/
theorem standing_perform {m : Request α} {reply : α} (hk : Standing c id (some l) k)
    (hcheck : m.check = .ok ()) (hm : ¬ m.Cancels id)
    (h : k.run (m.perform b) = (.ok reply, k')) :
    Standing c id (some l) k' ∨
      ∃ extra l', l.extend extra = .ok l' ∧ Standing c id (some l'.plain) k' := by
  have hsound := keepsOk_perform hcheck k reply k' hk.sound h
  have hl := hk.sound.1
  cases m with
  | register m =>
    obtain ⟨_, _, _, -, -, -, -, -, -, hturned⟩ := performRegistration_done hl h
    exact .inl (hk.turned hsound hturned hk.lease_eq)
  | update m =>
    obtain ⟨_, -, -, -, -, -, hturned⟩ := performUpdate_done hl h
    exact .inl (hk.turned hsound hturned hk.lease_eq)
  | deposit m =>
    obtain ⟨_, _, _, _, _, -, -, -, -, -, -, -, hturned⟩ := performDeposit_done hl h
    exact .inl (hk.turned hsound hturned hk.lease_eq)
  | lease m => exact .inl (standing_lease hk (liftM_eq_ok.1 hcheck) h)
  | extend m => exact standing_extension hk h
  | cancel m => exact .inl (standing_cancellation hk hm h)
  | close m =>
    obtain ⟨_, -, -, -, -, hturned⟩ := performClosing_done hl h
    exact .inl (hk.turned hsound hturned hk.lease_eq)
  | setParams m =>
    obtain ⟨_, -, -, -, hturned⟩ := performParamsUpdate_done hl h
    exact .inl (hk.turned hsound hturned hk.lease_eq)

end Keeper

end LeaseEscrow
