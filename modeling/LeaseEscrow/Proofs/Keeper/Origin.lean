import LeaseEscrow.Proofs.Keeper.Solvency
import LeaseEscrow.Proofs.Registry.Import
import LeaseEscrow.Proofs.Sample

/-!
# The origin of a keeper

A keeper is new, or it has imported a genesis state. Either way it is sound; a new one is solvent,
as it owes nothing, and one that has imported is solvent when its invariants pass.
-/

namespace LeaseEscrow

namespace Keeper

section

variable {L : Type} {k k' : Keeper L} {g : Genesis}

/-- A valid state is imported: the registry is replaced by one that holds what the state lists. -/
theorem exists_initGenesis (k : Keeper L) (h : g.Valid) :
    ∃ r : Registry, k.run (initGenesis g) = (.ok (), { k with registry := r }) ∧ r.Filed ∧
      r.market.Lists g.plain := by
  obtain ⟨r, hr, hfiled, hlists⟩ := Registry.exists_ofGenesis h.resources_nodup h.leases_nodup
  refine ⟨r, ?_, hfiled, hlists⟩
  show k.run (liftM g.validate >>= fun _ => liftM (Registry.ofGenesis g) >>= setRegistry) = _
  rw [run_bind, run_liftM, Genesis.validate_eq_ok.2 h]
  show k.run (liftM (Registry.ofGenesis g) >>= setRegistry) = _
  rw [run_bind, run_liftM_refusal, hr]
  rfl

/-- A state whose import is accepted is valid. -/
theorem initGenesis_done (h : k.run (initGenesis g) = (.ok (), k')) :
    g.Valid ∧ k'.registry.Laid ∧ k'.registry.market.Lists g.plain ∧
      k' = { k with registry := k'.registry } := by
  have hchecked := h
  simp only [initGenesis, run_lift_bind_eq_ok] at hchecked
  obtain ⟨_, hvalidate, -⟩ := hchecked
  have hvalid := Genesis.validate_eq_ok.1 hvalidate
  obtain ⟨r, hrun, hfiled, hlists⟩ := exists_initGenesis k hvalid
  cases hrun.symm.trans h
  exact ⟨hvalid, hfiled.laid, hlists, rfl⟩

/-- New, or with an accepted genesis state imported, over any ledger. -/
inductive Begun (k : Keeper L) : Prop where
  | created {config : Config} {ledger : L} {params : Params}
      (h : create config ledger params = .ok k)
  | imported {k₀ : Keeper L} {g : Genesis} (h : k₀.run (initGenesis g) = (.ok (), k))

theorem Begun.sound (h : k.Begun) : k.Sound := by
  cases h with
  | created h => exact sound_create h
  | imported h =>
    obtain ⟨hvalid, hlaid, hlists, -⟩ := initGenesis_done h
    exact ⟨hlaid, _, hlists.sound hlaid hvalid.plain⟩

end

variable {k : Keeper Bank}

/-- New, or with an accepted genesis state imported. -/
inductive Started (k : Keeper Bank) : Prop where
  | created {config : Config} {ledger : Bank} {params : Params}
      (h : create config ledger params = .ok k)
  | imported {k₀ : Keeper Bank} {g : Genesis} (h : k₀.run (initGenesis g) = (.ok (), k))

theorem Started.begun (h : k.Started) : k.Begun := by
  cases h with
  | created h => exact .created h
  | imported h => exact .imported h

theorem Started.sound (h : k.Started) : k.Sound := h.begun.sound

/-- A keeper whose invariants pass is solvent. -/
theorem Started.solvent (h : k.Started) (hbank : k.ledger.Reached)
    (hcheck : k.checkInvariants = .ok ()) : k.Solvent k.config where
  sound := h.sound
  config_eq := rfl
  balanced := hbank.balanced
  covered := (checkInvariants_eq_ok h.sound hbank.balanced).1 hcheck

/-- A new keeper owes nothing. -/
theorem solvent_create {config : Config} {ledger : Bank} {params : Params}
    (h : create config ledger params = .ok k) (hbank : ledger.Reached) : k.Solvent config := by
  have hsound := sound_create h
  obtain ⟨hresource, hlease⟩ := market_create h
  obtain ⟨-, -, rfl⟩ := create_eq_ok.1 h
  refine ⟨hsound, rfl, hbank.balanced, fun denom => ?_⟩
  have howed : (Registry.empty.setParams params).owed denom = 0 :=
    Registry.owed_of_no_records hsound.1 hresource hlease denom
  exact howed.trans_le (Bank.amount_balanced hbank.balanced _).2

/-- Whatever the host runs, a solvent keeper stays solvent. -/
theorem solvent_after {c : Config} {steps : List Step} (hk : k.Solvent c)
    (havoids : ∀ s ∈ steps, s.Avoids c.escrow) : (k.after steps).Solvent c :=
  invariant_after hk fun s hs _ hk => solvent_next s (havoids s hs) hk

end Keeper

namespace Sample

/-- The balances of the owner and of the lessee were minted. -/
theorem reached_bank : bank.Reached := by
  have hmint : (do (← Bank.empty.mint owner (coins 1000)).mint lessee (coins 1000)) = .ok bank := by
    decide +kernel
  obtain ⟨b, howner, hlessee⟩ := bind_eq_ok.1 hmint
  exact .mint (.mint .empty howner) hlessee

theorem create_keeper : Keeper.create config bank .default = .ok keeper :=
  Keeper.create_eq_ok.2 ⟨by decide +kernel, by decide +kernel, rfl⟩

/-- Two nodes, the later one first, and the other one leased for three hours, of which one is
settled. -/
def state : Genesis where
  params := .default
  resources := [activeNode laterId false, activeNode nodeId true]
  leases := [{
    resourceId := nodeId, lessee, owner, pricePerHour := coins 10, hours := 3
    startedAt := (block 0).time, total := coins 30, settled := coins 10
    settledAt := (block 1).time }]
  nextId := 3

theorem validate_state : state.validate = .ok () := by decide +kernel

theorem avoids_firstHour : ∀ s ∈ firstHour, s.Avoids config.escrow := by
  intro s hs
  simp only [firstHour, List.mem_cons, List.not_mem_nil, or_false] at hs
  rcases hs with rfl | rfl | rfl
  · exact show owner ≠ config.escrow by decide
  · exact show lessee ≠ config.escrow by decide
  · trivial

theorem avoids_twoNodes : ∀ s ∈ twoNodes, s.Avoids config.escrow := by
  have howner : owner ≠ config.escrow := by decide
  have hlessee : lessee ≠ config.escrow := by decide
  intro s hs
  simp only [twoNodes, List.mem_cons, List.not_mem_nil, or_false] at hs
  rcases hs with rfl | rfl | rfl | rfl | rfl
  · exact howner
  · exact howner
  · exact howner
  · exact hlessee
  · exact hlessee

end Sample

end LeaseEscrow
