import LeaseEscrow.Keeper.Genesis
import LeaseEscrow.Proofs.Genesis
import LeaseEscrow.Proofs.Keeper.Sound
import LeaseEscrow.Proofs.Sample

/-!
# Exported states

The export of a sound keeper lists its market, and a genesis state that lists a sound market is
valid. Main statement (`export_after_is_valid`): whatever the host runs, the keeper can be
exported, and its own check accepts the export.
-/

namespace LeaseEscrow.Keeper

variable {L : Type}

theorem exportGenesis_of_sound {k : Keeper L} {p : Params} (hl : k.registry.Laid)
    (hp : k.registry.market.Sound p) :
    k.exportGenesis = .ok {
      params := p, resources := k.registry.resourceList, leases := k.registry.leaseList
      nextId := k.registry.nextId } := by
  rw [exportGenesis, Registry.params_eq_ok.2 hp.params_eq, Registry.resources_eq hl,
    Registry.leases_eq hl]
  rfl

theorem valid_export {k : Keeper L} {p : Params} (hl : k.registry.Laid)
    (hp : k.registry.market.Sound p) :
    Genesis.Valid {
      params := p, resources := k.registry.resourceList, leases := k.registry.leaseList
      nextId := k.registry.nextId } := by
  have hresources := Registry.isTable_resources hl
  have hleases := Registry.isTable_leases hl
  refine ⟨hp.params_valid, hp.nextId_ne, ?_, hresources.nodup, ?_, hleases.nodup, ?_⟩
  · intro x hx
    have hfits := hp.resource ((hresources.mem_iff x).1 hx)
    exact ⟨hfits.valid, hfits.denom_eq⟩
  · intro l hl'
    have hfits := hp.lease ((hleases.mem_iff l).1 hl')
    obtain ⟨x, hx, howner⟩ := hfits.owner
    refine ⟨⟨hfits.valid, hfits.denom_eq⟩, x, ?_, howner⟩
    rw [← hx]
    exact hresources.find?_eq (fun _ _ => Registry.id_of_market hl) l.resourceId
  · intro x hx
    have hfits := hp.resource ((hresources.mem_iff x).1 hx)
    rw [hfits.leased_iff, Option.isSome_iff_exists]
    constructor
    · rintro ⟨l, hl'⟩
      have hid := Registry.resourceId_of_market hl hl'
      exact ⟨l, (hleases.mem_iff l).2 (hid.symm ▸ hl'), hid⟩
    · rintro ⟨l, hl', hid⟩
      exact ⟨l, hid ▸ (hleases.mem_iff l).1 hl'⟩

/-- Every state that a keeper reaches is a valid genesis state. -/
theorem export_after_is_valid {config : Config} {ledger : Bank} {params : Params}
    {k : Keeper Bank} (hcreate : create config ledger params = .ok k) (steps : List Step) :
    ∃ g, (k.after steps).exportGenesis = .ok g ∧ g.validate = .ok () ∧ g.Valid := by
  obtain ⟨hl, p, hp⟩ := sound_after hcreate steps
  have hvalid := valid_export hl hp
  exact ⟨_, exportGenesis_of_sound hl hp, Genesis.validate_eq_ok.2 hvalid, hvalid⟩

/-- Here a node is registered and leased, and the first hour is settled. -/
theorem export_of_leased_node_is_valid :
    ∃ g, (Sample.keeper.after Sample.firstHour).exportGenesis = .ok g ∧
      g.leases.map Lease.settled = [Sample.coins 10] ∧ g.validate = .ok () := by
  have hcreate : create Sample.config Sample.bank .default = .ok Sample.keeper :=
    create_eq_ok.2 ⟨by decide +kernel, by decide +kernel, rfl⟩
  obtain ⟨g, hexport, hvalid, -⟩ := export_after_is_valid hcreate Sample.firstHour
  have hsettled : (Sample.keeper.after Sample.firstHour).exportGenesis.map
      (fun g => g.leases.map Lease.settled) = .ok [Sample.coins 10] := by decide +kernel
  rw [hexport] at hsettled
  exact ⟨g, hexport, Except.ok.inj hsettled, hvalid⟩

end LeaseEscrow.Keeper
