import LeaseEscrow.Proofs.Codec.Genesis
import LeaseEscrow.Proofs.Keeper.Calls
import LeaseEscrow.Proofs.Keeper.Export
import LeaseEscrow.Proofs.Keeper.Origin

/-!
# Restarts

A keeper is exported as a document, and another one imports what is read from it. The import
holds the market of the first, in a registry that is filed as well as its own, so that the two
mirror each other. Main statement (`restart_is_transparent`): no later call can tell them apart.
-/

namespace LeaseEscrow

namespace Registry

variable {r : Registry} {g : Genesis}

/-- What is read from a registry is plain already. -/
theorem plain_of_lists (h : r.market.Lists g) : g.plain = g := by
  have hresources : g.resources.map Resource.plain = g.resources := by
    refine (List.map_congr_left fun x hx => ?_).trans (List.map_id _)
    exact plain_of_market_resource ((h.resources.mem_iff x).1 hx)
  have hleases : g.leases.map Lease.plain = g.leases := by
    refine (List.map_congr_left fun l hl => ?_).trans (List.map_id _)
    exact plain_of_market_lease ((h.leases.mem_iff l).1 hl)
  rw [Genesis.plain, hresources, hleases, plain_of_market_params h.params_eq]

end Registry

namespace Keeper

theorem lists_export {L : Type} {k : Keeper L} {p : Params} (hl : k.registry.Laid)
    (hp : k.registry.market.Sound p) :
    k.registry.market.Lists {
      params := p, resources := k.registry.resourceList, leases := k.registry.leaseList
      nextId := k.registry.nextId } where
  params_eq := hp.params_eq
  nextId_eq := rfl
  resources := Registry.isTable_resources hl
  leases := Registry.isTable_leases hl

/-- A new keeper mirrors itself. -/
theorem mirror_create {config : Config} {ledger : Bank} {params : Params} {k : Keeper Bank}
    (h : create config ledger params = .ok k) : Mirror k k := by
  obtain ⟨-, -, rfl⟩ := create_eq_ok.1 h
  exact ⟨(Registry.filed_empty.setParams params).alike, rfl, rfl, rfl⟩

/-- The export of a filed and sound keeper is read and imported, and makes a mirror of it. -/
theorem exists_mirror {k fresh : Keeper Bank} (hfiled : k.registry.Filed) (hsound : k.Sound)
    (hconfig : fresh.config = k.config) (hledger : fresh.ledger = k.ledger)
    (hevents : fresh.events = k.events) :
    ∃ g restarted, k.exportGenesis = .ok g ∧ Genesis.ofText g.toText = .ok g ∧
      fresh.run (initGenesis g) = (.ok (), restarted) ∧ Mirror restarted k := by
  obtain ⟨hl, p, hp⟩ := hsound
  have hvalid := valid_export hl hp
  have hlists := lists_export hl hp
  have hplain := Registry.plain_of_lists hlists
  have hread := Genesis.ofText_toText hvalid
  obtain ⟨r, hinit, hr, hmarket⟩ := exists_initGenesis fresh hvalid
  rw [hplain] at hread hmarket
  refine ⟨_, _, exportGenesis_of_sound hl hp, hread, hinit, ?_, hledger, hconfig, hevents⟩
  exact ⟨hr, hfiled, Registry.market_eq_of_lists hr.laid hl hmarket hlists⟩

/-- A keeper that imports the exported document goes on in the place of the exported one: it
answers every call as that would, and is left with the same events, ledger and export. -/
theorem restart_is_transparent {config : Config} {ledger : Bank} {params : Params}
    {k₀ k : Keeper Bank} (hcreate : create config ledger params = .ok k₀)
    (before : List (Sigma Call)) (hk : k = k₀.called before) (hdrained : k.events = [])
    (fresh : Keeper Bank) (hconfig : fresh.config = k.config) (hledger : fresh.ledger = k.ledger)
    (hevents : fresh.events = []) :
    ∃ g restarted, k.exportGenesis = .ok g ∧ Genesis.ofText g.toText = .ok g ∧
      fresh.run (initGenesis g) = (.ok (), restarted) ∧
      ∀ later : List (Sigma Call), restarted.answers later = k.answers later ∧
        (restarted.called later).events = (k.called later).events ∧
        (restarted.called later).ledger = (k.called later).ledger ∧
        (restarted.called later).exportGenesis = (k.called later).exportGenesis := by
  obtain ⟨-, hmirror⟩ := (mirror_create hcreate).called before
  have hsound := sound_called (sound_create hcreate) before
  rw [← hk] at hmirror hsound
  obtain ⟨g, restarted, hexport, hread, hinit, hrestarted⟩ :=
    exists_mirror hmirror.registry.left hsound hconfig hledger (hevents.trans hdrained.symm)
  refine ⟨g, restarted, hexport, hread, hinit, fun later => ?_⟩
  obtain ⟨hanswers, hafter⟩ := hrestarted.called later
  exact ⟨hanswers, hafter.events, hafter.ledger, hafter.exportGenesis⟩

end Keeper

namespace Sample

/-- A node is registered and leased, an hour is settled, and the events are taken. -/
def firstCalls : List (Sigma Call) :=
  [⟨_, .request (block 0) (.register registration)⟩, ⟨_, .request (block 0) (.lease (lease 3))⟩,
    ⟨_, .beginBlock .fresh (block 1)⟩, ⟨_, .takeEvents⟩]

/-- The market after these calls. -/
def leased : Keeper Bank := keeper.called firstCalls

/-- In the second hour the lessee cancels, and asks for what is left. -/
def secondCalls : List (Sigma Call) :=
  [⟨_, .beginBlock ⟨some 1⟩ (block 2)⟩, ⟨_, .request (block 2) (.cancel cancellation)⟩,
    ⟨_, .query (.balance lessee "umedia")⟩]

end Sample

namespace Keeper

/-- Here a leased node is taken over by another keeper after its first hour. -/
theorem restart_of_leased_node :
    ∃ g restarted, Sample.leased.exportGenesis = .ok g ∧
      g.leases.map Lease.settled = [Sample.coins 10] ∧
      (Sample.keeperOver Sample.leased.ledger).run (initGenesis g) = (.ok (), restarted) ∧
      restarted.answers Sample.secondCalls = Sample.leased.answers Sample.secondCalls := by
  have hdrained : Sample.leased.events = [] := by decide +kernel
  have hconfig : (Sample.keeperOver Sample.leased.ledger).config = Sample.leased.config := by
    decide +kernel
  have hledger : ∀ ledger, (Sample.keeperOver ledger).ledger = ledger := fun _ => rfl
  obtain ⟨g, restarted, hexport, -, hinit, hlater⟩ :=
    restart_is_transparent (k := Sample.leased) Sample.create_keeper Sample.firstCalls rfl hdrained
      (Sample.keeperOver Sample.leased.ledger) hconfig (hledger _) rfl
  have hsettled : Sample.leased.exportGenesis.map (fun g => g.leases.map Lease.settled) =
      .ok [Sample.coins 10] := by decide +kernel
  rw [hexport] at hsettled
  exact ⟨g, restarted, hexport, Except.ok.inj hsettled, hinit, (hlater Sample.secondCalls).1⟩

end Keeper

end LeaseEscrow
