import LeaseEscrow.Keeper.Genesis
import LeaseEscrow.Proofs.Genesis
import LeaseEscrow.Proofs.Registry.Index
import LeaseEscrow.Proofs.Registry.Sound

/-!
# Imported registries

A registry that is filled from a genesis state holds what the state lists, and nothing else. When
the state is valid, the market that it makes is sound.
-/

namespace LeaseEscrow

/-- The state with unsigned zeros for signed ones. -/
def Genesis.plain (g : Genesis) : Genesis where
  params := g.params.plain
  resources := g.resources.map Resource.plain
  leases := g.leases.map Lease.plain
  nextId := g.nextId

theorem Genesis.Valid.plain {g : Genesis} (h : g.Valid) : g.plain.Valid := by
  have hdenom : g.plain.params.denom = g.params.denom := rfl
  -- The amounts of a valid resource are positive, so that they are plain.
  have hresources : g.resources.map Resource.plain = g.resources := by
    refine (List.map_congr_left fun x hx => ?_).trans (List.map_id _)
    exact (h.resource x hx).1.plain_eq
  have hleases : ∀ {l}, l ∈ g.plain.leases → ∃ l' ∈ g.leases, l'.plain = l := List.mem_map.1
  have hkeys : g.plain.leases.map Lease.resourceId = g.leases.map Lease.resourceId := by
    rw [Genesis.plain, List.map_map]
    rfl
  refine ⟨h.params.plain, h.nextId_ne, ?_, ?_, ?_, ?_, ?_⟩
  · intro x hx
    rw [Genesis.plain, hresources] at hx
    exact h.resource x hx
  · rw [Genesis.plain, hresources]
    exact h.resources_nodup
  · intro l hl
    obtain ⟨l, hmem, rfl⟩ := hleases hl
    obtain ⟨⟨hvalid, hprice⟩, x, hfind, howner⟩ := h.lease l hmem
    refine ⟨⟨hvalid.plain, hprice⟩, x, ?_, howner⟩
    rw [Genesis.plain, hresources]
    exact hfind
  · rw [hkeys]
    exact h.leases_nodup
  · intro x hx
    rw [Genesis.plain, hresources] at hx
    rw [h.flag x hx]
    constructor
    · rintro ⟨l, hmem, hid⟩
      exact ⟨l.plain, List.mem_map_of_mem hmem, hid⟩
    · rintro ⟨l, hl, hid⟩
      obtain ⟨l, hmem, rfl⟩ := hleases hl
      exact ⟨l, hmem, hid⟩

/-- The market holds exactly what the state lists. -/
structure Market.Lists (m : Market) (g : Genesis) : Prop where
  params_eq : m.params = some g.params
  nextId_eq : m.nextId = g.nextId
  resources : IsTable Resource.id m.resource g.resources
  leases : IsTable Lease.resourceId m.lease g.leases

namespace Market

theorem foldl_withResource (m : Market) (xs : List Resource) :
    xs.foldl (fun m x => m.withResource x.plain) m = { m with
      resource := (xs.map Resource.plain).foldl (fun f x => Function.update f x.id (some x))
        m.resource } := by
  induction xs generalizing m with
  | nil => rfl
  | cons x xs ih => exact ih (m.withResource x.plain)

theorem foldl_withLease (m : Market) (ls : List Lease) :
    ls.foldl (fun m l => m.withLease l.plain) m = { m with
      lease := (ls.map Lease.plain).foldl (fun f l => Function.update f l.resourceId (some l))
        m.lease } := by
  induction ls generalizing m with
  | nil => rfl
  | cons l ls ih => exact ih (m.withLease l.plain)

end Market

namespace Registry

variable {r : Registry} {g : Genesis}

/-- Records that are stored one after the other act on the market one after the other. -/
theorem exists_foldlM {α : Type} (store : Registry → α → Except Refusal Registry)
    (act : Market → α → Market)
    (hstore : ∀ r x, Filed r → ∃ r', store r x = .ok r' ∧ r'.Filed ∧ r'.market = act r.market x)
    (h : r.Filed) (l : List α) :
    ∃ r', l.foldlM store r = .ok r' ∧ r'.Filed ∧ r'.market = l.foldl act r.market := by
  induction l generalizing r with
  | nil => exact ⟨r, rfl, h, rfl⟩
  | cons x l ih =>
    obtain ⟨r₁, hx, hfiled, hmarket⟩ := hstore r x h
    obtain ⟨r', hrest, hfiled', hmarket'⟩ := ih hfiled
    refine ⟨r', ?_, hfiled', ?_⟩
    · rw [List.foldlM_cons, hx]
      exact hrest
    · rw [hmarket', hmarket, List.foldl_cons]

/-- A state that lists each id once can be imported, and is listed as it was, in plain records. -/
theorem exists_ofGenesis (hresources : (g.resources.map Resource.id).Nodup)
    (hleases : (g.leases.map Lease.resourceId).Nodup) :
    ∃ r, ofGenesis g = .ok r ∧ r.Filed ∧ r.market.Lists g.plain := by
  have hempty : (empty.setParams g.params).Filed := filed_empty.setParams g.params
  obtain ⟨r₁, hset₁, hfiled₁, hmarket₁⟩ :=
    exists_foldlM setResource (fun m x => m.withResource x.plain)
      (fun r x hr => hr.exists_setResource x) hempty g.resources
  obtain ⟨r₂, hset₂, hfiled₂, hmarket₂⟩ :=
    exists_foldlM setLease (fun m l => m.withLease l.plain)
      (fun r l hr => hr.exists_setLease l) hfiled₁ g.leases
  refine ⟨r₂.setNextId g.nextId, ?_, hfiled₂.setNextId _, ?_⟩
  · rw [ofGenesis, hset₁]
    show (g.leases.foldlM setLease r₁ >>= _) = _
    rw [hset₂]
    rfl
  · rw [market_setNextId, hmarket₂, hmarket₁, market_set_params, Market.foldl_withResource,
      Market.foldl_withLease]
    refine ⟨rfl, rfl, .of_foldl_update ?_, .of_foldl_update ?_⟩
    · rw [List.map_map]
      exact hresources
    · rw [List.map_map]
      exact hleases

/-- Two registries that hold what one state lists stand for one market. -/
theorem market_eq_of_lists {r' : Registry} (hl : r.Laid) (hl' : r'.Laid) (h : r.market.Lists g)
    (h' : r'.market.Lists g) : r.market = r'.market := by
  have hresource := h.resources.find_unique h'.resources (fun _ _ => id_of_market hl)
    fun _ _ => id_of_market hl'
  have hlease := h.leases.find_unique h'.leases (fun _ _ => resourceId_of_market hl)
    fun _ _ => resourceId_of_market hl'
  rw [market, market, Market.mk.injEq]
  exact ⟨h.params_eq.trans h'.params_eq.symm, h.nextId_eq.trans h'.nextId_eq.symm, hresource,
    hlease⟩

end Registry

/-- The market of a valid state is sound. -/
theorem Market.Lists.sound {r : Registry} {g : Genesis} (h : r.market.Lists g) (hl : r.Laid) (hg : g.Valid) :
    r.market.Sound g.params where
  params_eq := h.params_eq
  params_valid := hg.params
  nextId_ne := h.nextId_eq.symm ▸ hg.nextId_ne
  resource {id x} hx := by
    obtain rfl := Registry.id_of_market hl hx
    have hmem := (h.resources.mem_iff x).2 hx
    obtain ⟨hvalid, hdenom⟩ := hg.resource x hmem
    refine ⟨rfl, hvalid, hdenom, ?_⟩
    rw [hg.flag x hmem, Option.isSome_iff_exists]
    constructor
    · rintro ⟨l, hlmem, hid⟩
      exact ⟨l, hid ▸ (h.leases.mem_iff l).1 hlmem⟩
    · rintro ⟨l, hlease⟩
      have hid := Registry.resourceId_of_market hl hlease
      exact ⟨l, (h.leases.mem_iff l).2 (hid.symm ▸ hlease), hid⟩
  lease {id l} hlease := by
    obtain rfl := Registry.resourceId_of_market hl hlease
    obtain ⟨⟨hvalid, hdenom⟩, x, hfind, howner⟩ := hg.lease l ((h.leases.mem_iff l).2 hlease)
    rw [h.resources.find?_eq fun _ _ => Registry.id_of_market hl] at hfind
    exact ⟨rfl, hvalid, hdenom, x, hfind, howner⟩

end LeaseEscrow
