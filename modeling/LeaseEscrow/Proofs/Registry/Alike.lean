import LeaseEscrow.Proofs.Keeper.Built
import LeaseEscrow.Proofs.Registry.Index
import LeaseEscrow.Query

/-!
# Registries that are alike

Registries that are filed well and stand for one market cannot be told apart: every reading and
every query gives the same on both (`Alike.reading`), and every change that actions make leaves
them alike (`Alike.change`).
-/

namespace LeaseEscrow.Registry

structure Alike (r r' : Registry) : Prop where
  left : r.Filed
  right : r'.Filed
  market_eq : r.market = r'.market

variable {r r' : Registry}

theorem Filed.alike (h : r.Filed) : Alike r r := ⟨h, h, rfl⟩

theorem Alike.congr {s s' : Registry} (h : Alike r r') (hs : s ≈ r) (hs' : s' ≈ r') : Alike s s' where
  left := (filed_congr hs).2 h.left
  right := (filed_congr hs').2 h.right
  market_eq := by rw [market_congr hs, market_congr hs', h.market_eq]

/-! ## Single records -/

theorem Placed.of_params {record : Record} (h : Placed Key.params record) :
    ∃ p, record = .params p := by
  generalize hkey : Key.params = key at h
  cases h with
  | resource x => exact absurd hkey.symm (Key.resource_ne_params _)
  | lease l => exact absurd hkey.symm (Key.lease_ne_params _)
  | counter n => exact absurd hkey.symm Key.counter_ne_params
  | params p => exact ⟨p, rfl⟩
  | mark i a id => exact absurd ⟨i, a, id, hkey⟩ Key.not_isEntry_params

theorem params_eq (h : r.Laid) :
    r.params = match r.market.params with
      | some p => .ok p
      | none => .error (.internal "params not initialised") := by
  simp only [params, get?_eq, market]
  cases hget : r.records.get? Key.params with
  | none => rfl
  | some record =>
    obtain ⟨p, rfl⟩ := (h _ _ hget).of_params
    rfl

namespace Alike

theorem params (h : Alike r r') : r.params = r'.params := by
  rw [params_eq h.left.laid, params_eq h.right.laid, h.market_eq]

theorem resource (h : Alike r r') (id : ResourceId) : r.resource id = r'.resource id := by
  rw [Registry.resource, Registry.resource, resource?_eq h.left.laid, resource?_eq h.right.laid,
    h.market_eq]

theorem lease (h : Alike r r') (id : ResourceId) : r.lease id = r'.lease id := by
  rw [Registry.lease, Registry.lease, lease?_eq h.left.laid, lease?_eq h.right.laid, h.market_eq]

theorem hasResource (h : Alike r r') (id : ResourceId) : r.hasResource id = r'.hasResource id := by
  rw [hasResource_eq h.left.laid, hasResource_eq h.right.laid, h.market_eq]

theorem nextId (h : Alike r r') : r.nextId = r'.nextId := congrArg Market.nextId h.market_eq

theorem firstFree? (h : Alike r r') (n : UInt64) : r.firstFree? n = r'.firstFree? n :=
  firstFree?_congr h.hasResource n

/-! ## Lists -/

theorem resourceList (h : Alike r r') : r.resourceList = r'.resourceList :=
  eq_of_isTable Key.resource h.left.laid.ascending_resources h.right.laid.ascending_resources
    (isTable_resources h.left.laid) (h.market_eq ▸ isTable_resources h.right.laid)

theorem leaseList (h : Alike r r') : r.leaseList = r'.leaseList :=
  eq_of_isTable Key.lease h.left.laid.ascending_leases h.right.laid.ascending_leases
    (isTable_leases h.left.laid) (h.market_eq ▸ isTable_leases h.right.laid)

theorem resources (h : Alike r r') : r.resources = r'.resources := by
  rw [resources_eq h.left.laid, resources_eq h.right.laid, h.resourceList]

theorem leases (h : Alike r r') : r.leases = r'.leases := by
  rw [leases_eq h.left.laid, leases_eq h.right.laid, h.leaseList]

theorem leaseIds (h : Alike r r') : r.leaseIds = r'.leaseIds := by
  rw [leaseIds_eq h.left.laid, leaseIds_eq h.right.laid, h.leaseList]

/-- An account is listed with the same ids. -/
theorem idsBelow (h : Alike r r') (i : Key.Index) (a : Account) :
    r.idsBelow (Key.account i a) = r'.idsBelow (Key.account i a) := by
  have hscan : r.store.scan (Key.account i a) = r'.store.scan (Key.account i a) := by
    have ascending : ∀ s : Registry,
        (s.store.scan (Key.account i a)).Pairwise fun e e' => compare e.1 e'.1 = .lt := by
      intro s
      rw [Store.scan_eq_filter]
      exact s.store.current.ascending.filter _
    refine OrderedMap.eq_of_mem_iff (ascending r) (ascending r') fun e => ?_
    rw [h.left.mem_scan_account, h.right.mem_scan_account, h.market_eq]
  rw [Registry.idsBelow, Registry.idsBelow, hscan]

theorem resourcesByOwner (h : Alike r r') (owner : Account) :
    r.resourcesByOwner owner = r'.resourcesByOwner owner := by
  rw [Registry.resourcesByOwner, Registry.resourcesByOwner, resourceIdsByOwner, resourceIdsByOwner,
    h.idsBelow, funext h.resource]

theorem leasesByLessee (h : Alike r r') (lessee : Account) :
    r.leasesByLessee lessee = r'.leasesByLessee lessee := by
  rw [Registry.leasesByLessee, Registry.leasesByLessee, leaseIdsByLessee, leaseIdsByLessee,
    h.idsBelow, funext h.lease]

/-! ## Readings and changes of actions -/

theorem reading {α : Type} {f : Registry → Except Refusal α} (hf : Reading f) (h : Alike r r') :
    f r = f r' := by
  cases hf with
  | params => exact h.params
  | resource id => exact h.resource id
  | hasResource id => exact congrArg pure (h.hasResource id)
  | resources => exact h.resources
  | lease id => exact h.lease id
  | leaseIds => exact h.leaseIds

theorem setNextId (h : Alike r r') (n : UInt64) : Alike (r.setNextId n) (r'.setNextId n) where
  left := h.left.setNextId n
  right := h.right.setNextId n
  market_eq := by rw [market_setNextId, market_setNextId, h.market_eq]

end Alike

/-- A change that actions make is one of the market. -/
theorem Change.acts {f : Registry → Except Refusal Registry} (hf : Change f) :
    ∃ act : Market → Market, ∀ r : Registry, r.Filed →
      ∃ s, f r = .ok s ∧ s.Filed ∧ s.market = act r.market := by
  cases hf with
  | setParams p =>
    refine ⟨fun m => { m with params := some p.plain }, fun r hr => ?_⟩
    exact ⟨_, rfl, hr.setParams p, market_set_params r p⟩
  | setResource x => exact ⟨(Market.withResource · x.plain), fun r hr => hr.exists_setResource x⟩
  | setLease l => exact ⟨(Market.withLease · l.plain), fun r hr => hr.exists_setLease l⟩
  | deleteLease id =>
    refine ⟨(Market.withoutLease · id), fun r hr => ?_⟩
    obtain ⟨found, s, hdelete, hs⟩ := hr.exists_deleteLease id
    refine ⟨s, ?_, hs⟩
    show (r.deleteLease id >>= fun deleted => pure deleted.2) = _
    rw [hdelete]
    rfl

theorem Alike.change {f : Registry → Except Refusal Registry} (hf : Change f) (h : Alike r r') :
    ∃ s s', f r = .ok s ∧ f r' = .ok s' ∧ Alike s s' := by
  obtain ⟨act, hact⟩ := hf.acts
  obtain ⟨s, hs, hfiled, hmarket⟩ := hact r h.left
  obtain ⟨s', hs', hfiled', hmarket'⟩ := hact r' h.right
  exact ⟨s, s', hs, hs', hfiled, hfiled', by rw [hmarket, hmarket', h.market_eq]⟩

end LeaseEscrow.Registry
