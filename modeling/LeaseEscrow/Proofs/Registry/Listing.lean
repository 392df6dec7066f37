import LeaseEscrow.Proofs.Registry.Index
import LeaseEscrow.Query

/-!
# Listing by account

Whatever is done to a registry, and however its checkpoints are nested, its index is that of the
records that it holds. Main statement (`listing_by_account`): what is found through the index of an
account is what a full listing has of that account, in the same order, and nothing is missing.
-/

namespace LeaseEscrow.Registry

/-! ## Operations -/

/-- What can be done to a registry and to its store. -/
inductive Operation where
  | setResource (x : Resource)
  | deleteResource (id : ResourceId)
  | setLease (l : Lease)
  | deleteLease (id : ResourceId)
  | setParams (p : Params)
  | takeId
  | setNextId (n : UInt64)
  | checkpoint
  | commit
  | revert

/-- The registry that an operation makes of another. -/
def Operation.apply (r : Registry) : Operation → Except Fault Registry
  | setResource x => r.setResource x
  | deleteResource id => return (← r.deleteResource id).2
  | setLease l => r.setLease l
  | deleteLease id => return (← r.deleteLease id).2
  | setParams p => .ok (r.setParams p)
  | takeId => return (← r.takeId).2
  | setNextId n => .ok (r.setNextId n)
  | checkpoint => .ok ⟨r.store.checkpoint⟩
  | commit => .ok ⟨r.store.commit⟩
  | revert => .ok ⟨r.store.revert⟩

/-- The registry after an operation; one that has no result leaves it as it is. -/
def next (r : Registry) (op : Operation) : Registry :=
  match op.apply r with
  | .ok r' => r'
  | .error _ => r

/-- An empty registry after some operations. -/
def after (ops : List Operation) : Registry := ops.foldl next empty

/-- The registry is filed well, and so is every one that it can go back to. -/
def WellFiled (r : Registry) : Prop := r.store.Throughout fun records => Filed ⟨.ofValue records⟩

variable {r r' : Registry}

theorem filed_ofValue (r : Registry) : Filed ⟨.ofValue r.records⟩ ↔ r.Filed := filed_congr rfl

theorem WellFiled.filed (h : r.WellFiled) : r.Filed := (filed_ofValue r).1 h.1

theorem WellFiled.written (h : r.WellFiled) (hfiled : r'.Filed)
    (hsnapshots : r'.store.snapshots = r.store.snapshots) : r'.WellFiled :=
  Journaled.Throughout.written h ((filed_ofValue r').2 hfiled) hsnapshots

/-- Every operation has a result, but for taking an id when the counter is at its end. -/
theorem exists_apply (h : r.WellFiled) (op : Operation) :
    (∃ r', op.apply r = .ok r' ∧ r'.WellFiled) ∨ op = .takeId ∧ r.nextId = largestWord := by
  have hfiled := h.filed
  cases op with
  | setResource x =>
    obtain ⟨r', hset, hfiled', -⟩ := hfiled.exists_setResource x
    refine .inl ⟨r', liftM_eq_ok.2 hset, h.written hfiled' ?_⟩
    exact (writes_setResource x).snapshots r r' hset
  | deleteResource id =>
    obtain ⟨found, r', hdelete, hfiled', -⟩ := hfiled.exists_deleteResource id
    refine .inl ⟨r', ?_, h.written hfiled' ((writes_deleteResource id).snapshots r r' ?_)⟩
    · rw [Operation.apply, hdelete]
      rfl
    · rw [hdelete]
      rfl
  | setLease l =>
    obtain ⟨r', hset, hfiled', -⟩ := hfiled.exists_setLease l
    refine .inl ⟨r', liftM_eq_ok.2 hset, h.written hfiled' ?_⟩
    exact (writes_setLease l).snapshots r r' hset
  | deleteLease id =>
    obtain ⟨found, r', hdelete, hfiled', -⟩ := hfiled.exists_deleteLease id
    refine .inl ⟨r', ?_, h.written hfiled' ((writes_deleteLease id).snapshots r r' ?_)⟩
    · rw [Operation.apply, hdelete]
      rfl
    · rw [hdelete]
      rfl
  | setParams p => exact .inl ⟨_, rfl, h.written (hfiled.setParams p) (snapshots_set ..)⟩
  | takeId =>
    by_cases hlast : r.nextId = largestWord
    · exact .inr ⟨rfl, hlast⟩
    · refine .inl ⟨r.setNextId (r.nextId + 1), ?_,
        h.written (hfiled.setNextId _) (snapshots_set ..)⟩
      rw [Operation.apply, takeId, if_neg hlast]
      rfl
  | setNextId n => exact .inl ⟨_, rfl, h.written (hfiled.setNextId n) (snapshots_set ..)⟩
  | checkpoint => exact .inl ⟨_, rfl, Journaled.Throughout.checkpoint h⟩
  | commit => exact .inl ⟨_, rfl, Journaled.Throughout.commit h⟩
  | revert => exact .inl ⟨_, rfl, Journaled.Throughout.revert h⟩

theorem wellFiled_next (h : r.WellFiled) (op : Operation) : (r.next op).WellFiled := by
  rw [next]
  rcases exists_apply h op with ⟨r', happly, h'⟩ | ⟨rfl, hlast⟩
  · rw [happly]
    exact h'
  · have htake : Operation.takeId.apply r = .error .outOfRange := by
      rw [Operation.apply.eq_def, takeId, if_pos hlast]
      rfl
    rw [htake]
    exact h

theorem wellFiled_after (ops : List Operation) : (after ops).WellFiled := by
  have hfold : ∀ r : Registry, r.WellFiled → (ops.foldl next r).WellFiled := by
    induction ops with
    | nil => exact fun _ hr => hr
    | cons op ops ih => exact fun r hr => ih _ (wellFiled_next hr op)
  exact hfold empty (.ofValue filed_empty)

/-! ## What is found -/

/-- Below an account stand the ids of the records that it has in the table of all records. -/
theorem Filed.idsBelow_account {α : Type} {key : α → ResourceId} {find : ResourceId → Option α}
    {table : List α} {account : α → Account} (h : r.Filed) (i : Key.Index)
    (htable : IsTable key find table) (hkey : ∀ id x, find id = some x → key x = id)
    (hascending : Ascending (table.map key))
    (hholder : ∀ id, r.market.holder i id = (find id).map account) (a : Account) :
    r.idsBelow (Key.account i a) = .ok ((table.filter fun x => account x = a).map key) := by
  obtain ⟨ids, hids, hids_ascending, hmem⟩ := exists_idsBelow r (Key.account i a)
    fun e he hprefix => (h.laid.entry he).of_account hprefix
  rw [hids]
  refine congrArg Except.ok (hids_ascending.eq_of_mem_iff
    (hascending.sublist (List.filter_sublist.map key)) fun id => ?_)
  have hindexed := h.indexed i a id
  rw [hholder] at hindexed
  rw [hmem, ← Key.entry, hindexed, List.mem_map]
  constructor
  · intro hheld
    obtain ⟨x, hx, haccount⟩ := Option.map_eq_some_iff.1 hheld
    obtain rfl := hkey id x hx
    exact ⟨x, List.mem_filter.2 ⟨(htable.mem_iff x).2 hx, decide_eq_true haccount⟩, rfl⟩
  · rintro ⟨x, hx, rfl⟩
    obtain ⟨hx, haccount⟩ := List.mem_filter.1 hx
    exact Option.map_eq_some_iff.2 ⟨x, (htable.mem_iff x).1 hx, of_decide_eq_true haccount⟩

theorem resourceIdsByOwner_eq (h : r.Filed) (owner : Account) :
    r.resourceIdsByOwner owner =
      .ok ((r.resourceList.filter fun x => x.owner = owner).map Resource.id) :=
  h.idsBelow_account .owner (isTable_resources h.laid) (fun _ _ => id_of_market h.laid)
    h.laid.ascending_resourceIds (fun _ => rfl) owner

theorem leaseIdsByLessee_eq (h : r.Filed) (lessee : Account) :
    r.leaseIdsByLessee lessee =
      .ok ((r.leaseList.filter fun l => l.lessee = lessee).map Lease.resourceId) :=
  h.idsBelow_account .lessee (isTable_leases h.laid) (fun _ _ => resourceId_of_market h.laid)
    h.laid.ascending_leaseIds (fun _ => rfl) lessee

/-- Members of a list that are found by their ids are all found. -/
theorem mapM_ids_eq {α : Type} {key : α → ResourceId} {find : ResourceId → Except Refusal α}
    {l : List α} (h : ∀ x ∈ l, find (key x) = .ok x) : (l.map key).mapM find = .ok l := by
  induction l with
  | nil => rfl
  | cons x l ih =>
    rw [List.map_cons, List.mapM_cons, h x List.mem_cons_self,
      ih fun y hy => h y (List.mem_cons_of_mem _ hy)]
    rfl

theorem resourcesByOwner_eq (h : r.Filed) (owner : Account) :
    r.resourcesByOwner owner = .ok (r.resourceList.filter fun x => x.owner = owner) := by
  rw [resourcesByOwner, resourceIdsByOwner_eq h]
  refine mapM_ids_eq fun x hx => (resource_eq_ok h.laid).2 ?_
  exact ((isTable_resources h.laid).mem_iff x).1 (List.mem_filter.1 hx).1

theorem leasesByLessee_eq (h : r.Filed) (lessee : Account) :
    r.leasesByLessee lessee = .ok (r.leaseList.filter fun l => l.lessee = lessee) := by
  rw [leasesByLessee, leaseIdsByLessee_eq h]
  refine mapM_ids_eq fun l hl => (lease_eq_ok h.laid).2 ?_
  exact ((isTable_leases h.laid).mem_iff l).1 (List.mem_filter.1 hl).1

theorem resourcePage_eq (h : r.Laid) (request : PageRequest) :
    r.resourcePage request = .ok (.slice r.resourceList request) := by
  rw [resourcePage, resources_eq h]
  rfl

theorem leasePage_eq (h : r.Laid) (request : PageRequest) :
    r.leasePage request = .ok (.slice r.leaseList request) := by
  rw [leasePage, leases_eq h]
  rfl

/-- After any operations on an empty registry: all records are listed, and their ids are exactly
those that are stored; for each account the index gives the ids of the records it has in the
listing, each once and in order, and reading these records gives the listing of the account. -/
theorem listing_by_account (ops : List Operation) :
    let r := after ops
    (∀ op : Operation, (∃ r', op.apply r = .ok r') ∨ op = .takeId ∧ r.nextId = largestWord) ∧
    (∃ resources, r.resources = .ok resources ∧
      (∃ ids, r.resourceIds = .ok ids ∧ Ascending ids ∧ ids = resources.map Resource.id ∧
        ∀ id, id ∈ ids ↔ r.hasResource id = true) ∧
      ∀ owner, r.resourcesByOwner owner = .ok (resources.filter fun x => x.owner = owner) ∧
        ∃ ids, r.resourceIdsByOwner owner = .ok ids ∧ Ascending ids ∧
          ∀ id, id ∈ ids ↔ ∃ x ∈ resources, x.owner = owner ∧ x.id = id) ∧
    ∃ leases, r.leases = .ok leases ∧
      (∃ ids, r.leaseIds = .ok ids ∧ Ascending ids ∧ ids = leases.map Lease.resourceId ∧
        ∀ id, id ∈ ids ↔ r.hasLease id = true) ∧
      ∀ lessee, r.leasesByLessee lessee = .ok (leases.filter fun l => l.lessee = lessee) ∧
        ∃ ids, r.leaseIdsByLessee lessee = .ok ids ∧ Ascending ids ∧
          ∀ id, id ∈ ids ↔ ∃ l ∈ leases, l.lessee = lessee ∧ l.resourceId = id := by
  intro r
  have hr : r.WellFiled := wellFiled_after ops
  have hfiled := hr.filed
  have hl := hfiled.laid
  refine ⟨fun op => ?_, ⟨r.resourceList, resources_eq hl, ?_, fun owner => ⟨?_, ?_⟩⟩,
    r.leaseList, leases_eq hl, ?_, fun lessee => ⟨?_, ?_⟩⟩
  · rcases exists_apply hr op with ⟨r', happly, -⟩ | hlast
    · exact .inl ⟨r', happly⟩
    · exact .inr hlast
  · refine ⟨_, resourceIds_eq hl, hl.ascending_resourceIds, rfl, fun id => ?_⟩
    rw [hasResource_eq hl]
    exact (isTable_resources hl).mem_map_key (fun _ _ => id_of_market hl) id
  · exact resourcesByOwner_eq hfiled owner
  · refine ⟨_, resourceIdsByOwner_eq hfiled owner,
      hl.ascending_resourceIds.sublist (List.filter_sublist.map _), fun id => ?_⟩
    simp only [List.mem_map, List.mem_filter, decide_eq_true_eq, and_assoc]
  · refine ⟨_, leaseIds_eq hl, hl.ascending_leaseIds, rfl, fun id => ?_⟩
    rw [hasLease_eq hl]
    exact (isTable_leases hl).mem_map_key (fun _ _ => resourceId_of_market hl) id
  · exact leasesByLessee_eq hfiled lessee
  · refine ⟨_, leaseIdsByLessee_eq hfiled lessee,
      hl.ascending_leaseIds.sublist (List.filter_sublist.map _), fun id => ?_⟩
    simp only [List.mem_map, List.mem_filter, decide_eq_true_eq, and_assoc]

end LeaseEscrow.Registry
