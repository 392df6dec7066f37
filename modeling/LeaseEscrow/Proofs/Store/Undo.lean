import LeaseEscrow.Proofs.Outcome
import LeaseEscrow.Registry
import LeaseEscrow.Store.OrderedMap.Lookup

/-!
# Undoing writes of the store

Every write of the store, and so every operation of the registry, notes how to undo itself:
it leaves alone what the open checkpoints would go back to. What an operation does to the
records depends on the records only, not on the checkpoints.
-/

namespace LeaseEscrow

/-! ## The store -/

namespace Store

variable {α : Type}

theorem current_set (s : Store α) (key : Bytes) (value : α) :
    (s.set key value).current = s.current.insert key value := Journaled.current_write ..

theorem snapshots_set (s : Store α) (key : Bytes) (value : α) :
    (s.set key value).snapshots = s.snapshots :=
  Journaled.snapshots_write s (OrderedMap.restore_restore s.current key (some value))

/-- Erasing an absent key changes nothing. -/
theorem erase_of_get?_eq_none {m : OrderedMap Bytes α} {key : Bytes} (h : m.get? key = none) :
    m.erase key = m := by
  apply OrderedMap.ext_get?
  intro k
  rw [OrderedMap.get?_erase]
  split
  · next hk => rw [hk, h]
  · rfl

theorem current_delete (s : Store α) (key : Bytes) :
    (s.delete key).2.current = s.current.erase key := by
  unfold delete
  split
  · next h => exact (erase_of_get?_eq_none h).symm
  · exact Journaled.current_write ..

theorem snapshots_delete (s : Store α) (key : Bytes) :
    (s.delete key).2.snapshots = s.snapshots := by
  unfold delete
  split
  · rfl
  · next value h =>
    refine Journaled.snapshots_write s ?_
    have hprior : s.current.get? key = some value := h
    show (s.current.erase key).restore key (some value) = s.current
    rw [← hprior]
    exact OrderedMap.restore_restore s.current key none

end Store

/-! ## The registry -/

namespace Registry

/-- What the store of a registry holds now. -/
def records (r : Registry) : OrderedMap Bytes Record := r.store.current

/-- Registries are equivalent when they hold the same records. -/
instance : HasEquiv Registry := ⟨fun r r' => r.records = r'.records⟩

theorem equiv_def {r r' : Registry} : r ≈ r' ↔ r.records = r'.records := Iff.rfl

theorem records_set (r : Registry) (key : Bytes) (x : Record) :
    (r.set key x).records = r.records.insert key x := Store.current_set ..

theorem records_delete (r : Registry) (key : Bytes) :
    (r.delete key).records = r.records.erase key := Store.current_delete ..

theorem get?_eq (r : Registry) (key : Bytes) : r.store.get? key = r.records.get? key := rfl

theorem scan_eq (r : Registry) (start : Bytes) :
    r.store.scan start = Store.scan (.ofValue r.records) start := rfl

/-- A reading that sees the records only. -/
def Reads {α : Type} (f : Registry → Except Refusal α) : Prop := ∀ r r', r ≈ r' → f r = f r'

/-- A change of the records that sees them only and can be undone. -/
structure Writes (f : Registry → Except Refusal Registry) : Prop where
  records : ∀ r r', r ≈ r' → (f r).map Registry.records = (f r').map Registry.records
  snapshots : ∀ r r', f r = .ok r' → r'.store.snapshots = r.store.snapshots

/-! ## Readings -/

theorem reads_resource? (id : ResourceId) : Reads fun r => r.resource? id := by
  intro r r' h
  simp only [resource?, get?_eq, equiv_def.1 h]

theorem reads_resource (id : ResourceId) : Reads fun r => r.resource id := by
  intro r r' h
  simp only [resource, reads_resource? id r r' h]

theorem reads_lease? (id : ResourceId) : Reads fun r => r.lease? id := by
  intro r r' h
  simp only [lease?, get?_eq, equiv_def.1 h]

theorem reads_lease (id : ResourceId) : Reads fun r => r.lease id := by
  intro r r' h
  simp only [lease, reads_lease? id r r' h]

theorem hasResource_congr {r r' : Registry} (h : r ≈ r') (id : ResourceId) :
    r.hasResource id = r'.hasResource id := by
  simp only [hasResource, Store.contains, OrderedMap.contains]
  rw [show r.store.current = r'.store.current from h]

theorem reads_hasResource (id : ResourceId) :
    Reads fun r => pure (r.hasResource id) := by
  intro r r' h
  simp only [hasResource_congr h]

theorem reads_params : Reads Registry.params := by
  intro r r' h
  simp only [params, get?_eq, equiv_def.1 h]

theorem reads_resources : Reads Registry.resources := by
  intro r r' h
  simp only [resources, scan_eq, equiv_def.1 h]

theorem reads_leaseIds : Reads Registry.leaseIds := by
  intro r r' h
  simp only [leaseIds, idsBelow, scan_eq, equiv_def.1 h]

theorem nextId_congr {r r' : Registry} (h : r ≈ r') : r.nextId = r'.nextId := by
  simp only [nextId, get?_eq, equiv_def.1 h]

/-- The search for a free value only asks which resources there are. -/
theorem firstFree?_congr {r r' : Registry} (h : ∀ id, r.hasResource id = r'.hasResource id)
    (n : UInt64) : r.firstFree? n = r'.firstFree? n := by
  fun_induction firstFree? r n with
  | case1 => rw [firstFree?.eq_def, dif_pos rfl]
  | case2 n hn hstored ih =>
    rw [ih, firstFree?.eq_def r' n, dif_neg hn, if_pos (by rwa [← h])]
  | case3 n hn hfree => rw [firstFree?.eq_def r' n, dif_neg hn, if_neg (by rwa [← h])]

/-! ## Changes -/

theorem snapshots_set (r : Registry) (key : Bytes) (x : Record) :
    (r.set key x).store.snapshots = r.store.snapshots := Store.snapshots_set ..

theorem snapshots_delete (r : Registry) (key : Bytes) :
    (r.delete key).store.snapshots = r.store.snapshots := Store.snapshots_delete ..

variable {i : Key.Index} {holder : Account} {id : ResourceId}
  {previous : Option (Account × ResourceId)} {key : Bytes} {record : Record}

theorem unindex_congr {r r' : Registry} (h : r ≈ r') :
    r.unindex i holder previous ≈ r'.unindex i holder previous := by
  unfold unindex
  split
  · split
    · rw [equiv_def, records_delete, records_delete, equiv_def.1 h]
    · exact h
  · exact h

theorem snapshots_unindex (r : Registry) :
    (r.unindex i holder previous).store.snapshots = r.store.snapshots := by
  unfold unindex
  split
  · split
    · exact snapshots_delete ..
    · rfl
  · rfl

theorem file_congr {r r' : Registry} (h : r ≈ r') :
    r.file i holder id previous key record ≈ r'.file i holder id previous key record := by
  have hunindex : (r.unindex i holder previous).records = (r'.unindex i holder previous).records :=
    unindex_congr h
  simp only [file, equiv_def, records_set, hunindex]

theorem snapshots_file (r : Registry) :
    (r.file i holder id previous key record).store.snapshots = r.store.snapshots := by
  rw [file, snapshots_set, snapshots_set, snapshots_unindex]

theorem unfile_congr {r r' : Registry} {holder : Option Account} (h : r ≈ r') :
    r.unfile i id key holder ≈ r'.unfile i id key holder := by
  unfold unfile
  split
  · simp only [equiv_def, records_delete, equiv_def.1 h]
  · exact h

theorem snapshots_unfile (r : Registry) {holder : Option Account} :
    (r.unfile i id key holder).store.snapshots = r.store.snapshots := by
  unfold unfile
  split
  · rw [snapshots_delete, snapshots_delete]
  · rfl

/-- A change that depends on what is read first. -/
theorem writes_of_reads {α : Type} {f : Registry → Except Refusal α} {g : Registry → α → Registry}
    (hf : Reads f) (hg : ∀ r r' a, r ≈ r' → g r a ≈ g r' a)
    (hsnap : ∀ r a, (g r a).store.snapshots = r.store.snapshots) :
    Writes fun r => do return g r (← f r) where
  records r r' h := by
    simp only [hf r r' h]
    cases f r' with
    | error e => rfl
    | ok a => exact congrArg Except.ok (hg r r' a h)
  snapshots r r' h := by
    obtain ⟨a, -, ha⟩ := bind_eq_ok.1 h
    cases ha
    exact hsnap r a

theorem writes_setParams (p : Params) : Writes fun r => return r.setParams p where
  records r r' h := by
    refine congrArg Except.ok ?_
    rw [setParams, setParams, records_set, records_set, equiv_def.1 h]
  snapshots r r' h := by
    cases h
    exact snapshots_set ..

theorem writes_setResource (x : Resource) : Writes fun r => r.setResource x :=
  writes_of_reads (reads_resource? x.id) (fun _ _ _ => file_congr) fun r _ => snapshots_file r

theorem writes_setLease (x : Lease) : Writes fun r => r.setLease x :=
  writes_of_reads (reads_lease? x.resourceId) (fun _ _ _ => file_congr) fun r _ => snapshots_file r

theorem writes_deleteResource (id : ResourceId) :
    Writes fun r => return (← r.deleteResource id).2 := by
  have hdelete : (fun r : Registry => return (← r.deleteResource id).2 :
      Registry → Except Refusal _) =
      fun r => do
        return r.unfile .owner id (Key.resource id) ((← r.resource? id).map Resource.owner) := by
    funext r
    simp only [deleteResource, bind_assoc, pure_bind]
  rw [hdelete]
  exact writes_of_reads (reads_resource? id) (fun _ _ _ => unfile_congr) fun r _ =>
    snapshots_unfile r

theorem writes_deleteLease (id : ResourceId) :
    Writes fun r => return (← r.deleteLease id).2 := by
  have hdelete : (fun r : Registry => return (← r.deleteLease id).2 : Registry → Except Refusal _) =
      fun r => do return r.unfile .lessee id (Key.lease id) ((← r.lease? id).map Lease.lessee) := by
    funext r
    simp only [deleteLease, bind_assoc, pure_bind]
  rw [hdelete]
  exact writes_of_reads (reads_lease? id) (fun _ _ _ => unfile_congr) fun r _ => snapshots_unfile r

end Registry

end LeaseEscrow
