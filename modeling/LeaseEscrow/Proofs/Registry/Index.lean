import LeaseEscrow.Proofs.Registry.Tables

/-!
# The index of a registry

Resources are listed by owner and leases by lessee, under keys of their own. In a registry that
is *filed* well these keys are exactly those of the records that there are; each operation keeps
it so, and does on the market what its name says. What is listed of an account follows from the
market then (`mem_scan_account`).
-/

namespace LeaseEscrow

/-! ## Keys of the index -/

namespace Key

theorem account_eq (i : Index) (a : Account) : account i a = i.kind :: (a.bytes ++ [separator]) := rfl

theorem entry_eq (i : Index) (a : Account) (id : ResourceId) :
    entry i a id = i.kind :: (a.bytes ++ separator :: id.bytes) := by
  rw [entry, account_eq, List.cons_append, List.append_assoc]
  rfl

theorem kind_inj {i j : Index} : i.kind = j.kind ↔ i = j := by
  cases i <;> cases j <;> decide

/-- A key that begins as those of an account tells the account, as no address holds the separator. -/
theorem account_isPrefixOf_entry {i j : Index} {a a' : Account} {id : ResourceId} :
    (account i a).isPrefixOf (entry j a' id) = true ↔ i = j ∧ a = a' := by
  constructor
  · intro h
    obtain ⟨rest, hrest⟩ := List.isPrefixOf_iff_prefix.1 h
    rw [account_eq, entry_eq, List.cons_append, List.append_assoc, List.cons_append] at hrest
    obtain ⟨hkind, hkey⟩ := List.cons.inj hrest
    have hparts := (List.append_cons_inj_of_notMem a'.zero_notMem_bytes id.zero_notMem_bytes).1
      hkey.symm
    exact ⟨kind_inj.1 hkind, (Account.bytes_inj.1 hparts.1).symm⟩
  · rintro ⟨rfl, rfl⟩
    exact List.isPrefixOf_iff_prefix.2 ⟨id.bytes, rfl⟩

theorem entry_inj {i j : Index} {a a' : Account} {id id' : ResourceId} :
    entry i a id = entry j a' id' ↔ i = j ∧ a = a' ∧ id = id' := by
  constructor
  · intro h
    obtain ⟨rfl, rfl⟩ := account_isPrefixOf_entry.1
      (List.isPrefixOf_iff_prefix.2 ⟨id.bytes, h⟩ : (account i a).isPrefixOf (entry j a' id') = true)
    rw [entry, entry, List.append_cancel_left_eq, ResourceId.bytes_inj] at h
    exact ⟨rfl, rfl, h⟩
  · rintro ⟨rfl, rfl, rfl⟩
    rfl

end Key

/-! ## Who holds an id -/

namespace Market

/-- The account that an id is listed under. -/
def holder (m : Market) : Key.Index → ResourceId → Option Account
  | .owner, id => (m.resource id).map Resource.owner
  | .lessee, id => (m.lease id).map Lease.lessee

theorem holder_withResource (m : Market) (x : Resource) (i : Key.Index) (id : ResourceId) :
    (m.withResource x).holder i id =
      if i = .owner ∧ id = x.id then some x.owner else m.holder i id := by
  cases i with
  | owner => by_cases h : id = x.id <;> simp [holder, withResource, h]
  | lessee => simp [holder, withResource]

theorem holder_withLease (m : Market) (l : Lease) (i : Key.Index) (id : ResourceId) :
    (m.withLease l).holder i id =
      if i = .lessee ∧ id = l.resourceId then some l.lessee else m.holder i id := by
  cases i with
  | owner => simp [holder, withLease]
  | lessee => by_cases h : id = l.resourceId <;> simp [holder, withLease, h]

theorem holder_withoutResource (m : Market) (gone : ResourceId) (i : Key.Index) (id : ResourceId) :
    (m.withoutResource gone).holder i id =
      if i = .owner ∧ id = gone then none else m.holder i id := by
  cases i with
  | owner => by_cases h : id = gone <;> simp [holder, withoutResource, h]
  | lessee => simp [holder, withoutResource]

theorem holder_withoutLease (m : Market) (gone : ResourceId) (i : Key.Index) (id : ResourceId) :
    (m.withoutLease gone).holder i id =
      if i = .lessee ∧ id = gone then none else m.holder i id := by
  cases i with
  | owner => simp [holder, withoutLease]
  | lessee => by_cases h : id = gone <;> simp [holder, withoutLease, h]

end Market

namespace Registry

/-- An id is listed under the account that holds it, and under no other. -/
def Indexed (r : Registry) : Prop :=
  ∀ i a id, (r.records.get? (Key.entry i a id)).isSome = true ↔ r.market.holder i id = some a

structure Filed (r : Registry) : Prop where
  laid : r.Laid
  indexed : r.Indexed

theorem filed_congr {r r' : Registry} (h : r ≈ r') : r.Filed ↔ r'.Filed := by
  have hindexed : r.Indexed ↔ r'.Indexed := by
    rw [Indexed, Indexed, market_congr h, equiv_def.1 h]
  constructor
  · intro hr
    exact ⟨(laid_congr h).1 hr.laid, hindexed.1 hr.indexed⟩
  · intro hr
    exact ⟨(laid_congr h).2 hr.laid, hindexed.2 hr.indexed⟩

theorem filed_empty : empty.Filed where
  laid := laid_empty
  indexed i a id := by cases i <;> exact iff_of_false nofun nofun

/-! ## Writing -/

/-- Where neither an entry nor a holder changes, the index stays right. -/
theorem Indexed.of_same {r r' : Registry} (h : r.Indexed)
    (hentry : ∀ i a id, r'.records.get? (Key.entry i a id) = r.records.get? (Key.entry i a id))
    (hholder : ∀ i id, r'.market.holder i id = r.market.holder i id) : r'.Indexed := by
  intro i a id
  rw [hentry, hholder]
  exact h i a id

theorem get?_entry_set (r : Registry) {key : Bytes} (hkey : ¬ Key.IsEntry key) (record : Record)
    (i : Key.Index) (a : Account) (id : ResourceId) :
    (r.set key record).records.get? (Key.entry i a id) = r.records.get? (Key.entry i a id) := by
  rw [get?_set, if_neg fun h => hkey ⟨i, a, id, h.symm⟩]

theorem Filed.setParams {r : Registry} (h : r.Filed) (p : Params) : (r.setParams p).Filed where
  laid := h.laid.setParams p
  indexed := by
    refine h.indexed.of_same (get?_entry_set r Key.not_isEntry_params _) fun i id => ?_
    rw [market_set_params]
    cases i <;> rfl

theorem Filed.setNextId {r : Registry} (h : r.Filed) (n : UInt64) : (r.setNextId n).Filed where
  laid := h.laid.setNextId n
  indexed := by
    refine h.indexed.of_same (get?_entry_set r Key.not_isEntry_counter _) fun i id => ?_
    rw [market_setNextId]
    cases i <;> rfl

variable {i : Key.Index} {holder : Account} {id : ResourceId}
  {previous : Option (Account × ResourceId)} {key : Bytes} {record : Record}

theorem isSome_entry_unindex (r : Registry) (j : Key.Index) (a : Account) (id' : ResourceId) :
    ((r.unindex i holder previous).records.get? (Key.entry j a id')).isSome = true ↔
      (r.records.get? (Key.entry j a id')).isSome = true ∧
        ¬ (j = i ∧ previous = some (a, id') ∧ a ≠ holder) := by
  unfold unindex
  split
  · next a₀ id₀ =>
    by_cases hholder : a₀ = holder
    · have hsame : a₀ = a → a = holder := fun ha => ha ▸ hholder
      simp only [ne_eq, hholder, not_true_eq_false, if_false, Option.some.injEq, Prod.mk.injEq]
      grind
    · rw [if_pos hholder, get?_delete]
      simp only [Key.entry_inj, Option.some.injEq, Prod.mk.injEq]
      grind
  · simp

/-- The entry of the new holder is put in, that of the one before goes. -/
theorem isSome_entry_file (r : Registry) (hkey : ¬ Key.IsEntry key) (j : Key.Index) (a : Account)
    (id' : ResourceId) :
    ((r.file i holder id previous key record).records.get? (Key.entry j a id')).isSome = true ↔
      (j = i ∧ a = holder ∧ id' = id) ∨
        (r.records.get? (Key.entry j a id')).isSome = true ∧
          ¬ (j = i ∧ previous = some (a, id') ∧ a ≠ holder) := by
  rw [file, get?_set, ← isSome_entry_unindex, get?_entry_set _ hkey]
  simp only [Key.entry_inj]
  split <;> simp [*]

theorem Indexed.file {r : Registry} (h : r.Indexed) (hkey : ¬ Key.IsEntry key)
    (hprevious : previous = (r.market.holder i id).map (·, id))
    (hmarket : ∀ j id', (r.file i holder id previous key record).market.holder j id' =
      if j = i ∧ id' = id then some holder else r.market.holder j id') :
    (r.file i holder id previous key record).Indexed := by
  intro j a id'
  rw [isSome_entry_file r hkey, hmarket, h j a id', hprevious]
  simp only [Option.map_eq_some_iff, Prod.mk.injEq]
  by_cases hplace : j = i ∧ id' = id
  · obtain ⟨rfl, rfl⟩ := hplace
    rw [if_pos ⟨rfl, rfl⟩]
    grind
  · rw [if_neg hplace]
    grind

theorem Indexed.unfile {r : Registry} (h : r.Indexed) (hkey : ¬ Key.IsEntry key)
    (hmarket : ∀ j id', (r.unfile i id key (r.market.holder i id)).market.holder j id' =
      if j = i ∧ id' = id then none else r.market.holder j id') :
    (r.unfile i id key (r.market.holder i id)).Indexed := by
  intro j a id'
  rw [hmarket]
  cases hholder : r.market.holder i id with
  | none =>
    rw [Registry.unfile, h j a id']
    grind
  | some holder =>
    have hentry : Key.entry j a id' ≠ key := fun hentry => hkey ⟨j, a, id', hentry.symm⟩
    have hrest := h j a id'
    rw [Registry.unfile, get?_delete, get?_delete, if_neg hentry]
    simp only [Key.entry_inj]
    grind

/-- A resource is always stored, and listed under its owner. -/
theorem Filed.exists_setResource {r : Registry} (h : r.Filed) (x : Resource) :
    ∃ r', r.setResource x = .ok r' ∧ r'.Filed ∧ r'.market = r.market.withResource x.plain := by
  have hset : r.setResource x = .ok (r.file .owner x.owner x.id
      ((r.market.resource x.id).map fun old => (old.owner, old.id)) (Key.resource x.id)
      (.resource x)) := by
    rw [setResource, resource?_eq h.laid]
    rfl
  obtain ⟨hlaid, hmarket⟩ := setResource_eq_ok h.laid hset
  refine ⟨_, hset, ⟨hlaid, ?_⟩, hmarket⟩
  refine h.indexed.file (Key.not_isEntry_resource x.id) ?_ fun j id' => ?_
  · cases hold : r.market.resource x.id with
    | none => simp [Market.holder, hold]
    | some old => simp [Market.holder, hold, id_of_market h.laid hold]
  · rw [hmarket, Market.holder_withResource]
    rfl

theorem Filed.exists_deleteResource {r : Registry} (h : r.Filed) (id : ResourceId) :
    ∃ found r', r.deleteResource id = .ok (found, r') ∧ r'.Filed ∧
      r'.market = r.market.withoutResource id := by
  have hdelete : r.deleteResource id = .ok ((r.market.resource id).isSome,
      r.unfile .owner id (Key.resource id) ((r.market.resource id).map Resource.owner)) := by
    rw [deleteResource, resource?_eq h.laid]
    rfl
  obtain ⟨hlaid, hmarket⟩ := deleteResource_eq_ok h.laid hdelete
  refine ⟨_, _, hdelete, ⟨hlaid, ?_⟩, hmarket⟩
  refine h.indexed.unfile (i := .owner) (Key.not_isEntry_resource id) fun j id' => ?_
  exact (congrArg (Market.holder · j id') hmarket).trans (Market.holder_withoutResource ..)

/-- A lease is always stored, and listed under its lessee. -/
theorem Filed.exists_setLease {r : Registry} (h : r.Filed) (l : Lease) :
    ∃ r', r.setLease l = .ok r' ∧ r'.Filed ∧ r'.market = r.market.withLease l.plain := by
  have hset : r.setLease l = .ok (r.file .lessee l.lessee l.resourceId
      ((r.market.lease l.resourceId).map fun old => (old.lessee, old.resourceId))
      (Key.lease l.resourceId) (.lease l)) := by
    rw [setLease, lease?_eq h.laid]
    rfl
  obtain ⟨hlaid, hmarket⟩ := setLease_eq_ok h.laid hset
  refine ⟨_, hset, ⟨hlaid, ?_⟩, hmarket⟩
  refine h.indexed.file (Key.not_isEntry_lease l.resourceId) ?_ fun j id' => ?_
  · cases hold : r.market.lease l.resourceId with
    | none => simp [Market.holder, hold]
    | some old => simp [Market.holder, hold, resourceId_of_market h.laid hold]
  · rw [hmarket, Market.holder_withLease]
    rfl

theorem Filed.exists_deleteLease {r : Registry} (h : r.Filed) (id : ResourceId) :
    ∃ found r', r.deleteLease id = .ok (found, r') ∧ r'.Filed ∧
      r'.market = r.market.withoutLease id := by
  have hdelete : r.deleteLease id = .ok ((r.market.lease id).isSome,
      r.unfile .lessee id (Key.lease id) ((r.market.lease id).map Lease.lessee)) := by
    rw [deleteLease, lease?_eq h.laid]
    rfl
  obtain ⟨hlaid, hmarket⟩ := deleteLease_eq_ok h.laid hdelete
  refine ⟨_, _, hdelete, ⟨hlaid, ?_⟩, hmarket⟩
  refine h.indexed.unfile (i := .lessee) (Key.not_isEntry_lease id) fun j id' => ?_
  exact (congrArg (Market.holder · j id') hmarket).trans (Market.holder_withoutLease ..)

/-! ## What the index lists -/

theorem Placed.of_entry {i : Key.Index} {a : Account} {id : ResourceId} {record : Record}
    (h : Placed (Key.entry i a id) record) : record = .mark := by
  generalize hkey : Key.entry i a id = key at h
  cases h with
  | resource x => exact absurd ⟨i, a, id, hkey.symm⟩ (Key.not_isEntry_resource _)
  | lease l => exact absurd ⟨i, a, id, hkey.symm⟩ (Key.not_isEntry_lease _)
  | counter n => exact absurd ⟨i, a, id, hkey.symm⟩ Key.not_isEntry_counter
  | params p => exact absurd ⟨i, a, id, hkey.symm⟩ Key.not_isEntry_params
  | mark i a id => rfl

/-- What begins as the keys of an account is an entry of it. -/
theorem Placed.of_account {i : Key.Index} {a : Account} {key : Bytes} {record : Record}
    (h : Placed key record) (hkey : (Key.account i a).isPrefixOf key = true) :
    ∃ id, key = Key.entry i a id := by
  have hkind : key.head? = some i.kind := by
    obtain ⟨rest, rfl⟩ := List.isPrefixOf_iff_prefix.1 hkey
    rfl
  cases h with
  | mark j a' id =>
    obtain ⟨rfl, rfl⟩ := Key.account_isPrefixOf_entry.1 hkey
    exact ⟨id, rfl⟩
  | _ => cases i <;> cases hkind

/-- The scan from an account finds the ids that it holds. -/
theorem Filed.mem_scan_account {r : Registry} (h : r.Filed) {i : Key.Index} {a : Account}
    {e : Bytes × Record} :
    e ∈ r.store.scan (Key.account i a) ↔
      ∃ id, e = (Key.entry i a id, .mark) ∧ r.market.holder i id = some a := by
  obtain ⟨key, record⟩ := e
  rw [scan_eq, Store.scan_eq_filter, List.mem_filter]
  show (key, record) ∈ r.records.entries ∧ _ ↔ _
  rw [← OrderedMap.get?_eq_some_iff]
  constructor
  · rintro ⟨hget, hprefix⟩
    have hplaced := h.laid key record hget
    obtain ⟨id, rfl⟩ := hplaced.of_account hprefix
    obtain rfl := hplaced.of_entry
    exact ⟨id, rfl, (h.indexed i a id).1 (by rw [hget]; rfl)⟩
  · rintro ⟨id, hentry, hholder⟩
    obtain ⟨rfl, rfl⟩ := Prod.mk.inj hentry
    obtain ⟨record, hget⟩ := Option.isSome_iff_exists.1 ((h.indexed i a id).2 hholder)
    obtain rfl := (h.laid _ _ hget).of_entry
    exact ⟨hget, Key.account_isPrefixOf_entry.2 ⟨rfl, rfl⟩⟩

end Registry

end LeaseEscrow
