import LeaseEscrow.Proofs.Ident.Bytes
import LeaseEscrow.Proofs.Store.Undo
import Mathlib.Logic.Function.Basic

/-!
# The market in a registry

The market is what a registry stands for: parameters and counter, and a resource and a lease at
most for each id. In a registry that is *laid* out well every record has its own key, and then
each operation of the registry is the plain one on the market.
-/

namespace LeaseEscrow

structure Market where
  params : Option Params
  nextId : UInt64
  resource : ResourceId → Option Resource
  lease : ResourceId → Option Lease

namespace Market

def withResource (m : Market) (x : Resource) : Market :=
  { m with resource := Function.update m.resource x.id (some x) }

def withoutResource (m : Market) (id : ResourceId) : Market :=
  { m with resource := Function.update m.resource id none }

def withLease (m : Market) (l : Lease) : Market :=
  { m with lease := Function.update m.lease l.resourceId (some l) }

def withoutLease (m : Market) (id : ResourceId) : Market :=
  { m with lease := Function.update m.lease id none }

/-- The market after the lease of `x` is over. -/
def ended (m : Market) (x : Resource) : Market :=
  (m.withoutLease x.id).withResource { x with leased := false }

theorem resource_withResource (m : Market) (x : Resource) :
    (m.withResource x).resource x.id = some x := Function.update_self ..

/-- Putting a resource where it stands already changes nothing. -/
theorem withResource_self {m : Market} {x : Resource} (h : m.resource x.id = some x) :
    m.withResource x = m := by
  rw [withResource, ← h, Function.update_eq_self]

theorem lease_withLease (m : Market) (l : Lease) :
    (m.withLease l).lease l.resourceId = some l := Function.update_self ..

theorem resource_ended (m : Market) (x : Resource) :
    (m.ended x).resource x.id = some { x with leased := false } := Function.update_self ..

theorem lease_ended (m : Market) (x : Resource) : (m.ended x).lease x.id = none :=
  Function.update_self ..

/-- The markets have the same records, except for those of one id. -/
def SameOff (id : ResourceId) (m m' : Market) : Prop :=
  ∀ j, j ≠ id → m'.resource j = m.resource j ∧ m'.lease j = m.lease j

theorem sameOff_withResource (m : Market) (x : Resource) : SameOff x.id m (m.withResource x) :=
  fun _ hj => ⟨Function.update_of_ne hj _ _, rfl⟩

theorem sameOff_withLease (m : Market) (l : Lease) : SameOff l.resourceId m (m.withLease l) :=
  fun _ hj => ⟨rfl, Function.update_of_ne hj _ _⟩

theorem sameOff_ended (m : Market) (x : Resource) : SameOff x.id m (m.ended x) :=
  fun _ hj => ⟨Function.update_of_ne hj _ _, Function.update_of_ne hj _ _⟩

/-- `id` is free, and it is the one chosen or else counted. -/
structure Draws (m : Market) (chosen : Option ResourceId) (id : ResourceId)
    (nextId : UInt64) : Prop where
  free : m.resource id = none
  drawn : chosen = some id ∧ nextId = m.nextId ∨
    chosen = none ∧ ∃ n, m.nextId ≤ n ∧ n ≠ largestWord ∧ id = .ofCounter n ∧ nextId = n + 1

end Market

namespace Record

def resource? : Record → Option Resource
  | .resource x => some x.plain
  | _ => none

def lease? : Record → Option Lease
  | .lease l => some l.plain
  | _ => none

def params? : Record → Option Params
  | .params p => some p.plain
  | _ => none

theorem toParams_eq_ok {record : Record} {p : Params} :
    record.toParams = .ok p ↔ record.params? = some p := by
  cases record <;> simp [toParams, params?]

end Record

/-! ## Keys -/

namespace Key

theorem resource_inj {id id' : ResourceId} : resource id = resource id' ↔ id = id' := by
  rw [resource, resource, List.cons_inj_right, ResourceId.bytes_inj]

theorem lease_inj {id id' : ResourceId} : lease id = lease id' ↔ id = id' := by
  rw [lease, lease, List.cons_inj_right, ResourceId.bytes_inj]

theorem resource_ne_lease (id id' : ResourceId) : resource id ≠ lease id' :=
  fun h => absurd (List.head_eq_of_cons_eq h) (by decide)

theorem resource_ne_counter (id : ResourceId) : resource id ≠ counter :=
  fun h => absurd (List.head_eq_of_cons_eq h) (by decide)

theorem resource_ne_params (id : ResourceId) : resource id ≠ params :=
  fun h => absurd (List.head_eq_of_cons_eq h) (by decide)

theorem lease_ne_counter (id : ResourceId) : lease id ≠ counter :=
  fun h => absurd (List.head_eq_of_cons_eq h) (by decide)

theorem lease_ne_params (id : ResourceId) : lease id ≠ params :=
  fun h => absurd (List.head_eq_of_cons_eq h) (by decide)

theorem counter_ne_params : counter ≠ params := by decide

/-- A key of the index. -/
def IsEntry (key : Bytes) : Prop := ∃ i a id, key = entry i a id

theorem not_isEntry_of_head {kind : UInt8} {rest : Bytes} (h : kind ≠ 5 ∧ kind ≠ 6) :
    ¬ IsEntry (kind :: rest) := by
  rintro ⟨i, a, id, hkey⟩
  have hkind : kind = i.kind := List.head_eq_of_cons_eq hkey
  cases i
  · exact h.1 hkind
  · exact h.2 hkind

theorem not_isEntry_resource (id : ResourceId) : ¬ IsEntry (resource id) :=
  not_isEntry_of_head (by decide)

theorem not_isEntry_lease (id : ResourceId) : ¬ IsEntry (lease id) :=
  not_isEntry_of_head (by decide)

theorem not_isEntry_counter : ¬ IsEntry counter := not_isEntry_of_head (by decide)

theorem not_isEntry_params : ¬ IsEntry params := not_isEntry_of_head (by decide)

end Key

namespace Registry

/-! ## Layout -/

/-- The key is the one of the record. -/
inductive Placed : Bytes → Record → Prop where
  | resource (x : Resource) : Placed (Key.resource x.id) (.resource x)
  | lease (l : Lease) : Placed (Key.lease l.resourceId) (.lease l)
  | counter (n : UInt64) : Placed Key.counter (.counter n)
  | params (p : Params) : Placed Key.params (.params p)
  | mark (i : Key.Index) (a : Account) (id : ResourceId) : Placed (Key.entry i a id) .mark

/-- Every record has its own key. -/
def Laid (r : Registry) : Prop := ∀ key record, r.records.get? key = some record → Placed key record

theorem Placed.of_resource {id : ResourceId} {record : Record} (h : Placed (Key.resource id) record) :
    ∃ x, record = .resource x ∧ x.id = id := by
  generalize hkey : Key.resource id = key at h
  cases h with
  | resource x => exact ⟨x, rfl, (Key.resource_inj.1 hkey).symm⟩
  | lease l => exact absurd hkey (Key.resource_ne_lease _ _)
  | counter n => exact absurd hkey (Key.resource_ne_counter _)
  | params p => exact absurd hkey (Key.resource_ne_params _)
  | mark i a id' => exact absurd ⟨i, a, id', hkey⟩ (Key.not_isEntry_resource id)

theorem Placed.of_lease {id : ResourceId} {record : Record} (h : Placed (Key.lease id) record) :
    ∃ l, record = .lease l ∧ l.resourceId = id := by
  generalize hkey : Key.lease id = key at h
  cases h with
  | resource x => exact absurd hkey.symm (Key.resource_ne_lease _ _)
  | lease l => exact ⟨l, rfl, (Key.lease_inj.1 hkey).symm⟩
  | counter n => exact absurd hkey (Key.lease_ne_counter _)
  | params p => exact absurd hkey (Key.lease_ne_params _)
  | mark i a id' => exact absurd ⟨i, a, id', hkey⟩ (Key.not_isEntry_lease id)

theorem laid_congr {r r' : Registry} (h : r ≈ r') : r.Laid ↔ r'.Laid := by
  rw [Laid, Laid, equiv_def.1 h]

theorem laid_empty : empty.Laid := fun _ _ h => nomatch h

theorem get?_set (r : Registry) (key k : Bytes) (x : Record) :
    (r.set key x).records.get? k = if k = key then some x else r.records.get? k := by
  rw [records_set, OrderedMap.get?_insert]

theorem get?_delete (r : Registry) (key k : Bytes) :
    (r.delete key).records.get? k = if k = key then none else r.records.get? k := by
  rw [records_delete, OrderedMap.get?_erase]

theorem Laid.set {r : Registry} {key : Bytes} {x : Record} (h : r.Laid) (hx : Placed key x) :
    (r.set key x).Laid := by
  intro k record hk
  rw [get?_set] at hk
  split at hk
  · next hkey =>
    cases hk
    exact hkey ▸ hx
  · exact h k record hk

theorem Laid.delete {r : Registry} (h : r.Laid) (key : Bytes) : (r.delete key).Laid := by
  intro k record hk
  rw [get?_delete] at hk
  split at hk
  · cases hk
  · exact h k record hk

variable {i : Key.Index} {holder : Account} {id : ResourceId}
  {previous : Option (Account × ResourceId)} {key : Bytes} {record : Record}

theorem Laid.unindex {r : Registry} (h : r.Laid) : (r.unindex i holder previous).Laid := by
  unfold Registry.unindex
  split
  · split
    · exact h.delete _
    · exact h
  · exact h

theorem Laid.file {r : Registry} (h : r.Laid) (hx : Placed key record) :
    (r.file i holder id previous key record).Laid :=
  (h.unindex.set hx).set (.mark i holder id)

theorem Laid.unfile {r : Registry} (h : r.Laid) (holder : Option Account) :
    (r.unfile i id key holder).Laid := by
  unfold Registry.unfile
  split
  · exact (h.delete _).delete _
  · exact h

theorem get?_unindex (r : Registry) {k : Bytes} (hk : ¬ Key.IsEntry k) :
    (r.unindex i holder previous).records.get? k = r.records.get? k := by
  unfold unindex
  split
  · next a id =>
    split
    · rw [get?_delete, if_neg fun h => hk ⟨i, a, id, h⟩]
    · rfl
  · rfl

/-- Off the index, filing a record sets it and nothing else. -/
theorem get?_file (r : Registry) {k : Bytes} (hk : ¬ Key.IsEntry k) :
    (r.file i holder id previous key record).records.get? k =
      if k = key then some record else r.records.get? k := by
  rw [file, get?_set, if_neg fun h => hk ⟨i, holder, id, h⟩, get?_set, get?_unindex r hk]

/-- Off the index, removing a record that is there deletes it and nothing else. -/
theorem get?_unfile (r : Registry) {holder : Option Account} {k : Bytes} (hk : ¬ Key.IsEntry k)
    (hholder : holder = none → r.records.get? key = none) :
    (r.unfile i id key holder).records.get? k = if k = key then none else r.records.get? k := by
  unfold unfile
  split
  · next a => rw [get?_delete, if_neg fun h => hk ⟨i, a, id, h⟩, get?_delete]
  · split
    · next hkey => rw [hkey, hholder rfl]
    · rfl

/-! ## Reading -/

/-- The market that a registry stands for. -/
def market (r : Registry) : Market where
  params := (r.records.get? Key.params).bind Record.params?
  nextId := r.nextId
  resource id := (r.records.get? (Key.resource id)).bind Record.resource?
  lease id := (r.records.get? (Key.lease id)).bind Record.lease?

theorem market_congr {r r' : Registry} (h : r ≈ r') : r.market = r'.market := by
  simp only [market, nextId_congr h, equiv_def.1 h]

theorem params_eq_ok {r : Registry} {p : Params} :
    r.params = .ok p ↔ r.market.params = some p := by
  simp only [params, get?_eq, market]
  cases r.records.get? Key.params with
  | none => simp
  | some record => exact Record.toParams_eq_ok

theorem resource?_eq {r : Registry} (h : r.Laid) (id : ResourceId) :
    r.resource? id = .ok (r.market.resource id) := by
  simp only [resource?, get?_eq, market]
  cases hget : r.records.get? (Key.resource id) with
  | none => rfl
  | some record =>
    obtain ⟨x, rfl, -⟩ := (h _ _ hget).of_resource
    rfl

theorem lease?_eq {r : Registry} (h : r.Laid) (id : ResourceId) :
    r.lease? id = .ok (r.market.lease id) := by
  simp only [lease?, get?_eq, market]
  cases hget : r.records.get? (Key.lease id) with
  | none => rfl
  | some record =>
    obtain ⟨l, rfl, -⟩ := (h _ _ hget).of_lease
    rfl

theorem resource_eq_ok {r : Registry} (h : r.Laid) {id : ResourceId} {x : Resource} :
    r.resource id = .ok x ↔ r.market.resource id = some x := by
  rw [resource, resource?_eq h, bind_eq_ok]
  simp only [Except.ok.injEq, exists_eq_left']
  cases r.market.resource id with
  | none => simp [throw_eq_ok]
  | some y => simp [pure_eq_ok]

theorem lease_eq_ok {r : Registry} (h : r.Laid) {id : ResourceId} {l : Lease} :
    r.lease id = .ok l ↔ r.market.lease id = some l := by
  rw [lease, lease?_eq h, bind_eq_ok]
  simp only [Except.ok.injEq, exists_eq_left']
  cases r.market.lease id with
  | none => simp [throw_eq_ok]
  | some l' => simp [pure_eq_ok]

theorem lease_eq_notFound {r : Registry} (h : r.Laid) {id : ResourceId} :
    r.lease id = .error (.leaseNotFound id) ↔ r.market.lease id = none := by
  rw [lease, lease?_eq h]
  cases r.market.lease id with
  | none => exact iff_of_true rfl rfl
  | some l =>
    constructor
    · intro hfound
      cases hfound
    · intro hnone
      cases hnone

theorem id_of_market {r : Registry} (h : r.Laid) {id : ResourceId} {x : Resource}
    (hx : r.market.resource id = some x) : x.id = id := by
  obtain ⟨record, hget, hrecord⟩ := Option.bind_eq_some_iff.1 hx
  obtain ⟨y, rfl, hy⟩ := (h _ _ hget).of_resource
  cases hrecord
  exact hy

theorem resourceId_of_market {r : Registry} (h : r.Laid) {id : ResourceId} {l : Lease}
    (hl : r.market.lease id = some l) : l.resourceId = id := by
  obtain ⟨record, hget, hrecord⟩ := Option.bind_eq_some_iff.1 hl
  obtain ⟨l', rfl, hl'⟩ := (h _ _ hget).of_lease
  cases hrecord
  exact hl'

theorem hasResource_eq {r : Registry} (h : r.Laid) (id : ResourceId) :
    r.hasResource id = (r.market.resource id).isSome := by
  show (r.records.get? (Key.resource id)).isSome = _
  simp only [market]
  cases hget : r.records.get? (Key.resource id) with
  | none => rfl
  | some record =>
    obtain ⟨x, rfl, -⟩ := (h _ _ hget).of_resource
    rfl

theorem hasLease_eq {r : Registry} (h : r.Laid) (id : ResourceId) :
    r.hasLease id = (r.market.lease id).isSome := by
  show (r.records.get? (Key.lease id)).isSome = _
  simp only [market]
  cases hget : r.records.get? (Key.lease id) with
  | none => rfl
  | some record =>
    obtain ⟨l, rfl, -⟩ := (h _ _ hget).of_lease
    rfl

/-! ## Writing -/

theorem market_set_params (r : Registry) (p : Params) :
    (r.setParams p).market = { r.market with params := some p.plain } := by
  have hget : ∀ k, (r.setParams p).records.get? k =
      if k = Key.params then some (.params p) else r.records.get? k := fun k => get?_set r _ k _
  simp only [market, nextId, get?_eq, hget, if_pos, Key.counter_ne_params, Key.resource_ne_params,
    Key.lease_ne_params, if_false]
  rfl

theorem market_setNextId (r : Registry) (n : UInt64) :
    (r.setNextId n).market = { r.market with nextId := n } := by
  have hget : ∀ k, (r.setNextId n).records.get? k =
      if k = Key.counter then some (.counter n) else r.records.get? k := fun k => get?_set r _ k _
  simp only [market, nextId, get?_eq, hget, if_pos, Key.counter_ne_params.symm,
    Key.resource_ne_counter, Key.lease_ne_counter, if_false]

theorem Laid.setParams {r : Registry} (h : r.Laid) (p : Params) : (r.setParams p).Laid :=
  h.set (.params p)

theorem Laid.setNextId {r : Registry} (h : r.Laid) (n : UInt64) : (r.setNextId n).Laid :=
  h.set (.counter n)

/-- Off the index, only the resource of this id was written. -/
theorem market_of_resource_written {r r' : Registry} {id : ResourceId} (record : Option Record)
    (h : ∀ k, ¬ Key.IsEntry k → r'.records.get? k =
      if k = Key.resource id then record else r.records.get? k) :
    r'.market =
      { r.market with
        resource := Function.update r.market.resource id (record.bind Record.resource?) } := by
  simp only [market, nextId, get?_eq, h _ (Key.not_isEntry_resource _),
    h _ (Key.not_isEntry_lease _), h _ Key.not_isEntry_counter, h _ Key.not_isEntry_params,
    Key.resource_inj, (Key.resource_ne_lease _ _).symm, (Key.resource_ne_counter _).symm,
    (Key.resource_ne_params _).symm, if_false, Market.mk.injEq, true_and, and_true]
  funext id'
  rw [Function.update_apply]
  split <;> rfl

/-- Off the index, only the lease of this id was written. -/
theorem market_of_lease_written {r r' : Registry} {id : ResourceId} (record : Option Record)
    (h : ∀ k, ¬ Key.IsEntry k → r'.records.get? k =
      if k = Key.lease id then record else r.records.get? k) :
    r'.market =
      { r.market with lease := Function.update r.market.lease id (record.bind Record.lease?) } := by
  simp only [market, nextId, get?_eq, h _ (Key.not_isEntry_resource _),
    h _ (Key.not_isEntry_lease _), h _ Key.not_isEntry_counter, h _ Key.not_isEntry_params,
    Key.lease_inj, Key.resource_ne_lease, (Key.lease_ne_counter _).symm,
    (Key.lease_ne_params _).symm, if_false, Market.mk.injEq, true_and]
  funext id'
  rw [Function.update_apply]
  split <;> rfl

/-- What is stored of a laid out registry can be read, and so be replaced. -/
theorem Laid.exists_setResource {r : Registry} (h : r.Laid) (x : Resource) :
    ∃ r', r.setResource x = .ok r' := by
  simp only [setResource, resource?_eq h]
  exact ⟨_, rfl⟩

theorem Laid.exists_setLease {r : Registry} (h : r.Laid) (l : Lease) :
    ∃ r', r.setLease l = .ok r' := by
  simp only [setLease, lease?_eq h]
  exact ⟨_, rfl⟩

theorem setResource_eq_ok {r r' : Registry} (h : r.Laid) {x : Resource}
    (hset : r.setResource x = .ok r') :
    r'.Laid ∧ r'.market = r.market.withResource x.plain := by
  rw [setResource, resource?_eq h] at hset
  cases hset
  exact ⟨h.file (.resource x), market_of_resource_written (some (.resource x)) fun k hk =>
    get?_file r hk⟩

theorem deleteResource_eq_ok {r r' : Registry} (h : r.Laid) {id : ResourceId} {found : Bool}
    (hdelete : r.deleteResource id = .ok (found, r')) :
    r'.Laid ∧ r'.market = r.market.withoutResource id := by
  rw [deleteResource, resource?_eq h] at hdelete
  cases hdelete
  refine ⟨h.unfile _, market_of_resource_written none fun k hk => get?_unfile r hk ?_⟩
  -- A resource that is not found is not stored: no other record stands at its key.
  intro hnone
  rw [Option.map_eq_none_iff] at hnone
  cases hget : r.records.get? (Key.resource id) with
  | none => rfl
  | some record =>
    obtain ⟨x, rfl, -⟩ := (h _ _ hget).of_resource
    simp [market, hget, Record.resource?] at hnone

theorem setLease_eq_ok {r r' : Registry} (h : r.Laid) {l : Lease} (hset : r.setLease l = .ok r') :
    r'.Laid ∧ r'.market = r.market.withLease l.plain := by
  rw [setLease, lease?_eq h] at hset
  cases hset
  exact ⟨h.file (.lease l), market_of_lease_written (some (.lease l)) fun k hk => get?_file r hk⟩

theorem deleteLease_eq_ok {r r' : Registry} (h : r.Laid) {id : ResourceId} {found : Bool}
    (hdelete : r.deleteLease id = .ok (found, r')) :
    r'.Laid ∧ r'.market = r.market.withoutLease id := by
  rw [deleteLease, lease?_eq h] at hdelete
  cases hdelete
  refine ⟨h.unfile _, market_of_lease_written none fun k hk => get?_unfile r hk ?_⟩
  -- A lease that is not found is not stored: no other record stands at its key.
  intro hnone
  rw [Option.map_eq_none_iff] at hnone
  cases hget : r.records.get? (Key.lease id) with
  | none => rfl
  | some record =>
    obtain ⟨l, rfl, -⟩ := (h _ _ hget).of_lease
    simp [market, hget, Record.lease?] at hnone

end Registry

end LeaseEscrow
