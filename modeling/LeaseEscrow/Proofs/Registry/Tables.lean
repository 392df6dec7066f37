import LeaseEscrow.Proofs.Registry.Market
import LeaseEscrow.Proofs.Store.Scan
import LeaseEscrow.Proofs.Store.Table

/-!
# The records of a registry as lists

The lists of all resources and of all leases are tables of the market: each record stands there
once, in the order of the keys. The market determines them (`eq_of_isTable`).
-/

namespace LeaseEscrow

/-- A reading that finds something exactly in the members that a test picks reads these. -/
theorem mapM_filter {α β : Type} {f : α → Except Refusal β} {g : α → Option β} {p : α → Bool}
    {l : List α} (hpos : ∀ e ∈ l, p e = true → ∃ x, f e = .ok x ∧ g e = some x)
    (hneg : ∀ e ∈ l, p e = false → g e = none) :
    (l.filter p).mapM f = .ok (l.filterMap g) := by
  induction l with
  | nil => rfl
  | cons e l ih =>
    have hrest := ih (fun e he => hpos e (List.mem_cons_of_mem _ he))
      fun e he => hneg e (List.mem_cons_of_mem _ he)
    cases he : p e with
    | false =>
      rw [List.filter_cons, he, List.filterMap_cons, hneg e List.mem_cons_self he]
      exact hrest
    | true =>
      obtain ⟨x, hf, hg⟩ := hpos e List.mem_cons_self he
      rw [List.filter_cons, if_pos he, List.filterMap_cons, hg, List.mapM_cons, hf, hrest]
      rfl

namespace Registry

section

variable {α : Type} {key : α → ResourceId} (place : ResourceId → Bytes)

/-- Entries that a reading finds stand in the order of their own keys. -/
theorem ascending_filterMap {read : Bytes × Record → Option α} {l : List (Bytes × Record)}
    (ascending : l.Pairwise fun a b => compare a.1 b.1 = .lt)
    (hplace : ∀ e ∈ l, ∀ x, read e = some x → e.1 = place (key x)) :
    (l.filterMap read).Pairwise fun x y => compare (place (key x)) (place (key y)) = .lt := by
  refine List.Pairwise.filterMap _ ?_ (List.Pairwise.and_mem.1 ascending)
  rintro e e' ⟨he, he', hlt⟩ x hx y hy
  rwa [hplace e he x hx, hplace e' he' y hy] at hlt

theorem nodup_of_ascending {l : List α}
    (ascending : l.Pairwise fun x y => compare (place (key x)) (place (key y)) = .lt) :
    (l.map key).Nodup := by
  rw [List.Nodup, List.pairwise_map]
  refine ascending.imp fun hlt hkey => ?_
  rw [hkey] at hlt
  simp at hlt

/-- In one order there is one table. -/
theorem eq_of_isTable {find : ResourceId → Option α} {l l' : List α}
    (ascending : l.Pairwise fun x y => compare (place (key x)) (place (key y)) = .lt)
    (ascending' : l'.Pairwise fun x y => compare (place (key x)) (place (key y)) = .lt)
    (h : IsTable key find l) (h' : IsTable key find l') : l = l' := by
  refine List.Perm.eq_of_pairwise (fun x y _ _ hlt hgt => ?_) ascending ascending' (h.perm h')
  exact absurd hgt (Std.OrientedCmp.not_lt_of_lt hlt)

end

def resourceList (r : Registry) : List Resource :=
  r.records.entries.filterMap fun e => e.2.resource?

def leaseList (r : Registry) : List Lease :=
  r.records.entries.filterMap fun e => e.2.lease?

theorem Laid.entry {r : Registry} (h : r.Laid) {e : Bytes × Record} (he : e ∈ r.records.entries) :
    Placed e.1 e.2 := h _ _ ((OrderedMap.get?_eq_some_iff _ _ _).2 he)

theorem Laid.key_of_resource {r : Registry} (h : r.Laid) {e : Bytes × Record}
    (he : e ∈ r.records.entries) {x : Resource} (hx : e.2.resource? = some x) :
    e.1 = Key.resource x.id := by
  obtain ⟨key, record⟩ := e
  have hplaced := h.entry he
  cases hplaced <;> cases hx
  rfl

theorem Laid.key_of_lease {r : Registry} (h : r.Laid) {e : Bytes × Record}
    (he : e ∈ r.records.entries) {l : Lease} (hl : e.2.lease? = some l) :
    e.1 = Key.lease l.resourceId := by
  obtain ⟨key, record⟩ := e
  have hplaced := h.entry he
  cases hplaced <;> cases hl
  rfl

theorem Laid.ascending_resources {r : Registry} (h : r.Laid) :
    r.resourceList.Pairwise fun x y => compare (Key.resource x.id) (Key.resource y.id) = .lt :=
  ascending_filterMap Key.resource r.records.ascending fun _ he _ => h.key_of_resource he

theorem Laid.ascending_leases {r : Registry} (h : r.Laid) :
    r.leaseList.Pairwise fun l l' =>
      compare (Key.lease l.resourceId) (Key.lease l'.resourceId) = .lt :=
  ascending_filterMap Key.lease r.records.ascending fun _ he _ => h.key_of_lease he

theorem isTable_resources {r : Registry} (h : r.Laid) :
    IsTable Resource.id r.market.resource r.resourceList where
  nodup := nodup_of_ascending Key.resource h.ascending_resources
  mem_iff x := by
    rw [resourceList, List.mem_filterMap]
    constructor
    · rintro ⟨e, he, hx⟩
      have hget := (OrderedMap.get?_eq_some_iff _ _ _).2 he
      rw [h.key_of_resource he hx] at hget
      exact Option.bind_eq_some_iff.2 ⟨e.2, hget, hx⟩
    · intro hx
      obtain ⟨record, hget, hrecord⟩ := Option.bind_eq_some_iff.1 hx
      exact ⟨_, (OrderedMap.get?_eq_some_iff _ _ _).1 hget, hrecord⟩

theorem isTable_leases {r : Registry} (h : r.Laid) :
    IsTable Lease.resourceId r.market.lease r.leaseList where
  nodup := nodup_of_ascending Key.lease h.ascending_leases
  mem_iff l := by
    rw [leaseList, List.mem_filterMap]
    constructor
    · rintro ⟨e, he, hl⟩
      have hget := (OrderedMap.get?_eq_some_iff _ _ _).2 he
      rw [h.key_of_lease he hl] at hget
      exact Option.bind_eq_some_iff.2 ⟨e.2, hget, hl⟩
    · intro hl
      obtain ⟨record, hget, hrecord⟩ := Option.bind_eq_some_iff.1 hl
      exact ⟨_, (OrderedMap.get?_eq_some_iff _ _ _).1 hget, hrecord⟩

theorem resources_eq {r : Registry} (h : r.Laid) : r.resources = .ok r.resourceList := by
  rw [resources, scan_eq, Store.scan_eq_filter]
  refine mapM_filter (fun e he hkind => ?_) fun e he hkind => ?_
  · have hplaced := h.entry he
    obtain ⟨key, record⟩ := e
    cases hplaced with
    | resource x => exact ⟨x.plain, rfl, rfl⟩
    | mark i a id => cases i <;> cases hkind
    | _ => cases hkind
  · have hplaced := h.entry he
    obtain ⟨key, record⟩ := e
    cases hplaced with
    | resource x => cases hkind
    | _ => rfl

theorem mem_of_mapM_eq_ok {α β : Type} {f : α → Except Refusal β} {l : List α} {ys : List β}
    (h : l.mapM f = .ok ys) {e : α} (he : e ∈ l) : ∃ y ∈ ys, f e = .ok y := by
  induction l generalizing ys with
  | nil => cases he
  | cons a l ih =>
    rw [List.mapM_cons] at h
    simp only [bind_eq_ok, pure_eq_ok] at h
    obtain ⟨y, hy, rest, hrest, rfl⟩ := h
    rcases List.mem_cons.1 he with rfl | he
    · exact ⟨y, List.mem_cons_self, hy⟩
    · obtain ⟨z, hz, hfz⟩ := ih hrest he
      exact ⟨z, List.mem_cons_of_mem _ hz, hfz⟩

/-- Every lease that is stored is among the leases that a block settles. -/
theorem mem_leaseIds {r : Registry} {id : ResourceId} {l : Lease}
    (hl : r.market.lease id = some l) {ids : List ResourceId} (hids : r.leaseIds = .ok ids) :
    id ∈ ids := by
  obtain ⟨record, hget, -⟩ := Option.bind_eq_some_iff.1 hl
  have hentry := (OrderedMap.get?_eq_some_iff _ _ _).1 hget
  rw [leaseIds, idsBelow, scan_eq, Store.scan_eq_filter] at hids
  obtain ⟨id', hmem, hread⟩ := mem_of_mapM_eq_ok hids
    (List.mem_filter.2 ⟨hentry, by simp [Key.lease]⟩)
  have hbytes : ResourceId.ofBytes? ((Key.lease id).drop 1) = some id := ResourceId.ofBytes?_bytes id
  simp only [List.length_singleton, hbytes, Except.ok.injEq] at hread
  exact hread ▸ hmem

theorem leases_eq {r : Registry} (h : r.Laid) : r.leases = .ok r.leaseList := by
  rw [leases, scan_eq, Store.scan_eq_filter]
  refine mapM_filter (fun e he hkind => ?_) fun e he hkind => ?_
  · have hplaced := h.entry he
    obtain ⟨key, record⟩ := e
    cases hplaced with
    | lease l => exact ⟨l.plain, rfl, rfl⟩
    | mark i a id => cases i <;> cases hkind
    | _ => cases hkind
  · have hplaced := h.entry he
    obtain ⟨key, record⟩ := e
    cases hplaced with
    | lease l => cases hkind
    | _ => rfl

/-! ## Ids -/

/-- In the order of their bytes, each once. -/
def Ascending (ids : List ResourceId) : Prop :=
  ids.Pairwise fun a b => compare a.bytes b.bytes = .lt

theorem Ascending.nodup {ids : List ResourceId} (h : Ascending ids) : ids.Nodup := by
  refine h.imp fun hlt heq => ?_
  rw [heq] at hlt
  simp at hlt

theorem Ascending.eq_of_mem_iff {ids ids' : List ResourceId} (h : Ascending ids)
    (h' : Ascending ids') (hmem : ∀ id, id ∈ ids ↔ id ∈ ids') : ids = ids' := by
  refine List.Perm.eq_of_pairwise (fun x y _ _ hlt hgt => ?_) h h'
    ((List.perm_ext_iff_of_nodup h.nodup h'.nodup).2 hmem)
  exact absurd hgt (Std.OrientedCmp.not_lt_of_lt hlt)

theorem Laid.ascending_resourceIds {r : Registry} (h : r.Laid) :
    Ascending (r.resourceList.map Resource.id) := by
  refine List.pairwise_map.2 (h.ascending_resources.imp fun hlt => ?_)
  exact (Key.compare_append_left [Key.resourceKind] _ _).symm.trans hlt

theorem Laid.ascending_leaseIds {r : Registry} (h : r.Laid) :
    Ascending (r.leaseList.map Lease.resourceId) := by
  refine List.pairwise_map.2 (h.ascending_leases.imp fun hlt => ?_)
  exact (Key.compare_append_left [Key.leaseKind] _ _).symm.trans hlt

/-- When all keys that begin with `start` go on with an id, these ids are found, and in order. -/
theorem exists_idsBelow (r : Registry) (start : Bytes)
    (hkeys : ∀ e ∈ r.records.entries, start.isPrefixOf e.1 = true →
      ∃ id : ResourceId, e.1 = start ++ id.bytes) :
    ∃ ids, r.idsBelow start = .ok ids ∧ Ascending ids ∧
      ∀ id, id ∈ ids ↔ (r.records.get? (start ++ id.bytes)).isSome = true := by
  have hread : ∀ id : ResourceId,
      ResourceId.ofBytes? ((start ++ id.bytes).drop start.length) = some id := by
    intro id
    rw [List.drop_left, ResourceId.ofBytes?_bytes]
  have hprefix : ∀ id : ResourceId, start.isPrefixOf (start ++ id.bytes) = true := fun id =>
    List.isPrefixOf_iff_prefix.2 ⟨id.bytes, rfl⟩
  let find (e : Bytes × Record) : Option ResourceId :=
    if start.isPrefixOf e.1 then ResourceId.ofBytes? (e.1.drop start.length) else none
  have hfind : ∀ e ∈ r.records.entries, ∀ id, find e = some id → e.1 = start ++ id.bytes := by
    intro e he id hid
    obtain ⟨hbelow, hid⟩ := Option.ite_none_right_eq_some.1 hid
    obtain ⟨id', hkey⟩ := hkeys e he hbelow
    rw [hkey, hread] at hid
    rw [hkey, Option.some.inj hid]
  refine ⟨r.records.entries.filterMap find, ?_, ?_, fun id => ?_⟩
  · rw [idsBelow, scan_eq, Store.scan_eq_filter]
    refine mapM_filter (fun e he hbelow => ?_) fun e he hbelow => ?_
    · obtain ⟨id, hkey⟩ := hkeys e he hbelow
      refine ⟨id, ?_, ?_⟩
      · simp only [hkey, hread]
      · simp only [find, hkey, hprefix, hread, if_true]
    · simp only [find, hbelow, Bool.false_eq_true, if_false]
  · refine (ascending_filterMap (start ++ ·.bytes) r.records.ascending hfind).imp ?_
    intro id id' hlt
    exact (Key.compare_append_left start _ _).symm.trans hlt
  · rw [List.mem_filterMap, Option.isSome_iff_exists]
    constructor
    · rintro ⟨e, he, hid⟩
      have hget := (OrderedMap.get?_eq_some_iff _ _ _).2 he
      rw [hfind e he id hid] at hget
      exact ⟨e.2, hget⟩
    · rintro ⟨record, hget⟩
      refine ⟨(start ++ id.bytes, record), (OrderedMap.get?_eq_some_iff _ _ _).1 hget, ?_⟩
      simp only [find, hprefix, hread, if_true]

/-- The ids of all resources, in the order of the resources. -/
theorem resourceIds_eq {r : Registry} (h : r.Laid) :
    r.resourceIds = .ok (r.resourceList.map Resource.id) := by
  obtain ⟨ids, hids, hascending, hmem⟩ := exists_idsBelow r [Key.resourceKind]
    fun e he hkind => by
      have hplaced := h.entry he
      obtain ⟨key, record⟩ := e
      cases hplaced with
      | resource x => exact ⟨x.id, rfl⟩
      | mark i a id => cases i <;> cases hkind
      | _ => cases hkind
  rw [resourceIds, hids]
  refine congrArg Except.ok (hascending.eq_of_mem_iff h.ascending_resourceIds fun id => ?_)
  rw [hmem, (isTable_resources h).mem_map_key fun _ _ => id_of_market h, ← hasResource_eq h]
  exact Iff.rfl

/-- The ids of all leases, in the order of the leases. -/
theorem leaseIds_eq {r : Registry} (h : r.Laid) :
    r.leaseIds = .ok (r.leaseList.map Lease.resourceId) := by
  obtain ⟨ids, hids, hascending, hmem⟩ := exists_idsBelow r [Key.leaseKind]
    fun e he hkind => by
      have hplaced := h.entry he
      obtain ⟨key, record⟩ := e
      cases hplaced with
      | lease l => exact ⟨l.resourceId, rfl⟩
      | mark i a id => cases i <;> cases hkind
      | _ => cases hkind
  rw [leaseIds, hids]
  refine congrArg Except.ok (hascending.eq_of_mem_iff h.ascending_leaseIds fun id => ?_)
  rw [hmem, (isTable_leases h).mem_map_key fun _ _ => resourceId_of_market h, ← hasLease_eq h]
  exact Iff.rfl

end Registry

end LeaseEscrow
