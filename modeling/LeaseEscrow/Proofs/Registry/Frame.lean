import LeaseEscrow.Proofs.Registry.Index

/-!
# What a write leaves alone

The records of a resource, of its lease and their entries in the index have keys of their own, which
tell the id (`Key.About.id_eq`). What the registry writes for one id it writes under these keys: all
others hold after it what they held before, to the byte.
-/

namespace LeaseEscrow

namespace Key

/-- The key of the resource `id`, of its lease, or of an entry that lists one of them. -/
def About (id : ResourceId) (key : Bytes) : Prop :=
  key = resource id ∨ key = lease id ∨ ∃ i a, key = entry i a id

theorem about_resource (id : ResourceId) : About id (resource id) := .inl rfl

theorem about_lease (id : ResourceId) : About id (lease id) := .inr (.inl rfl)

theorem about_entry (i : Index) (a : Account) (id : ResourceId) : About id (entry i a id) :=
  .inr (.inr ⟨i, a, rfl⟩)

/-- No key is about two resources. -/
theorem About.id_eq {id id' : ResourceId} {key : Bytes} (h : About id key) (h' : About id' key) :
    id = id' := by
  rcases h with rfl | rfl | ⟨i, a, rfl⟩
  · rcases h' with h' | h' | ⟨j, a', h'⟩
    · exact resource_inj.1 h'
    · exact absurd h' (resource_ne_lease _ _)
    · exact absurd ⟨j, a', id', h'⟩ (not_isEntry_resource id)
  · rcases h' with h' | h' | ⟨j, a', h'⟩
    · exact absurd h'.symm (resource_ne_lease _ _)
    · exact lease_inj.1 h'
    · exact absurd ⟨j, a', id', h'⟩ (not_isEntry_lease id)
  · rcases h' with h' | h' | ⟨j, a', h'⟩
    · exact absurd ⟨i, a, id, h'.symm⟩ (not_isEntry_resource id')
    · exact absurd ⟨i, a, id, h'.symm⟩ (not_isEntry_lease id')
    · exact (entry_inj.1 h').2.2

theorem not_about_counter (id : ResourceId) : ¬ About id counter := by
  rintro (h | h | ⟨i, a, h⟩)
  · exact resource_ne_counter id h.symm
  · exact lease_ne_counter id h.symm
  · exact not_isEntry_counter ⟨i, a, id, h⟩

theorem not_about_params (id : ResourceId) : ¬ About id params := by
  rintro (h | h | ⟨i, a, h⟩)
  · exact resource_ne_params id h.symm
  · exact lease_ne_params id h.symm
  · exact not_isEntry_params ⟨i, a, id, h⟩

end Key

namespace Registry

/-- Under every other key there is what there was. -/
def SameOutside (touched : Bytes → Prop) (r r' : Registry) : Prop :=
  ∀ key, ¬ touched key → r'.records.get? key = r.records.get? key

variable {touched touched' : Bytes → Prop} {r r₁ r' : Registry} {id : ResourceId}

theorem SameOutside.refl (touched : Bytes → Prop) (r : Registry) : SameOutside touched r r :=
  fun _ _ => rfl

theorem SameOutside.trans (h : SameOutside touched r r₁) (h' : SameOutside touched r₁ r') :
    SameOutside touched r r' := fun key hkey => (h' key hkey).trans (h key hkey)

theorem SameOutside.mono (h : SameOutside touched r r')
    (hsub : ∀ {key}, touched key → touched' key) : SameOutside touched' r r' :=
  fun key hkey => h key fun ht => hkey (hsub ht)

theorem sameOutside_set {key : Bytes} (hkey : touched key) (record : Record) :
    SameOutside touched r (r.set key record) := by
  intro k hk
  rw [get?_set, if_neg]
  rintro rfl
  exact hk hkey

theorem sameOutside_delete {key : Bytes} (hkey : touched key) :
    SameOutside touched r (r.delete key) := by
  intro k hk
  rw [get?_delete, if_neg]
  rintro rfl
  exact hk hkey

/-- A record is filed under keys of its own id when the previous one was of the same id. -/
theorem sameOutside_file {i : Key.Index} {holder : Account} {key : Bytes} {record : Record}
    {previous : Option (Account × ResourceId)} (hkey : Key.About id key)
    (hprevious : ∀ a j, previous = some (a, j) → j = id) :
    SameOutside (Key.About id) r (r.file i holder id previous key record) := by
  have hunindex : SameOutside (Key.About id) r (r.unindex i holder previous) := by
    unfold unindex
    split
    · next a j =>
      obtain rfl := hprevious a j rfl
      split
      · exact sameOutside_delete (Key.about_entry i a j)
      · exact .refl _ r
    · exact .refl _ r
  exact (hunindex.trans (sameOutside_set hkey record)).trans
    (sameOutside_set (Key.about_entry i holder id) .mark)

theorem sameOutside_unfile {i : Key.Index} {holder : Option Account} {key : Bytes}
    (hkey : Key.About id key) : SameOutside (Key.About id) r (r.unfile i id key holder) := by
  unfold unfile
  split
  · next a =>
    exact (sameOutside_delete hkey).trans (sameOutside_delete (Key.about_entry i a id))
  · exact .refl _ r

theorem sameOutside_setResource {x : Resource} (h : r.Laid) (hset : r.setResource x = .ok r') :
    SameOutside (Key.About x.id) r r' := by
  obtain ⟨old, hold, hfile⟩ := bind_eq_ok.1 hset
  obtain rfl := pure_eq_ok.1 hfile
  refine sameOutside_file (Key.about_resource x.id) fun a j hj => ?_
  obtain ⟨y, hy, hpair⟩ := Option.map_eq_some_iff.1 hj
  rw [resource?_eq h, Except.ok.injEq] at hold
  obtain rfl := (Prod.mk.inj hpair).2
  exact id_of_market h (hold.trans hy)

theorem sameOutside_setLease {l : Lease} (h : r.Laid) (hset : r.setLease l = .ok r') :
    SameOutside (Key.About l.resourceId) r r' := by
  obtain ⟨old, hold, hfile⟩ := bind_eq_ok.1 hset
  obtain rfl := pure_eq_ok.1 hfile
  refine sameOutside_file (Key.about_lease l.resourceId) fun a j hj => ?_
  obtain ⟨y, hy, hpair⟩ := Option.map_eq_some_iff.1 hj
  rw [lease?_eq h, Except.ok.injEq] at hold
  obtain rfl := (Prod.mk.inj hpair).2
  exact resourceId_of_market h (hold.trans hy)

theorem sameOutside_deleteLease {found : Bool} (hdelete : r.deleteLease id = .ok (found, r')) :
    SameOutside (Key.About id) r r' := by
  obtain ⟨old, -, hunfile⟩ := bind_eq_ok.1 hdelete
  obtain rfl := (Prod.mk.inj (pure_eq_ok.1 hunfile)).2
  exact sameOutside_unfile (Key.about_lease id)

theorem sameOutside_setParams (p : Params) : SameOutside (· = Key.params) r (r.setParams p) := by
  refine sameOutside_set ?_ _
  rfl

theorem sameOutside_setNextId (n : UInt64) : SameOutside (· = Key.counter) r (r.setNextId n) := by
  refine sameOutside_set ?_ _
  rfl

end Registry

end LeaseEscrow
