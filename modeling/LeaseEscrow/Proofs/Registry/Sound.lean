import LeaseEscrow.Proofs.Records
import LeaseEscrow.Proofs.Registry.Market

/-!
# Sound markets

A market is sound when its records are valid, of one denomination, and tied to each other: a
lease for each resource that is flagged as leased and for no other, made with its owner. Each
change that the keeper makes to a market keeps it sound.
-/

namespace LeaseEscrow

/-- A resource in its place, next to the lease of the same id. -/
structure ResourceFits (denom : String) (id : ResourceId) (x : Resource) (l? : Option Lease) :
    Prop where
  id_eq : x.id = id
  valid : x.Valid
  denom_eq : x.pricePerHour.denom = denom
  leased_iff : x.leased = true ↔ l?.isSome = true

/-- A lease in its place, next to the resource of the same id. -/
structure LeaseFits (denom : String) (id : ResourceId) (l : Lease) (x? : Option Resource) :
    Prop where
  id_eq : l.resourceId = id
  valid : l.Valid
  denom_eq : l.pricePerHour.denom = denom
  owner : ∃ x, x? = some x ∧ l.owner = x.owner

namespace Market

structure Sound (p : Params) (m : Market) : Prop where
  params_eq : m.params = some p
  params_valid : p.Valid
  nextId_ne : m.nextId ≠ 0
  resource : ∀ {id x}, m.resource id = some x → ResourceFits p.denom id x (m.lease id)
  lease : ∀ {id l}, m.lease id = some l → LeaseFits p.denom id l (m.resource id)

variable {p : Params} {m m' : Market}

theorem Sound.lease_of_absent (h : m.Sound p) {id : ResourceId} (hx : m.resource id = none) :
    m.lease id = none := by
  rw [← Option.not_isSome_iff_eq_none, Option.isSome_iff_exists]
  rintro ⟨l, hl⟩
  obtain ⟨x, hx', -⟩ := (h.lease hl).owner
  cases hx.symm.trans hx'

theorem Sound.lease_of_free (h : m.Sound p) {id : ResourceId} {x : Resource}
    (hx : m.resource id = some x) (hleased : x.leased = false) : m.lease id = none := by
  rw [← Option.not_isSome_iff_eq_none, ← (h.resource hx).leased_iff, hleased]
  exact Bool.false_ne_true

/-- Only the records of `id` have to be looked at when nothing else changed. -/
theorem Sound.of_changed_at (h : m.Sound p) (id : ResourceId) (hparams : m'.params = m.params)
    (hnext : m'.nextId ≠ 0)
    (hresource : ∀ j, j ≠ id → m'.resource j = m.resource j)
    (hlease : ∀ j, j ≠ id → m'.lease j = m.lease j)
    (hx : ∀ x, m'.resource id = some x → ResourceFits p.denom id x (m'.lease id))
    (hl : ∀ l, m'.lease id = some l → LeaseFits p.denom id l (m'.resource id)) : m'.Sound p where
  params_eq := hparams.trans h.params_eq
  params_valid := h.params_valid
  nextId_ne := hnext
  resource {j x} hj := by
    by_cases hid : j = id
    · subst hid
      exact hx x hj
    · rw [hresource j hid] at hj
      rw [hlease j hid]
      exact h.resource hj
  lease {j l} hj := by
    by_cases hid : j = id
    · subst hid
      exact hl l hj
    · rw [hlease j hid] at hj
      rw [hresource j hid]
      exact h.lease hj

/-- A new record of a resource, with the flag and the owner that its lease asks for. -/
theorem Sound.withResource (h : m.Sound p) {x : Resource} (hvalid : x.Valid)
    (hdenom : x.pricePerHour.denom = p.denom)
    (hleased : x.leased = true ↔ (m.lease x.id).isSome = true)
    (howner : ∀ l, m.lease x.id = some l → l.owner = x.owner) : (m.withResource x).Sound p := by
  have hself : (m.withResource x).resource x.id = some x := Function.update_self ..
  refine h.of_changed_at x.id rfl h.nextId_ne (fun j hj => Function.update_of_ne hj _ _)
    (fun _ _ => rfl) ?_ ?_
  · intro y hy
    obtain rfl := Option.some.inj (hself.symm.trans hy)
    exact ⟨rfl, hvalid, hdenom, hleased⟩
  · intro l hl
    have hfits := h.lease hl
    exact ⟨hfits.id_eq, hfits.valid, hfits.denom_eq, x, hself, howner l hl⟩

/-- A new record of a resource that there is, with its owner and its flag. -/
theorem Sound.replaced (h : m.Sound p) {id : ResourceId} {old x : Resource}
    (hold : m.resource id = some old)
    (hsame : x.id = old.id ∧ x.owner = old.owner ∧ x.leased = old.leased) (hvalid : x.Valid)
    (hdenom : x.pricePerHour.denom = p.denom) : (m.withResource x).Sound p := by
  have hfits := h.resource hold
  obtain ⟨hid, howner, hleased⟩ := hsame
  have hplace : x.id = id := hid.trans hfits.id_eq
  refine h.withResource hvalid hdenom ?_ ?_
  · rw [hleased, hplace]
    exact hfits.leased_iff
  · intro l hl
    rw [hplace] at hl
    obtain ⟨y, hy, hlowner⟩ := (h.lease hl).owner
    obtain rfl := Option.some.inj (hold.symm.trans hy)
    rw [hlowner, howner]

/-- A new record of a lease that there is. -/
theorem Sound.withLease (h : m.Sound p) {old l : Lease} (hold : m.lease l.resourceId = some old)
    (hvalid : l.Valid) (hdenom : l.pricePerHour.denom = p.denom) (howner : l.owner = old.owner) :
    (m.withLease l).Sound p := by
  have hself : (m.withLease l).lease l.resourceId = some l := Function.update_self ..
  refine h.of_changed_at l.resourceId rfl h.nextId_ne (fun _ _ => rfl)
    (fun j hj => Function.update_of_ne hj _ _) ?_ ?_
  · intro x hx
    have hfits := h.resource hx
    refine ⟨hfits.id_eq, hfits.valid, hfits.denom_eq, ?_⟩
    rw [hself, hfits.leased_iff, hold]
    rfl
  · intro l' hl'
    obtain rfl := Option.some.inj (hself.symm.trans hl')
    obtain ⟨x, hx, hxowner⟩ := (h.lease hold).owner
    exact ⟨rfl, hvalid, hdenom, x, hx, howner.trans hxowner⟩

/-- A first lease of a resource, together with the flag. -/
theorem Sound.taken (h : m.Sound p) {x : Resource} {l : Lease} (hx : m.resource x.id = some x)
    (hactive : x.status = .active) (hvalid : l.Valid) (hid : l.resourceId = x.id)
    (hdenom : l.pricePerHour.denom = p.denom) (howner : l.owner = x.owner) :
    ((m.withLease l).withResource { x with leased := true }).Sound p := by
  have hfits := h.resource hx
  have hresource : ((m.withLease l).withResource { x with leased := true }).resource x.id =
      some { x with leased := true } := Function.update_self ..
  have hlease : ((m.withLease l).withResource { x with leased := true }).lease x.id = some l := by
    rw [← hid]
    exact Function.update_self ..
  refine h.of_changed_at x.id rfl h.nextId_ne (fun j hj => Function.update_of_ne hj _ _)
    (fun j hj => Function.update_of_ne (hid.symm ▸ hj) _ _) ?_ ?_
  · intro y hy
    obtain rfl := Option.some.inj (hresource.symm.trans hy)
    have hv := hfits.valid
    refine ⟨rfl, { hv with active := fun _ => hactive }, hfits.denom_eq, ?_⟩
    rw [hlease]
    exact Iff.rfl
  · intro l' hl'
    obtain rfl := Option.some.inj (hlease.symm.trans hl')
    exact ⟨hid, hvalid, hdenom, _, hresource, howner⟩

/-- The end of a lease, together with the flag. -/
theorem Sound.ended (h : m.Sound p) {x : Resource} (hx : m.resource x.id = some x) :
    (m.ended x).Sound p := by
  have hfits := h.resource hx
  have hresource : (m.ended x).resource x.id = some { x with leased := false } :=
    Function.update_self ..
  have hlease : (m.ended x).lease x.id = none := Function.update_self ..
  refine h.of_changed_at x.id rfl h.nextId_ne (fun j hj => Function.update_of_ne hj _ _)
    (fun j hj => Function.update_of_ne hj _ _) ?_ ?_
  · intro y hy
    obtain rfl := Option.some.inj (hresource.symm.trans hy)
    have hv := hfits.valid
    refine ⟨rfl, { hv with active := nofun }, hfits.denom_eq, ?_⟩
    rw [hlease]
    exact ⟨nofun, nofun⟩
  · intro l hl
    rw [hlease] at hl
    cases hl

theorem Sound.withNextId (h : m.Sound p) {n : UInt64} (hn : n ≠ 0) :
    Sound p { m with nextId := n } :=
  ⟨h.params_eq, h.params_valid, hn, h.resource, h.lease⟩

/-- Other parameters may have another denomination only when there is no resource. -/
theorem Sound.withParams (h : m.Sound p) {p' : Params} (hvalid : p'.Valid)
    (hdenom : p.denom = p'.denom ∨ ∀ id, m.resource id = none) :
    Sound p' { m with params := some p' } where
  params_eq := rfl
  params_valid := hvalid
  nextId_ne := h.nextId_ne
  resource {id x} hx := by
    rcases hdenom with hdenom | hnone
    · exact hdenom ▸ h.resource hx
    · cases (hnone id).symm.trans hx
  lease {id l} hl := by
    rcases hdenom with hdenom | hnone
    · exact hdenom ▸ h.lease hl
    · obtain ⟨x, hx, -⟩ := (h.lease hl).owner
      cases (hnone id).symm.trans hx

theorem Draws.nextId_ne {chosen : Option ResourceId} {id : ResourceId} {n : UInt64}
    (hd : m.Draws chosen id n) (h : m.nextId ≠ 0) : n ≠ 0 := by
  rcases hd.drawn with ⟨-, rfl⟩ | ⟨-, j, -, hj, -, rfl⟩
  · exact h
  · intro hzero
    have hnat := congrArg UInt64.toNat hzero
    rw [toNat_succ hj] at hnat
    exact Nat.succ_ne_zero _ hnat

end Market

end LeaseEscrow
