import LeaseEscrow.Genesis
import LeaseEscrow.Proofs.Records

/-!
# Valid genesis states

What the check of a genesis state asks for: valid records of one denomination, each id once,
each lease with the owner of its resource, and a flag exactly on the resources with a lease.
-/

namespace LeaseEscrow.Genesis

structure Valid (g : Genesis) : Prop where
  params : g.params.Valid
  nextId_ne : g.nextId ≠ 0
  resource : ∀ r ∈ g.resources, r.Valid ∧ r.pricePerHour.denom = g.params.denom
  resources_nodup : (g.resources.map Resource.id).Nodup
  lease : ∀ l ∈ g.leases, (l.Valid ∧ l.pricePerHour.denom = g.params.denom) ∧
    ∃ r, g.resources.find? (fun r => r.id = l.resourceId) = some r ∧ l.owner = r.owner
  leases_nodup : (g.leases.map Lease.resourceId).Nodup
  flag : ∀ r ∈ g.resources, (r.leased = true ↔ ∃ l ∈ g.leases, l.resourceId = r.id)

section

variable {α κ : Type} {key : α → κ} {check : List α → α → Except Refusal Unit} {Q : α → Prop}

theorem checkAll_eq_ok {checkAll : List α → List α → Except Refusal Unit}
    (hnil : ∀ earlier, checkAll earlier [] = .ok ())
    (hcons : ∀ earlier a rest, checkAll earlier (a :: rest) =
      (do check earlier a; checkAll (a :: earlier) rest))
    (hcheck : ∀ earlier a, check earlier a = .ok () ↔ Q a ∧ ∀ e ∈ earlier, key e ≠ key a)
    {earlier l : List α} :
    checkAll earlier l = .ok () ↔
      (∀ a ∈ l, Q a) ∧ (∀ a ∈ l, ∀ e ∈ earlier, key e ≠ key a) ∧ (l.map key).Nodup := by
  induction l generalizing earlier with
  | nil => simp [hnil]
  | cons a rest ih =>
    rw [hcons, check_bind_eq_ok, hcheck, ih, List.map_cons, List.nodup_cons, List.mem_map]
    constructor
    · rintro ⟨⟨ha, hearlier⟩, hrest, hnew, hnodup⟩
      refine ⟨List.forall_mem_cons.2 ⟨ha, hrest⟩,
        List.forall_mem_cons.2 ⟨hearlier, fun x hx e he => hnew x hx e (List.mem_cons_of_mem _ he)⟩,
        ?_, hnodup⟩
      rintro ⟨x, hx, hkey⟩
      exact hnew x hx a List.mem_cons_self hkey.symm
    · rintro ⟨hall, hnew, hfirst, hnodup⟩
      obtain ⟨ha, hrest⟩ := List.forall_mem_cons.1 hall
      obtain ⟨hearlier, hlater⟩ := List.forall_mem_cons.1 hnew
      refine ⟨⟨ha, hearlier⟩, hrest, fun x hx e he => ?_, hnodup⟩
      rcases List.mem_cons.1 he with rfl | he
      · exact fun hkey => hfirst ⟨x, hx, hkey.symm⟩
      · exact hlater x hx e he

/-- Checking each member against those before it tells whether all keys differ. -/
theorem distinct_eq_ok (checkAll : List α → List α → Except Refusal Unit)
    (hnil : ∀ earlier, checkAll earlier [] = .ok ())
    (hcons : ∀ earlier a rest, checkAll earlier (a :: rest) =
      (do check earlier a; checkAll (a :: earlier) rest))
    (hcheck : ∀ earlier a, check earlier a = .ok () ↔ Q a ∧ ∀ e ∈ earlier, key e ≠ key a)
    (l : List α) : checkAll [] l = .ok () ↔ (∀ a ∈ l, Q a) ∧ (l.map key).Nodup := by
  rw [checkAll_eq_ok hnil hcons hcheck]
  exact ⟨fun ⟨hall, _, hnodup⟩ => ⟨hall, hnodup⟩,
    fun ⟨hall, hnodup⟩ => ⟨hall, fun _ _ _ he => absurd he List.not_mem_nil, hnodup⟩⟩

end

theorem validateResource_eq_ok {denom : String} {earlier : List Resource} {r : Resource} :
    validateResource denom earlier r = .ok () ↔
      (r.Valid ∧ r.pricePerHour.denom = denom) ∧ ∀ e ∈ earlier, e.id ≠ r.id := by
  rw [validateResource, check_bind_eq_ok, Refusal.rephrase_eq_ok, check_bind_eq_ok,
    Resource.validate_eq_ok, Coin.expectDenom_eq_ok, require_eq_ok]

theorem validateLease_eq_ok {denom : String} {resources : List Resource} {earlier : List Lease}
    {l : Lease} :
    validateLease denom resources earlier l = .ok () ↔
      ((l.Valid ∧ l.pricePerHour.denom = denom) ∧
        ∃ r, resources.find? (fun r => r.id = l.resourceId) = some r ∧ l.owner = r.owner) ∧
      ∀ e ∈ earlier, e.resourceId ≠ l.resourceId := by
  rw [validateLease, check_bind_eq_ok, Refusal.rephrase_eq_ok, check_bind_eq_ok,
    Lease.validate_eq_ok, Coin.expectDenom_eq_ok]
  cases resources.find? (fun r => r.id = l.resourceId) with
  | none =>
    simp only [reduceCtorEq, false_and, exists_false, and_false, iff_false]
    rintro ⟨-, h⟩
    cases h
  | some r =>
    simp only [Option.some.injEq, exists_eq_left']
    rw [check_bind_eq_ok, require_eq_ok, require_eq_ok, and_assoc, and_assoc, and_assoc]

theorem validateFlag_eq_ok {leases : List Lease} {r : Resource} :
    validateFlag leases r = .ok () ↔ (r.leased = true ↔ ∃ l ∈ leases, l.resourceId = r.id) := by
  rw [validateFlag, require_eq_ok, Bool.eq_iff_iff, List.any_eq_true]
  simp only [decide_eq_true_eq]

theorem validate_eq_ok {g : Genesis} : g.validate = .ok () ↔ g.Valid := by
  have hresources := distinct_eq_ok (validateResources g.params.denom) (fun _ => rfl)
    (fun _ _ _ => rfl) (fun _ _ => validateResource_eq_ok) g.resources
  have hleases := distinct_eq_ok (validateLeases g.params.denom g.resources) (fun _ => rfl)
    (fun _ _ _ => rfl) (fun _ _ => validateLease_eq_ok) g.leases
  rw [validate, check_bind_eq_ok, check_bind_eq_ok, check_bind_eq_ok, check_bind_eq_ok,
    Fault.rephrase_eq_ok, liftM_eq_ok, liftM_eq_ok, liftM_eq_ok, liftM_eq_ok, require_eq_ok,
    Params.validate_eq_ok, hresources, hleases, requireAll_eq_ok]
  simp only [validateFlag_eq_ok]
  constructor
  · rintro ⟨hparams, hnext, ⟨hresource, hnodup⟩, ⟨hlease, hnodup'⟩, hflag⟩
    exact ⟨hparams, hnext, hresource, hnodup, hlease, hnodup', hflag⟩
  · intro h
    exact ⟨h.params, h.nextId_ne, ⟨h.resource, h.resources_nodup⟩, ⟨h.lease, h.leases_nodup⟩,
      h.flag⟩

end LeaseEscrow.Genesis
