import LeaseEscrow.Message
import LeaseEscrow.Proofs.Decimal.Places
import LeaseEscrow.Proofs.Genesis
import LeaseEscrow.Proofs.Outcome

/-!
# Causes of refusal

What the checks of messages, parameters and genesis states are refused for, whatever is put into
them. Each has its few causes (`RefusedIn`). Only the check of parameters computes with what it has
not bounded yet: it adds the shares of the distribution, and leaves its range when they have no sum
(`Params.Unsummable`).
-/

namespace LeaseEscrow

variable {α β : Type} {C D : Set Refusal} {P Q : Prop}

/-! ## Refusals -/

/-- A refusal has one of these causes. -/
def RefusedIn (C : Set Refusal) (x : Except Refusal α) : Prop := ∀ e, x = .error e → e ∈ C

namespace RefusedIn

theorem ok (a : α) : RefusedIn C (.ok a) := nofun

theorem mono {x : Except Refusal α} (h : RefusedIn C x) (hle : C ⊆ D) : RefusedIn D x :=
  fun e he => hle (h e he)

theorem require {p : Prop} [Decidable p] {cause : Refusal} (h : cause ∈ C) :
    RefusedIn C (require p cause) := by
  intro e he
  unfold LeaseEscrow.require at he
  split at he
  · cases he
  · cases he
    exact h

theorem bind {x : Except Refusal α} {f : α → Except Refusal β} (hx : RefusedIn C x)
    (hf : ∀ a, x = .ok a → RefusedIn C (f a)) : RefusedIn C (x >>= f) := by
  cases x with
  | ok a => exact hf a rfl
  | error e =>
    rintro _ ⟨⟩
    exact hx e rfl

theorem rephrase {f : Refusal → Refusal} (hf : ∀ e, f e ∈ C) (x : Except Refusal α) :
    RefusedIn C (Refusal.rephrase f x) := by
  cases x with
  | ok a => exact ok a
  | error e =>
    rintro _ ⟨⟩
    exact hf e

theorem requireAll {check : α → Except Refusal Unit} (h : ∀ a, RefusedIn C (check a)) (l : List α) :
    RefusedIn C (requireAll check l) := by
  induction l with
  | nil => exact ok ()
  | cons a rest ih => exact bind (h a) fun _ _ => ih

/-- A field that is absent is not checked. -/
theorem forM {check : α → Except Refusal Unit} (h : ∀ a, RefusedIn C (check a)) (x : Option α) :
    RefusedIn C (x.forM check) := by
  cases x with
  | none => exact ok ()
  | some a => exact h a

end RefusedIn

/-! ## Amounts and records -/

namespace Coin

theorem refusedIn_validate (c : Coin) : RefusedIn (Set.range .invalidAmount) c.validate :=
  .bind (.require ⟨_, rfl⟩) fun _ _ => .bind (.require ⟨_, rfl⟩) fun _ _ => .require ⟨_, rfl⟩

theorem refusedIn_validatePositive (c : Coin) :
    RefusedIn (Set.range .invalidAmount) c.validatePositive :=
  .bind c.refusedIn_validate fun _ _ => .require ⟨_, rfl⟩

theorem refusedIn_expectDenom (c : Coin) (denom : String) :
    RefusedIn (Set.range .invalidAmount) (c.expectDenom denom) := .require ⟨_, rfl⟩

end Coin

theorem refusedIn_checkLength (field value : String) (bound : ℕ) :
    RefusedIn (Set.range .invalidResource) (checkLength field value bound) := .require ⟨_, rfl⟩

theorem refusedIn_validateUrl (url : String) :
    RefusedIn (Set.range .invalidResource) (validateUrl url) :=
  .bind (.require ⟨_, rfl⟩) fun _ _ => .bind (.require ⟨_, rfl⟩) fun _ _ =>
    refusedIn_checkLength _ _ _

theorem NodeInfo.refusedIn_validate (i : NodeInfo) :
    RefusedIn (Set.range .invalidResource) i.validate :=
  .bind (.require ⟨_, rfl⟩) fun _ _ => .bind (refusedIn_checkLength _ _ _) fun _ _ =>
    .bind (refusedIn_checkLength _ _ _) fun _ _ => refusedIn_checkLength _ _ _

theorem Hardware.refusedIn_validate (h : Hardware) :
    RefusedIn (Set.range .invalidResource) h.validate := .require ⟨_, rfl⟩

/-! ## Messages -/

namespace Message

/-- The causes that a message about a resource is refused for. -/
def resourceCauses : Set Refusal := Set.range .invalidResource ∪ Set.range .invalidAmount

/-- The causes that a message about the hours of a lease is refused for. -/
def leaseCauses : Set Refusal :=
  {.invalidLeaseHours 0 1 largestWord} ∪ Set.range .invalidAmount

theorem RegisterResource.refusedIn_validate (m : RegisterResource) :
    RefusedIn resourceCauses m.validate := by
  have hresource : Set.range Refusal.invalidResource ⊆ resourceCauses := Set.subset_union_left
  have hamount : Set.range Refusal.invalidAmount ⊆ resourceCauses := Set.subset_union_right
  refine .bind ((refusedIn_validateUrl _).mono hresource) fun _ _ => ?_
  refine .bind (m.info.refusedIn_validate.mono hresource) fun _ _ => ?_
  refine .bind (m.hardware.refusedIn_validate.mono hresource) fun _ _ => ?_
  refine .bind (m.pricePerHour.refusedIn_validatePositive.mono hamount) fun _ _ => ?_
  refine .bind (m.deposit.refusedIn_validatePositive.mono hamount) fun _ _ => ?_
  exact (m.deposit.refusedIn_expectDenom _).mono hamount

theorem UpdateResource.refusedIn_validate (m : UpdateResource) :
    RefusedIn resourceCauses m.validate := by
  have hresource : Set.range Refusal.invalidResource ⊆ resourceCauses := Set.subset_union_left
  refine .bind (.require (.inl ⟨_, rfl⟩)) fun _ _ => ?_
  refine .bind (.forM (fun url => (refusedIn_validateUrl url).mono hresource) _) fun _ _ => ?_
  refine .bind (.forM (fun info => info.refusedIn_validate.mono hresource) _) fun _ _ => ?_
  refine .bind (.forM (fun h => h.refusedIn_validate.mono hresource) _) fun _ _ => ?_
  exact .forM (fun c => c.refusedIn_validatePositive.mono Set.subset_union_right) _

theorem refusedIn_validateHours (hours : UInt64) : RefusedIn leaseCauses (validateHours hours) := by
  by_cases h : hours = 0
  · subst h
    exact .require (.inl rfl)
  · rw [validateHours, LeaseEscrow.require, if_pos h]
    exact .ok ()

theorem TakeLease.refusedIn_validate (m : TakeLease) : RefusedIn leaseCauses m.validate :=
  .bind (refusedIn_validateHours _) fun _ _ =>
    m.amount.refusedIn_validatePositive.mono Set.subset_union_right

theorem ExtendLease.refusedIn_validate (m : ExtendLease) : RefusedIn leaseCauses m.validate :=
  .bind (refusedIn_validateHours _) fun _ _ =>
    m.amount.refusedIn_validatePositive.mono Set.subset_union_right

end Message

/-! ## Computations that may leave their range -/

/-- A refusal has one of these causes, and the computation leaves its range just when `P` holds. -/
structure Checked (C : Set Refusal) (P : Prop) (x : Except Fault α) : Prop where
  refused : ∀ e, x = .error (.refused e) → e ∈ C
  outOfRange : x = .error .outOfRange ↔ P

namespace Checked

theorem congr {x : Except Fault α} (h : Checked C P x) (hP : P ↔ Q) : Checked C Q x where
  refused := h.refused
  outOfRange := h.outOfRange.trans hP

theorem mono {x : Except Fault α} (h : Checked C P x) (hle : C ⊆ D) : Checked D P x where
  refused e he := hle (h.refused e he)
  outOfRange := h.outOfRange

theorem refusal {x : Except Refusal α} (h : RefusedIn C x) :
    Checked C False (liftM x : Except Fault α) where
  refused e he := by
    cases x with
    | ok a => cases he
    | error e' =>
      cases he
      exact h e rfl
  outOfRange := iff_false_intro (answered_refusal x)

theorem inRange (x : Option α) : Checked C (x = none) (Fault.inRange x) := by
  cases x with
  | none => exact ⟨nofun, iff_of_true rfl rfl⟩
  | some a => exact ⟨nofun, iff_of_false nofun nofun⟩

/-- What comes after the last computation stays in range. -/
theorem bind {x : Except Fault α} {f : α → Except Fault β} (hx : Checked C P x)
    (hf : ∀ a, Checked C False (f a)) : Checked C P (x >>= f) := by
  obtain ⟨hrefused, hrange⟩ := hx
  cases x with
  | ok a =>
    refine ⟨(hf a).refused, iff_of_false (hf a).outOfRange.1 fun hP => ?_⟩
    cases hrange.2 hP
  | error e =>
    refine ⟨?_, ?_⟩
    · rintro _ ⟨⟩
      exact hrefused _ rfl
    · rw [← hrange]
      exact ⟨fun h => congrArg Except.error (Except.error.inj h),
        fun h => congrArg Except.error (Except.error.inj h)⟩

/-- What comes after a result leaves its range just when it does so for this result. -/
theorem refusal_bind {x : Except Refusal α} {f : α → Except Fault β} {P : α → Prop}
    (hx : RefusedIn C x) (hf : ∀ a, Checked C (P a) (f a)) :
    Checked C (∃ a, x = .ok a ∧ P a) (liftM x >>= f) := by
  cases x with
  | ok a => exact (hf a).congr ⟨fun h => ⟨a, rfl, h⟩, by rintro ⟨_, ⟨⟩, h⟩; exact h⟩
  | error e =>
    refine ⟨?_, iff_of_false nofun (by rintro ⟨_, ⟨⟩, _⟩)⟩
    rintro _ ⟨⟩
    exact hx e rfl

/-- A check comes before the computation. -/
theorem check_bind {x : Except Refusal Unit} {f : Unit → Except Fault β} (hx : RefusedIn C x)
    (hf : Checked C P (f ())) : Checked C (x = .ok () ∧ P) (liftM x >>= f) :=
  (refusal_bind (P := fun _ => P) hx fun _ => hf).congr
    ⟨fun ⟨_, h⟩ => h, fun h => ⟨(), h⟩⟩

theorem rephrase {f : Refusal → Refusal} {x : Except Fault α} (hf : ∀ e, f e ∈ D)
    (hx : Checked C P x) : Checked D P (Fault.rephrase f x) := by
  obtain ⟨-, hrange⟩ := hx
  rcases x with (cause | _) | a
  · refine ⟨?_, iff_of_false nofun fun hP => ?_⟩
    · rintro _ ⟨⟩
      exact hf cause
    · cases hrange.2 hP
  · exact ⟨nofun, iff_of_true rfl (hrange.1 rfl)⟩
  · refine ⟨nofun, iff_of_false nofun fun hP => ?_⟩
    cases hrange.2 hP

end Checked

/-! ## Parameters -/

namespace Params

variable {p : Params}

/-- All that is checked of parameters before the shares of their distribution are added. -/
structure Bounded (p : Params) : Prop where
  minHours : p.minLeaseHours ≠ 0
  hours_le : p.minLeaseHours ≤ p.maxLeaseHours
  minDeposit : p.minDeposit.Valid
  minDeposit_pos : 0 < p.minDeposit.value
  share_pos : 0 < p.initialDepositShare.value
  share_le : p.initialDepositShare.value ≤ 1
  commission_nonneg : 0 ≤ p.leaseCommission.value
  commission_lt : p.leaseCommission.value < 1
  feeCollector_nonneg : 0 ≤ p.distribution.feeCollector.value
  communityPool_nonneg : 0 ≤ p.distribution.communityPool.value

/-- The shares are added, and their sum is beyond all decimals. -/
structure Unsummable (p : Params) : Prop where
  bounded : p.Bounded
  capacity_le :
    (Decimal.capacity : ℚ) ≤ p.distribution.feeCollector.value + p.distribution.communityPool.value + 1 / 2

theorem checked_validate (p : Params) : Checked (Set.range .invalidParams) p.Unsummable p.validate := by
  have hcause : ∀ reason, Refusal.invalidParams reason ∈ Set.range Refusal.invalidParams :=
    fun reason => ⟨reason, rfl⟩
  refine Checked.congr (.check_bind (.require (hcause _)) <| .check_bind (.require (hcause _)) <|
    .check_bind (.rephrase (fun _ => hcause _) _) <| .check_bind (.require (hcause _)) <|
    .check_bind (.require (hcause _)) <| .check_bind (.require (hcause _)) <|
    .bind (.inRange _) fun total => .bind (.refusal (.require (hcause _))) fun _ =>
      .refusal (.require (hcause _))) ?_
  rw [require_eq_ok, require_eq_ok, Refusal.rephrase_eq_ok, require_eq_ok, require_eq_ok,
    require_eq_ok, Coin.validatePositive_eq_ok, Decimal.lt_iff_value, Decimal.le_iff_value,
    Decimal.le_iff_value, Decimal.lt_iff_value, Decimal.le_iff_value, Decimal.le_iff_value,
    Decimal.value_zero, Decimal.value_one, Option.eq_none_iff_forall_ne_some, ← not_exists]
  constructor
  · rintro ⟨hmin, hle, ⟨hdeposit, hpos⟩, ⟨hshare, hshare'⟩, ⟨hcommission, hcommission'⟩,
      ⟨hfee, hpool⟩, hsum⟩
    rw [Decimal.exists_add?_iff hfee hpool, not_lt] at hsum
    exact ⟨⟨hmin, hle, hdeposit, hpos, hshare, hshare', hcommission, hcommission', hfee, hpool⟩,
      hsum⟩
  · rintro ⟨h, hsum⟩
    rw [Decimal.exists_add?_iff h.feeCollector_nonneg h.communityPool_nonneg, not_lt]
    exact ⟨h.minHours, h.hours_le, ⟨h.minDeposit, h.minDeposit_pos⟩, ⟨h.share_pos, h.share_le⟩,
      ⟨h.commission_nonneg, h.commission_lt⟩, ⟨h.feeCollector_nonneg, h.communityPool_nonneg⟩, hsum⟩

end Params

/-! ## Genesis states -/

namespace Genesis

theorem invalid_mem (reason : String) : invalid reason ∈ Set.range Refusal.invalidGenesis :=
  ⟨reason, rfl⟩

theorem refusedIn_validateResources (denom : String) (earlier rest : List Resource) :
    RefusedIn (Set.range .invalidGenesis) (validateResources denom earlier rest) := by
  induction rest generalizing earlier with
  | nil => exact .ok ()
  | cons r rest ih =>
    refine .bind (.bind (.rephrase (fun _ => invalid_mem _) _) fun _ _ => ?_) fun _ _ => ih _
    exact .require (invalid_mem _)

theorem refusedIn_validateLeases (denom : String) (resources : List Resource)
    (earlier rest : List Lease) :
    RefusedIn (Set.range .invalidGenesis) (validateLeases denom resources earlier rest) := by
  induction rest generalizing earlier with
  | nil => exact .ok ()
  | cons l rest ih =>
    refine .bind (.bind (.rephrase (fun _ => invalid_mem _) _) fun _ _ => ?_) fun _ _ => ih _
    split
    · rintro _ ⟨⟩
      exact invalid_mem _
    · exact .bind (.require (invalid_mem _)) fun _ _ => .require (invalid_mem _)

theorem checked_validate (g : Genesis) :
    Checked (Set.range .invalidGenesis) g.params.Unsummable g.validate :=
  .bind (.rephrase (fun _ => invalid_mem _) g.params.checked_validate) fun _ =>
    .bind (.refusal (.require (invalid_mem _))) fun _ =>
      .bind (.refusal (refusedIn_validateResources _ _ _)) fun _ =>
        .bind (.refusal (refusedIn_validateLeases _ _ _ _)) fun _ =>
          .refusal (.requireAll (fun _ => .require (invalid_mem _)) _)

end Genesis

end LeaseEscrow
