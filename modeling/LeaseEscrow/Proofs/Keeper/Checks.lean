import LeaseEscrow.Proofs.Codec.Genesis
import LeaseEscrow.Proofs.Keeper.Sound
import LeaseEscrow.Proofs.Refusals
import LeaseEscrow.Proofs.Registry.Import
import LeaseEscrow.Proofs.Sample

/-!
# Checks of what comes from outside

A message, a set of parameters, a genesis state or the document of one can hold anything. Whatever it
holds, it is accepted or refused for one of its causes, with one exception: the shares of a
distribution are added before they are known to be small, and when their sum is beyond all decimals,
there is no answer (`checks_answer_unless_unsummable`). Anyone can ask for such parameters, as they are
checked before the authority is.
-/

namespace LeaseEscrow

namespace Request

variable {α : Type}

/-- What the request is refused for before any state is looked at. -/
def causes : Request α → Set Refusal
  | .register _ => Message.resourceCauses
  | .update _ => Message.resourceCauses
  | .deposit _ => Set.range .invalidAmount
  | .lease _ => Message.leaseCauses
  | .extend _ => Message.leaseCauses
  | .cancel _ => ∅
  | .close _ => ∅
  | .setParams _ => Set.range .invalidParams

/-- The request is for parameters whose shares have no sum. -/
def Unsummable : Request α → Prop
  | .setParams m => m.params.Unsummable
  | _ => False

theorem checked_check (m : Request α) : Checked m.causes m.Unsummable m.check := by
  cases m with
  | register m => exact .refusal m.refusedIn_validate
  | update m => exact .refusal m.refusedIn_validate
  | deposit m => exact .refusal m.amount.refusedIn_validatePositive
  | lease m => exact .refusal m.refusedIn_validate
  | extend m => exact .refusal m.refusedIn_validate
  | cancel m => exact .refusal (.ok ())
  | close m => exact .refusal (.ok ())
  | setParams m => exact m.params.checked_validate

end Request

namespace Keeper

variable {L α β : Type} {k : Keeper L} {C : Set Refusal} {P : Prop}

/-! ## Results of runs -/

theorem result_lift_bind (k : Keeper L) (x : Except Fault α) (f : α → Action L β) :
    (k.run (liftM x >>= f)).1 = x >>= fun a => (k.run (f a)).1 := by
  rw [run_bind, run_liftM]
  cases x <;> rfl

theorem result_refusal_bind (k : Keeper L) (x : Except Refusal α) (f : α → Action L β) :
    (k.run (liftM x >>= f)).1 = (liftM x : Except Fault α) >>= fun a => (k.run (f a)).1 := by
  rw [run_bind, run_liftM_refusal]
  cases x <;> rfl

theorem checked_refusal_bind {x : Except Refusal α} {f : α → Action L β} (hx : RefusedIn C x)
    (hf : ∀ a, Checked C False (k.run (f a)).1) : Checked C False (k.run (liftM x >>= f)).1 := by
  rw [result_refusal_bind]
  exact .bind (.refusal hx) hf

theorem result_branch [Ledger L] (k : Keeper L) (a : Action L α) :
    (k.run (branch a)).1 = (k.enter.run a).1 := by
  rw [run_branch]
  rcases k.enter.run a with ⟨_ | _, _⟩ <;> rfl

/-! ## Parameters -/

/-- What reading the parameters, or all resources, is refused for. -/
def unreadable (k : Keeper L) : Set Refusal :=
  { e | k.registry.params = .error e ∨ k.registry.resources = .error e }

/-- What an update of the parameters is refused for. -/
def updateCauses (k : Keeper L) : Set Refusal :=
  Set.range .invalidParams ∪ Set.range .unauthorized ∪ k.unreadable

theorem checked_performParamsUpdate (k : Keeper L) (b : Block) (m : Message.UpdateParams) :
    Checked k.updateCauses False (k.run (performParamsUpdate b m)).1 := by
  have htail : Checked k.updateCauses False (k.run (do
      change fun r => return r.setParams m.params
      emit b .paramsUpdated none .params)).1 := .refusal (.ok ())
  refine checked_refusal_bind (.require (.inl (.inr ⟨_, rfl⟩))) fun _ => ?_
  refine checked_refusal_bind (fun e he => .inr (.inl he)) fun old => ?_
  dsimp only
  -- Resources are read only when the denomination would change.
  split
  · refine checked_refusal_bind (fun e he => .inr (.inr he)) fun resources => ?_
    exact checked_refusal_bind (.require (.inl (.inl ⟨_, rfl⟩))) fun _ => htail
  · exact htail

theorem checked_updateParams [Ledger L] (k : Keeper L) (b : Block) (m : Message.UpdateParams) :
    Checked k.updateCauses m.params.Unsummable (k.run (updateParams b m)).1 := by
  have hcheck := m.params.checked_validate.mono (D := k.updateCauses)
    fun e he => .inl (.inl he)
  rw [updateParams, result_lift_bind]
  refine .bind hcheck fun _ => ?_
  rw [result_branch]
  exact checked_performParamsUpdate k.enter b m

/-- A sound keeper can be read. -/
theorem Sound.unreadable_eq (hk : k.Sound) : k.unreadable = ∅ := by
  obtain ⟨hl, p, hp⟩ := hk
  refine Set.eq_empty_of_forall_notMem fun e he => ?_
  rcases he with he | he
  · rw [Registry.params_eq_ok.2 hp.params_eq] at he
    cases he
  · rw [Registry.resources_eq hl] at he
    cases he

/-! ## Genesis states -/

/-- A state that passes its check is imported, whatever the keeper holds. -/
theorem result_initGenesis (k : Keeper L) (g : Genesis) :
    (k.run (initGenesis g)).1 = g.validate := by
  rw [initGenesis, result_lift_bind]
  cases hvalidate : g.validate with
  | error e => rfl
  | ok _ =>
    have hvalid := Genesis.validate_eq_ok.1 hvalidate
    obtain ⟨r, hr, -⟩ := Registry.exists_ofGenesis hvalid.resources_nodup hvalid.leases_nodup
    show (k.run (liftM (Registry.ofGenesis g) >>= setRegistry)).1 = _
    rw [result_refusal_bind, hr]
    rfl

end Keeper

/-! ## Documents -/

theorem Json.refusedIn_readDocument {α : Type} [Codec α] (text : String) :
    RefusedIn (Set.range .serialization) (readDocument text : Except Refusal α) := by
  intro e he
  unfold readDocument at he
  split at he
  · cases he
  · exact ⟨_, Except.error.inj he⟩

/-- The document of a genesis state, read and checked. -/
theorem Genesis.checked_ofText (text : String) :
    Checked (Set.range .serialization ∪ Set.range .invalidGenesis)
      (∃ g : Genesis, Json.readDocument text = .ok g ∧ g.params.Unsummable) (ofText text) := by
  refine .refusal_bind ((Json.refusedIn_readDocument text).mono Set.subset_union_left) fun g => ?_
  exact .bind (g.checked_validate.mono Set.subset_union_right) fun _ => .refusal (.ok g)

/-! ## All checks -/

/-- Every check accepts what it is given or refuses it for one of its causes, unless it comes to add
shares whose sum is beyond all decimals. That is so for the messages, for parameters and genesis
states, for an update of the parameters by anyone, and for the import of a state, be it a document. -/
theorem checks_answer_unless_unsummable {L : Type} [Ledger L] (k : Keeper L) :
    (∀ {α : Type} (m : Request α), Checked m.causes m.Unsummable m.check) ∧
    (∀ p : Params, Checked (Set.range .invalidParams) p.Unsummable p.validate) ∧
    (∀ g : Genesis, Checked (Set.range .invalidGenesis) g.params.Unsummable g.validate) ∧
    (∀ b m, Checked k.updateCauses m.params.Unsummable (k.run (Keeper.updateParams b m)).1) ∧
    (k.Sound → k.updateCauses = Set.range .invalidParams ∪ Set.range .unauthorized) ∧
    (∀ g, Checked (Set.range .invalidGenesis) g.params.Unsummable
      (k.run (Keeper.initGenesis g)).1) ∧
    (∀ text, Checked (Set.range .serialization ∪ Set.range .invalidGenesis)
      (∃ g : Genesis, Json.readDocument text = .ok g ∧ g.params.Unsummable)
      (Genesis.ofText text)) := by
  refine ⟨fun m => m.checked_check, Params.checked_validate, Genesis.checked_validate,
    k.checked_updateParams, fun hk => ?_, fun g => ?_, Genesis.checked_ofText⟩
  · rw [Keeper.updateCauses, hk.unreadable_eq, Set.union_empty]
  · rw [Keeper.result_initGenesis]
    exact g.checked_validate

namespace Sample

/-- Parameters with the greatest decimal as either share. -/
def unsummable : Params :=
  { Params.default with distribution := ⟨.greatest, .greatest⟩ }

end Sample

/-- There is no answer for shares that have no sum: neither from the check of the message nor from the
keeper, though the sender is not its authority, nor from an import, nor from a document. -/
theorem unsummable_shares_have_no_answer :
    Sample.unsummable.validate = .error .outOfRange ∧
      (Request.setParams ⟨Sample.unsummable, Sample.lessee⟩).check = .error .outOfRange ∧
      Sample.lessee ≠ Sample.keeper.config.authority ∧
      (Sample.keeper.run (Keeper.updateParams (Sample.block 1)
        ⟨Sample.unsummable, Sample.lessee⟩)).1 = .error .outOfRange ∧
      (Sample.keeper.run (Keeper.initGenesis ⟨Sample.unsummable, [], [], 1⟩)).1 =
        .error .outOfRange ∧
      Genesis.ofText (Genesis.toText ⟨Sample.unsummable, [], [], 1⟩) = .error .outOfRange := by
  refine ⟨by decide +kernel, by decide +kernel, by decide, by decide +kernel, by decide +kernel, ?_⟩
  rw [Genesis.ofText, Genesis.readDocument_toText]
  decide +kernel

end LeaseEscrow
