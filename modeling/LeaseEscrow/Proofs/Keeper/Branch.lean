import LeaseEscrow.Proofs.Keeper.Built
import LeaseEscrow.Proofs.Keeper.Contents

/-!
# Branches and what runs in them

A branch that fails undoes what its action did by replaying notes; `copying` is the branch that
puts back a copy of the whole keeper instead. The two match, whatever runs in them, and so a
handler that fails goes back to the contents before it (`equiv_of_handle_error`).
-/

namespace LeaseEscrow

namespace Keeper

variable {α : Type}

/-- Runs an action as a transaction on a copy: if it fails, the copy is put back. -/
def copying (action : Action Bank α) : Action Bank α :=
  ExceptT.mk fun k =>
    match k.run action with
    | (.ok a, after) => (.ok a, after)
    | (.error fault, _) => (.error fault, k)

theorem run_copying (k : Keeper Bank) (action : Action Bank α) :
    k.run (copying action) =
      match k.run action with
      | (.ok a, after) => (.ok a, after)
      | (.error fault, _) => (.error fault, k) := rfl

/-! ## Entering and leaving a branch -/

theorem enter_equiv (k : Keeper Bank) : k.enter ≈ k := ⟨rfl, rfl, rfl, rfl⟩

theorem keep_equiv (k : Keeper Bank) : k.keep ≈ k :=
  ⟨Journaled.current_commit _, Journaled.current_commit _, rfl, rfl⟩

theorem Contained.keep {k after : Keeper Bank} (h : Contained k.enter after) :
    Contained k after.keep where
  store := by
    show after.registry.store.commit.snapshots = _
    rw [Journaled.snapshots_commit, h.store]
    rfl
  ledger := by
    show Journaled.snapshots (Journaled.commit after.ledger) = _
    rw [Journaled.snapshots_commit, h.ledger]
    rfl
  config := h.config
  events := h.events

/-- Undoing what a contained action did gives back the contents from before it. -/
theorem Contained.undo_equiv {k after : Keeper Bank} (h : Contained k.enter after) :
    after.undo k.events.length ≈ k where
  registry := by
    show after.registry.store.revert.current = _
    rw [Journaled.current_revert, h.store]
    rfl
  book := by
    show Journaled.current (Journaled.revert after.ledger) = _
    rw [Journaled.current_revert, h.ledger]
    rfl
  config := h.config
  events := (List.prefix_iff_eq_take.1 h.events).symm

theorem Contained.undo {k after : Keeper Bank} (h : Contained k.enter after) :
    Contained k (after.undo k.events.length) where
  store := by
    show after.registry.store.revert.snapshots = _
    rw [Journaled.snapshots_revert, h.store]
    rfl
  ledger := by
    show Journaled.snapshots (Journaled.revert after.ledger) = _
    rw [Journaled.snapshots_revert, h.ledger]
    rfl
  config := h.config
  events := h.undo_equiv.events.symm ▸ List.prefix_refl _

theorem contained_branch {a : Action Bank α} (h : ∀ k, Contained k (k.run a).2) (k : Keeper Bank) :
    Contained k (k.run (branch a)).2 := by
  have henter := h k.enter
  rw [run_branch]
  generalize k.enter.run a = p at henter
  rcases p with ⟨_ | x, after⟩
  · exact henter.undo
  · exact henter.keep

theorem contained_copying {a : Action Bank α} (h : ∀ k, Contained k (k.run a).2) (k : Keeper Bank) :
    Contained k (k.run (copying a)).2 := by
  have hk := h k
  rw [run_copying]
  generalize k.run a = p at hk
  rcases p with ⟨_ | x, after⟩
  · exact .refl k
  · exact hk

/-- A journaled branch and one on a copy cannot be told apart. -/
theorem Matches.branch_copying {a a' : Action Bank α} (h : Matches a a') :
    Matches (branch a) (copying a') where
  agree {k k'} hk := by
    obtain ⟨hresult, hafter⟩ := h.agree ((enter_equiv k).trans hk)
    have henter := h.contained k.enter
    rw [run_branch, run_copying]
    generalize k.enter.run a = p at hresult hafter henter
    generalize k'.run a' = p' at hresult hafter
    obtain ⟨result, after⟩ := p
    obtain ⟨result', after'⟩ := p'
    -- When it fails, the one goes back to the contents of `k`, the other to `k'` itself.
    obtain rfl : result = result' := hresult
    cases result with
    | error fault => exact ⟨rfl, henter.undo_equiv.trans hk⟩
    | ok x => exact ⟨rfl, (keep_equiv after).trans hafter⟩
  contained := contained_branch h.contained
  contained' := contained_copying h.contained'

theorem Matches.branch {a : Action Bank α} (h : Tame a) : Tame (branch a) := by
  refine .of_agree (fun {k k'} hk => ?_) (contained_branch h.contained)
  have hleft := h.branch_copying.agree hk
  have hright := h.branch_copying.agree (SameContents.refl k')
  exact ⟨hleft.1.trans hright.1.symm, hleft.2.trans hright.2.symm⟩

/-! ## What actions do depends on the contents alone -/

theorem tame_allocateId : Tame allocateId := by
  have hid : ∀ {r r' : Registry}, r ≈ r' → r.firstFree? r.nextId = r'.firstFree? r'.nextId := by
    intro r r' h
    rw [Registry.nextId_congr h, Registry.firstFree?_congr (Registry.hasResource_congr h)]
  refine .of_agree (fun {k k'} h => ?_) fun k => ?_
  · rw [run_allocateId, run_allocateId, hid h.registry]
    cases k'.registry.firstFree? k'.registry.nextId with
    | none => exact ⟨rfl, h⟩
    | some n =>
      refine ⟨rfl, ?_, h.book, h.config, h.events⟩
      show (k.registry.set _ _).records = (k'.registry.set _ _).records
      rw [Registry.records_set, Registry.records_set, Registry.equiv_def.1 h.registry]
  · rw [run_allocateId]
    cases k.registry.firstFree? k.registry.nextId with
    | none => exact .refl k
    | some n => exact ⟨Registry.snapshots_set .., rfl, rfl, List.prefix_refl _⟩

theorem Built.tame {a : Action Bank α} (ha : Built a) : Tame a := by
  induction ha with
  | pure x => exact .pure x
  | lift x => exact .lift x
  | lift_refusal x => exact .lift_refusal x
  | configNow => exact .configNow
  | allocateId => exact tame_allocateId
  | read hf => exact .read hf.reads
  | change hf => exact .change hf.writes
  | send source target amount => exact .send source target amount
  | emit b kind id detail => exact .emit b kind id detail
  | bind _ _ ha hf => exact .bind ha hf
  | branch _ ha => exact .branch ha
  | attempt _ ha => exact .attempt ha

variable (b : Block)

theorem tame_settleLease (id : ResourceId) : Tame (settleLease b id) := (built_settleLease b id).tame

theorem tame_releaseDeposits (id : ResourceId) : Tame (releaseDeposits b id) :=
  (built_releaseDeposits b id).tame

theorem tame_perform (m : Request α) : Tame (m.perform b : Action Bank α) := (built_perform b m).tame

theorem tame_handle (m : Request α) : Tame (m.handle b : Action Bank α) := (built_handle b m).tame

/-- What an action does when it succeeds it does in a branch too. -/
theorem branch_of_ok {k k' : Keeper Bank} {a : Action Bank α} {x : α} (ha : Tame a)
    (h : k.run a = (.ok x, k')) :
    (k.run (branch a)).1 = .ok x ∧ (k.run (branch a)).2 ≈ k' := by
  obtain ⟨hresult, hafter⟩ := ha.agree (enter_equiv k)
  rw [h] at hresult hafter
  have hentered := run_of_fst hresult
  have hrun := run_branch_eq_ok.2 ⟨_, hentered, rfl⟩
  rw [hrun]
  exact ⟨rfl, (keep_equiv _).trans hafter⟩

/-- A branch that fails goes back to the contents before it. -/
theorem equiv_of_branch_error {k : Keeper Bank} {a : Action Bank α} {e : Fault} (ha : Tame a)
    (h : (k.run (branch a)).1 = .error e) : (k.run (branch a)).2 ≈ k := by
  have henter := ha.contained k.enter
  rw [run_branch] at h ⊢
  generalize k.enter.run a = p at h henter
  rcases p with ⟨_ | x, after⟩
  · exact henter.undo_equiv
  · cases h

/-- A handler that fails goes back to the contents before it. -/
theorem equiv_of_handle_error {k : Keeper Bank} {m : Request α} {e : Fault}
    (h : (k.run (m.handle b)).1 = .error e) : (k.run (m.handle b)).2 ≈ k := by
  rw [Request.handle_eq, run_bind, run_liftM] at h ⊢
  cases hcheck : m.check with
  | error _ => exact .refl k
  | ok _ =>
    rw [hcheck] at h
    exact equiv_of_branch_error (tame_perform b m) h

end Keeper

end LeaseEscrow
