import LeaseEscrow.Proofs.Keeper.Branch
import LeaseEscrow.Proofs.Registry.Alike

/-!
# Keepers that mirror each other

Keepers mirror each other when their registries are alike and all else is the same. An action is
*faithful* when it has the same result on both and leaves them mirroring each other. Whatever is
built from the readings and changes of actions is faithful (`Built.faithful`).
-/

namespace LeaseEscrow.Keeper

variable {α β : Type}

structure Mirror (k k' : Keeper Bank) : Prop where
  registry : k.registry.Alike k'.registry
  ledger : k.ledger = k'.ledger
  config : k.config = k'.config
  events : k.events = k'.events

/-- Keepers that mirror each other answer alike, and do so afterwards. -/
def Faithful (a : Action Bank α) : Prop :=
  ∀ k k' : Keeper Bank, Mirror k k' →
    (k.run a).1 = (k'.run a).1 ∧ Mirror (k.run a).2 (k'.run a).2

namespace Faithful

theorem bind {a : Action Bank α} {f : α → Action Bank β} (ha : Faithful a)
    (hf : ∀ x, Faithful (f x)) : Faithful (a >>= f) := by
  intro k k' h
  obtain ⟨hresult, hafter⟩ := ha _ _ h
  rw [run_bind, run_bind]
  generalize k.run a = p at hresult hafter
  generalize k'.run a = p' at hresult hafter
  obtain ⟨result, after⟩ := p
  obtain ⟨result', after'⟩ := p'
  -- Either both stop here, or both go on as mirrors of each other.
  obtain rfl : result = result' := hresult
  cases result with
  | error e => exact ⟨rfl, hafter⟩
  | ok x => exact hf x _ _ hafter

/-- An action that leaves the keeper as it is. -/
theorem of_run_eq {a : Action Bank α} (f : Keeper Bank → Except Fault α)
    (hrun : ∀ k, k.run a = (f k, k)) (hf : ∀ {k k'}, Mirror k k' → f k = f k') : Faithful a := by
  intro k k' h
  rw [hrun, hrun]
  exact ⟨hf h, h⟩

theorem allocateId : Faithful allocateId := by
  intro k k' h
  rw [run_allocateId, run_allocateId, h.registry.nextId, h.registry.firstFree?]
  cases k'.registry.firstFree? k'.registry.nextId with
  | none => exact ⟨rfl, h⟩
  | some n => exact ⟨rfl, h.registry.setNextId _, h.ledger, h.config, h.events⟩

theorem change {f : Registry → Except Refusal Registry} (hf : Registry.Change f) :
    Faithful (change f) := by
  intro k k' h
  obtain ⟨s, s', hs, hs', halike⟩ := h.registry.change hf
  rw [run_change, run_change, hs, hs']
  exact ⟨rfl, halike, h.ledger, h.config, h.events⟩

theorem onLedger (f : Bank → Except Fault Bank) : Faithful (onLedger f) := by
  intro k k' h
  rw [run_onLedger, run_onLedger, h.ledger]
  cases f k'.ledger with
  | error e => exact ⟨rfl, h⟩
  | ok ledger => exact ⟨rfl, h.registry, rfl, h.config, h.events⟩

theorem send (source target : Account) (amount : Coin) : Faithful (send source target amount) := by
  unfold Keeper.send
  split
  · exact of_run_eq (fun _ => .ok ()) (fun _ => rfl) fun _ => rfl
  · exact onLedger (Bank.transfer · source target amount)

theorem emit (b : Block) (kind : EventKind) (id : Option ResourceId) (detail : EventDetail) :
    Faithful (emit b kind id detail) := by
  intro k k' h
  rw [run_emit, run_emit]
  exact ⟨rfl, h.registry, h.ledger, h.config, by rw [h.events]⟩

theorem attempt {a : Action Bank α} (ha : Faithful a) : Faithful (attempt a) := by
  intro k k' h
  obtain ⟨hresult, hafter⟩ := ha _ _ h
  rw [run_attempt, run_attempt, hresult]
  exact ⟨rfl, hafter⟩

end Faithful

/-! ## Branches -/

theorem Mirror.enter {k k' : Keeper Bank} (h : Mirror k k') : Mirror k.enter k'.enter where
  registry := h.registry.congr (enter_equiv k).registry (enter_equiv k').registry
  ledger := congrArg Journaled.checkpoint h.ledger
  config := h.config
  events := h.events

theorem Mirror.keep {k k' : Keeper Bank} (h : Mirror k k') : Mirror k.keep k'.keep where
  registry := h.registry.congr (keep_equiv k).registry (keep_equiv k').registry
  ledger := congrArg Journaled.commit h.ledger
  config := h.config
  events := h.events

/-- What a branch undoes goes back to keepers that mirrored each other. -/
theorem Mirror.undo {k k' after after' : Keeper Bank} (h : Mirror k k') (hafter : Mirror after after')
    (hk : Contained k.enter after) (hk' : Contained k'.enter after') :
    Mirror (after.undo k.events.length) (after'.undo k'.events.length) where
  registry := h.registry.congr hk.undo_equiv.registry hk'.undo_equiv.registry
  ledger := congrArg Journaled.revert hafter.ledger
  config := hafter.config
  events := by
    show after.events.take _ = after'.events.take _
    rw [hafter.events, h.events]

theorem Faithful.branch {a : Action Bank α} (htame : Tame a) (ha : Faithful a) :
    Faithful (branch a) := by
  intro k k' h
  obtain ⟨hresult, hafter⟩ := ha _ _ h.enter
  have hk := htame.contained k.enter
  have hk' := htame.contained k'.enter
  rw [run_branch, run_branch]
  generalize k.enter.run a = p at hresult hafter hk
  generalize k'.enter.run a = p' at hresult hafter hk'
  obtain ⟨result, after⟩ := p
  obtain ⟨result', after'⟩ := p'
  obtain rfl : result = result' := hresult
  cases result with
  | error fault => exact ⟨rfl, h.undo hafter hk hk'⟩
  | ok x => exact ⟨rfl, hafter.keep⟩

/-! ## All actions -/

theorem Built.faithful {a : Action Bank α} (ha : Built a) : Faithful a := by
  induction ha with
  | pure x => exact .of_run_eq (fun _ => .ok x) (fun _ => rfl) fun _ => rfl
  | lift x => exact .of_run_eq (fun _ => x) (fun k => run_liftM k x) fun _ => rfl
  | lift_refusal x =>
    exact .of_run_eq (fun _ => liftM x) (fun k => run_liftM_refusal k x) fun _ => rfl
  | configNow =>
    exact .of_run_eq (fun k => .ok k.config) run_configNow fun h => congrArg Except.ok h.config
  | allocateId => exact .allocateId
  | read hf =>
    exact .of_run_eq _ (fun k => run_read k _) fun h => congrArg liftM (h.registry.reading hf)
  | change hf => exact .change hf
  | send source target amount => exact .send source target amount
  | emit b kind id detail => exact .emit b kind id detail
  | bind _ _ ha hf => exact .bind ha hf
  | branch ha hfaithful => exact .branch ha.tame hfaithful
  | attempt _ ha => exact .attempt ha

end LeaseEscrow.Keeper
