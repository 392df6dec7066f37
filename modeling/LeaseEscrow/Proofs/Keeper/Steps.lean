import LeaseEscrow.Proofs.Keeper.Branch
import LeaseEscrow.Proofs.Keeper.Kept

/-!
# Runs of a host

A host sends requests, settles blocks and single leases, and moves coins, in any order. A property
of the contents that successful requests, settlements and releases keep is kept by every step,
whether it succeeds or fails, and so it holds after every run (`invariant_after`).
-/

namespace LeaseEscrow

inductive Step : Type 1 where
  | request {α : Type} (b : Block) (m : Request α)
  | beginBlock (e : Engine) (b : Block)
  | settle (b : Block) (id : ResourceId)
  | mint (account : Account) (coin : Coin)
  | burn (account : Account) (coin : Coin)
  | transfer (source target : Account) (coin : Coin)

namespace Keeper

variable {α : Type}

/-- The keeper after a step, whatever came of it. -/
def next (k : Keeper Bank) : Step → Keeper Bank
  | .request b m => (k.run (m.handle b)).2
  | .beginBlock e b => (k.run (e.beginBlock b)).2
  | .settle b id => (k.run (branch (settleLease b id))).2
  | .mint account coin => (k.run (onLedger fun ledger => ledger.mint account coin)).2
  | .burn account coin => (k.run (onLedger fun ledger => ledger.burn account coin)).2
  | .transfer source target coin =>
    (k.run (onLedger fun ledger => ledger.transfer source target coin)).2

/-- The keeper after a run. -/
def after (k : Keeper Bank) (steps : List Step) : Keeper Bank := steps.foldl next k

/-! ## Properties of the contents -/

/-- A property that sees neither the checkpoints nor the events. -/
structure OfContents (P : Keeper Bank → Prop) : Prop where
  congr : ∀ {k k'}, k ≈ k' → P k → P k'
  events : ∀ {k} (events : List Event), P k → P { k with events }

variable {P : Keeper Bank → Prop}

theorem OfContents.recoverable (hP : OfContents P) : Recoverable P :=
  .of_failed (fun _ _ _ _ => hP.events _) (fun k => hP.congr (enter_equiv k).symm)
    (fun k => hP.congr (keep_equiv k).symm)
    fun ha hresult => hP.congr (equiv_of_branch_error ha.tame hresult).symm

theorem OfRecords.ofContents (hP : OfRecords P) : OfContents P where
  congr {k k'} h hk := hP k k' h.registry.symm hk
  events {k} _ hk := hP k _ rfl hk

theorem Keeps.onLedger {f : Bank → Except Fault Bank}
    (hf : ∀ k ledger, P k → f k.ledger = .ok ledger → P { k with ledger }) :
    Keeps P (onLedger f) := by
  intro k hk
  rw [run_onLedger]
  cases hresult : f k.ledger with
  | error e => exact hk
  | ok ledger => exact hf k ledger hk hresult

/-! ## Configuration -/

theorem ofContents_config (c : Config) : OfContents fun k => k.config = c where
  congr h hk := h.config ▸ hk
  events _ hk := hk

theorem keepsOk_config {a : Action Bank α} (ha : Tame a) (c : Config) :
    KeepsOk (fun k => k.config = c) a := by
  intro k x k' hk h
  have hsame := (ha.contained k).config
  rw [h] at hsame
  exact hsame.trans hk

theorem config_next (k : Keeper Bank) (s : Step) : (k.next s).config = k.config := by
  have hP := (ofContents_config k.config).recoverable
  have hledger : ∀ f, Keeps (fun k' => k'.config = k.config) (Keeper.onLedger f) := fun _ =>
    .onLedger fun _ _ hk _ => hk
  cases s with
  | request b m =>
    exact hP.handle b (fun _ => keepsOk_config (tame_perform b m) _) k rfl
  | beginBlock e b =>
    exact hP.beginBlock e b (fun id => keepsOk_config (tame_settleLease b id) _)
      (fun id => keepsOk_config (tame_releaseDeposits b id) _) k rfl
  | settle b id =>
    exact hP.branch (built_settleLease b id) (keepsOk_config (tame_settleLease b id) _) k rfl
  | mint account coin => exact hledger _ k rfl
  | burn account coin => exact hledger _ k rfl
  | transfer source target coin => exact hledger _ k rfl

theorem config_after (k : Keeper Bank) (steps : List Step) : (k.after steps).config = k.config := by
  induction steps generalizing k with
  | nil => rfl
  | cons s steps ih => exact (ih (k.next s)).trans (config_next k s)

/-! ## Runs -/

/-- What every step keeps holds after every run. -/
theorem invariant_after {k : Keeper Bank} {steps : List Step} (hk : P k)
    (hstep : ∀ s ∈ steps, ∀ k, P k → P (k.next s)) : P (k.after steps) := by
  induction steps generalizing k with
  | nil => exact hk
  | cons s steps ih =>
    refine ih (hstep s List.mem_cons_self k hk) fun s' hs' => ?_
    exact hstep s' (List.mem_cons_of_mem _ hs')

end Keeper

end LeaseEscrow
