import LeaseEscrow.Keeper.Genesis
import LeaseEscrow.Keeper.Invariants
import LeaseEscrow.Proofs.Keeper.Mirror
import LeaseEscrow.Proofs.Keeper.Sound

/-!
# Calls of a host

All that a host does with a keeper: it sends requests, settles blocks, moves coins and sets
checkpoints in the bank, takes events, and asks. A call is answered with what its action results
in. Keepers that mirror each other give the same answers, whatever is called (`Mirror.called`).
-/

namespace LeaseEscrow

/-- What a host asks without changing anything. -/
inductive Query : Type → Type where
  | params : Query Params
  | resource (id : ResourceId) : Query Resource
  | resources (page : PageRequest) : Query (Page Resource)
  | resourcesByOwner (owner : Account) : Query (List Resource)
  | availableResources : Query (List Resource)
  | lease (id : ResourceId) : Query Lease
  | leases (page : PageRequest) : Query (Page Lease)
  | leasesByLessee (lessee : Account) : Query (List Lease)
  | genesis : Query Genesis
  | invariants : Query Unit
  | events : Query (List Event)
  | balance (account : Account) (denom : String) : Query Coin
  | totalSupply (denom : String) : Query Decimal
  | verifySupply : Query Unit

/-- What a host does in the bank itself. -/
inductive BankCall where
  | mint (account : Account) (coin : Coin)
  | burn (account : Account) (coin : Coin)
  | transfer (source target : Account) (coin : Coin)
  | checkpoint
  | commit
  | revert

/-- What a host calls for. -/
inductive Call : Type → Type 1 where
  | request {α : Type} (b : Block) (m : Request α) : Call α
  | beginBlock (e : Engine) (b : Block) : Call (Report × Engine)
  | settle (b : Block) (id : ResourceId) : Call Outcome
  | bank (c : BankCall) : Call Unit
  | takeEvents : Call (List Event)
  | query {α : Type} (q : Query α) : Call α

namespace Keeper

variable {α : Type}

def answer (k : Keeper Bank) : Query α → Except Fault α
  | .params => k.registry.params
  | .resource id => k.registry.resource id
  | .resources page => k.registry.resourcePage page
  | .resourcesByOwner owner => k.registry.resourcesByOwner owner
  | .availableResources => k.registry.availableResources
  | .lease id => k.registry.lease id
  | .leases page => k.registry.leasePage page
  | .leasesByLessee lessee => k.registry.leasesByLessee lessee
  | .genesis => k.exportGenesis
  | .invariants => k.checkInvariants
  | .events => .ok k.events
  | .balance account denom => .ok (Ledger.balance k.ledger account denom)
  | .totalSupply denom => k.ledger.totalSupply denom
  | .verifySupply => k.ledger.verifySupply

end Keeper

def BankCall.apply (ledger : Bank) : BankCall → Except Fault Bank
  | .mint account coin => ledger.mint account coin
  | .burn account coin => ledger.burn account coin
  | .transfer source target coin => ledger.transfer source target coin
  | .checkpoint => .ok ledger.checkpoint
  | .commit => .ok ledger.commit
  | .revert => .ok ledger.revert

def Call.action {α : Type} : Call α → Action Bank α
  | .request b m => m.handle b
  | .beginBlock e b => e.beginBlock b
  | .settle b id => Keeper.branch (Keeper.settleLease b id)
  | .bank c => Keeper.onLedger fun ledger => c.apply ledger
  | .takeEvents => Keeper.takeEvents
  | .query q => do (← get).answer q

namespace Keeper

variable {α : Type} {k k' : Keeper Bank}

theorem run_query (k : Keeper Bank) (q : Query α) :
    k.run (Call.query q).action = (k.answer q, k) := run_liftM k _

theorem run_takeEvents (k : Keeper Bank) :
    k.run takeEvents = (.ok k.events, { k with events := [] }) := rfl

/-- The keeper after some calls. -/
def called (k : Keeper Bank) (calls : List (Sigma Call)) : Keeper Bank :=
  calls.foldl (fun k c => (k.run c.2.action).2) k

/-- What the calls are answered with, one after the other. -/
def answers (k : Keeper Bank) : List (Sigma Call) → List (Σ α, Except Fault α)
  | [] => []
  | c :: rest => ⟨c.1, (k.run c.2.action).1⟩ :: (k.run c.2.action).2.answers rest

/-! ## Mirrors -/

theorem Mirror.exportGenesis (h : Mirror k k') : k.exportGenesis = k'.exportGenesis := by
  rw [Keeper.exportGenesis, Keeper.exportGenesis, h.registry.params, h.registry.resources,
    h.registry.leases, h.registry.nextId]

theorem Mirror.checkInvariants (h : Mirror k k') : k.checkInvariants = k'.checkInvariants := by
  have hlease : checkLease k.registry = checkLease k'.registry := by
    funext l
    rw [checkLease, checkLease, h.registry.hasResource]
  rw [Keeper.checkInvariants, Keeper.checkInvariants, h.registry.resources, h.registry.leases,
    h.registry.params, hlease, h.ledger, h.config]

theorem Mirror.answer (h : Mirror k k') (q : Query α) : k.answer q = k'.answer q := by
  cases q with
  | params => exact congrArg liftM h.registry.params
  | resource id => exact congrArg liftM (h.registry.resource id)
  | resources page => simp only [Keeper.answer, Registry.resourcePage, h.registry.resources]
  | resourcesByOwner owner => exact congrArg liftM (h.registry.resourcesByOwner owner)
  | availableResources =>
    simp only [Keeper.answer, Registry.availableResources, h.registry.resources]
  | lease id => exact congrArg liftM (h.registry.lease id)
  | leases page => simp only [Keeper.answer, Registry.leasePage, h.registry.leases]
  | leasesByLessee lessee => exact congrArg liftM (h.registry.leasesByLessee lessee)
  | genesis => exact congrArg liftM h.exportGenesis
  | invariants => exact h.checkInvariants
  | events => exact congrArg Except.ok h.events
  | balance account denom => simp only [Keeper.answer, h.ledger]
  | totalSupply denom => simp only [Keeper.answer, h.ledger]
  | verifySupply => simp only [Keeper.answer, h.ledger]

theorem faithful_call (c : Call α) : Faithful c.action := by
  cases c with
  | request b m => exact (built_handle b m).faithful
  | beginBlock e b => exact (built_beginBlock e b).faithful
  | settle b id => exact (Built.branch (built_settleLease b id)).faithful
  | bank c => exact .onLedger fun ledger => c.apply ledger
  | takeEvents =>
    intro k k' h
    rw [Call.action, run_takeEvents, run_takeEvents, h.events]
    exact ⟨rfl, h.registry, h.ledger, h.config, rfl⟩
  | query q => exact .of_run_eq (fun k => k.answer q) (run_query · q) fun h => h.answer q

/-- Whatever is called, mirrors give the same answers and stay mirrors of each other. -/
theorem Mirror.called (h : Mirror k k') (calls : List (Sigma Call)) :
    k.answers calls = k'.answers calls ∧ Mirror (k.called calls) (k'.called calls) := by
  induction calls generalizing k k' with
  | nil => exact ⟨rfl, h⟩
  | cons c rest ih =>
    obtain ⟨hanswer, hafter⟩ := faithful_call c.2 _ _ h
    obtain ⟨hrest, hmirror⟩ := ih hafter
    exact ⟨by rw [answers, answers, hanswer, hrest], hmirror⟩

/-! ## Soundness -/

theorem sound_call (c : Call α) (hk : k.Sound) : (k.run c.action).2.Sound := by
  cases c with
  | request b m => exact sound_next (.request b m) hk
  | beginBlock e b => exact sound_next (.beginBlock e b) hk
  | settle b id => exact sound_next (.settle b id) hk
  | bank c => exact Keeps.onLedger (fun _ _ hk _ => hk) k hk
  | takeEvents => exact ofContents_sound.events [] hk
  | query q =>
    rw [run_query]
    exact hk

theorem sound_called (hk : k.Sound) (calls : List (Sigma Call)) : (k.called calls).Sound := by
  induction calls generalizing k with
  | nil => exact hk
  | cons c rest ih => exact ih (sound_call c.2 hk)

end Keeper

end LeaseEscrow
