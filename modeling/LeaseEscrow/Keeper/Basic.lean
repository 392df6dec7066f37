import LeaseEscrow.Block
import LeaseEscrow.Event
import LeaseEscrow.Keeper.Config
import LeaseEscrow.Ledger.Basic
import LeaseEscrow.Registry

/-!
# The keeper

The state of the module and the ledger that it settles through. An action reads and changes
this state and may fail; what it did before it failed stays done, unless it runs in a
`branch`, which undoes all of it.
-/

namespace LeaseEscrow

structure Keeper (L : Type) where
  registry : Registry
  ledger : L
  config : Config
  /-- Events that the host has not taken yet, oldest first. -/
  events : List Event

/-- A computation on a keeper that may fail. -/
abbrev Action (L α : Type) := ExceptT Fault (StateM (Keeper L)) α

namespace Keeper

variable {L : Type}

/-- A keeper with nothing registered. -/
def create (config : Config) (ledger : L) (params : Params) : Except Fault (Keeper L) := do
  config.validate
  params.validate
  return { registry := Registry.empty.setParams params, ledger, config, events := [] }

/-! ## Actions -/

/-- The result of an action and the keeper after it. -/
def run {α : Type} (k : Keeper L) (action : Action L α) : Except Fault α × Keeper L :=
  (ExceptT.run action).run k

def refuse {α : Type} (cause : Refusal) : Action L α := throw (.refused cause)

def configNow : Action L Config := return (← get).config

def registryNow : Action L Registry := return (← get).registry

def setRegistry (r : Registry) : Action L Unit := modify fun k => { k with registry := r }

/-- Reads from the registry. -/
def read {α : Type} (f : Registry → Except Refusal α) : Action L α := do
  f (← registryNow)

/-- Replaces the registry by the one that it changes to. -/
def change (f : Registry → Except Refusal Registry) : Action L Unit := do
  setRegistry (← f (← registryNow))

/-- Moves coins in the ledger; an amount of zero needs no transfer. -/
def send [Ledger L] (source target : Account) (amount : Coin) : Action L Unit := do
  if amount.isZero then return
  let ledger ← Ledger.transfer (← get).ledger source target amount
  modify fun k => { k with ledger }

def emit (b : Block) (kind : EventKind) (id : Option ResourceId) (detail : EventDetail) :
    Action L Unit :=
  modify fun k => { k with events := k.events ++ [⟨kind, b.height, id, detail⟩] }

/-- Hands the pending events over. -/
def takeEvents : Action L (List Event) := do
  let events := (← get).events
  modify fun k => { k with events := [] }
  return events

/-! ## Branches -/

/-- The keeper with a checkpoint in its store and in its ledger. -/
def enter [Ledger L] (k : Keeper L) : Keeper L :=
  { k with registry := ⟨k.registry.store.checkpoint⟩, ledger := Ledger.checkpoint k.ledger }

/-- The keeper with the innermost checkpoints kept. -/
def keep [Ledger L] (k : Keeper L) : Keeper L :=
  { k with registry := ⟨k.registry.store.commit⟩, ledger := Ledger.commit k.ledger }

/-- The keeper with the innermost checkpoints undone and only its first `count` events. -/
def undo [Ledger L] (count : Nat) (k : Keeper L) : Keeper L :=
  { k with
    registry := ⟨k.registry.store.revert⟩, ledger := Ledger.revert k.ledger
    events := k.events.take count }

/-- Runs an action as a transaction: if it fails, store, ledger and pending events go back
to where they were. -/
def branch [Ledger L] {α : Type} (action : Action L α) : Action L α :=
  ExceptT.mk fun k =>
    match k.enter.run action with
    | (.ok a, after) => (.ok a, after.keep)
    | (.error fault, after) => (.error fault, after.undo k.events.length)

/-- Runs an action and hands over its refusal, if it was refused. -/
def attempt {α : Type} (action : Action L α) : Action L (Except Refusal α) :=
  ExceptT.mk fun k =>
    let (result, after) := k.run action
    (Fault.caught result, after)

end Keeper

end LeaseEscrow
