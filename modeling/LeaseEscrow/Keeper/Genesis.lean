import LeaseEscrow.Genesis
import LeaseEscrow.Keeper.Basic

/-!
# Import and export

A genesis is validated in full before it replaces the registry; ledger, configuration and
pending events are not touched. The export lists records in the order of their ids.
-/

namespace LeaseEscrow

/-- A registry that holds exactly what a genesis lists. -/
def Registry.ofGenesis (g : Genesis) : Except Refusal Registry := do
  let r := Registry.empty.setParams g.params
  let r ← g.resources.foldlM Registry.setResource r
  let r ← g.leases.foldlM Registry.setLease r
  return r.setNextId g.nextId

namespace Keeper

variable {L : Type}

def initGenesis (g : Genesis) : Action L Unit := do
  g.validate
  setRegistry (← Registry.ofGenesis g)

def exportGenesis (k : Keeper L) : Except Refusal Genesis := do
  return {
    params := ← k.registry.params
    resources := ← k.registry.resources
    leases := ← k.registry.leases
    nextId := k.registry.nextId }

/-- A new keeper with the exported state, the same configuration and the same ledger. -/
def restart (k : Keeper L) : Except Fault (Keeper L) := do
  let g ← k.exportGenesis
  let fresh ← create k.config k.ledger .default
  match fresh.run (initGenesis g) with
  | (.ok _, restarted) => return restarted
  | (.error fault, _) => throw fault

end Keeper

end LeaseEscrow
