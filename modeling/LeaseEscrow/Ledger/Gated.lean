import LeaseEscrow.Ledger.Basic

/-!
# Gated ledgers

A ledger in front of which some accounts are shut: transfers to them are refused before
anything else is looked at. Shutting an account is no ledger operation, so checkpoints do
not undo it.
-/

namespace LeaseEscrow

structure Gated (L : Type) where
  inner : L
  blocked : List Account

namespace Gated

variable {L : Type}

/-- Whether the account was open, and the ledger with it shut. -/
def block (g : Gated L) (a : Account) : Bool × Gated L :=
  if g.blocked.contains a then (false, g) else (true, { g with blocked := a :: g.blocked })

/-- Whether the account was shut, and the ledger with it open. -/
def unblock (g : Gated L) (a : Account) : Bool × Gated L :=
  if g.blocked.contains a then (true, { g with blocked := g.blocked.filter (· != a) })
  else (false, g)

instance [Ledger L] : Ledger (Gated L) where
  balance g := Ledger.balance g.inner
  transfer g source target coin := do
    require (!g.blocked.contains target) (.internal s!"transfers to {target} are blocked")
    return { g with inner := ← Ledger.transfer g.inner source target coin }
  checkpoint g := { g with inner := Ledger.checkpoint g.inner }
  commit g := { g with inner := Ledger.commit g.inner }
  revert g := { g with inner := Ledger.revert g.inner }

end Gated

end LeaseEscrow
