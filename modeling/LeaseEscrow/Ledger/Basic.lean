import LeaseEscrow.Coin
import LeaseEscrow.Ident.Account

/-!
# Ledgers

The keeper moves coins through a ledger and knows nothing else of it. A transfer moves the
whole amount or nothing, and changes under a checkpoint can be undone together.
-/

namespace LeaseEscrow

class Ledger (L : Type) where
  /-- What an account can spend of a denomination. -/
  balance : L → Account → String → Coin
  /-- Moves an amount from one account to another. -/
  transfer : L → (source target : Account) → Coin → Except Fault L
  checkpoint : L → L
  /-- Keeps the changes since the innermost checkpoint; an outer one can still undo them. -/
  commit : L → L
  /-- Undoes the changes since the innermost checkpoint. -/
  revert : L → L

end LeaseEscrow
