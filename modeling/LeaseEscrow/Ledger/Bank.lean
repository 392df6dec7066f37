import LeaseEscrow.Ledger.Basic
import LeaseEscrow.Ledger.Supply
import LeaseEscrow.Store.Journaled

/-!
# The bank

A ledger that holds every balance itself. Balances of zero have no entry, and every mint
and burn is recorded, so that the supply can be verified at any time.
-/

namespace LeaseEscrow

/-- An account and a denomination; ordered by account first. -/
structure Holding where
  account : Account
  denom : String
deriving DecidableEq

instance : Ord Holding :=
  ⟨compareLex (compareOn fun h => h.account.text) (compareOn Holding.denom)⟩

instance : Std.TransOrd Holding :=
  inferInstanceAs
    (Std.TransCmp (compareLex (compareOn fun h : Holding => h.account.text) (compareOn Holding.denom)))

instance : Std.LawfulEqOrd Holding where
  eq_of_compare {a b} h := by
    have h : (compare a.account.text b.account.text).then (compare a.denom b.denom) = .eq := h
    rw [Ordering.then_eq_eq] at h
    obtain ⟨⟨text, _⟩, denom⟩ := a
    obtain ⟨⟨text', _⟩, denom'⟩ := b
    have htext : text = text' := Std.LawfulEqCmp.eq_of_compare h.1
    have hdenom : denom = denom' := Std.LawfulEqCmp.eq_of_compare h.2
    cases htext
    cases hdenom
    rfl

structure Book where
  balances : OrderedMap Holding Decimal
  supply : Supply
deriving DecidableEq

/-- How a balance or the supply was before a write. -/
inductive BookNote where
  | balance (holding : Holding) (prior : Option Decimal)
  | supply (prior : Supply)
deriving DecidableEq

instance : Undoable Book BookNote where
  undo book
    | .balance holding prior => { book with balances := book.balances.restore holding prior }
    | .supply prior => { book with supply := prior }

abbrev Bank := Journaled Book BookNote

namespace Bank

def empty : Bank := .ofValue ⟨.empty, .empty⟩

def amount (b : Bank) (h : Holding) : Decimal := (b.current.balances.get? h).getD .zero

/-- Sets a balance; a zero balance loses its entry. -/
def write (b : Bank) (h : Holding) (amount : Decimal) : Bank :=
  let balances := b.current.balances
  Journaled.write b
    { b.current with balances := balances.restore h (if amount.isZero then none else some amount) }
    (.balance h (balances.get? h))

def setSupply (b : Bank) (supply : Supply) : Bank :=
  Journaled.write b { b.current with supply } (.supply b.current.supply)

/-- What is left of a holding after a coin is taken from it. -/
def afterDebit (b : Bank) (h : Holding) (coin : Coin) : Except Fault Decimal := do
  let available := b.amount h
  require (coin.amount ≤ available) (.insufficientFunds coin.amount available)
  Fault.inRange (available.sub? coin.amount)

/-- Creates coins in an account. -/
def mint (b : Bank) (account : Account) (coin : Coin) : Except Fault Bank := do
  coin.validate
  let supply := b.current.supply
  require ((supply.mintedOf coin.denom).add? coin.amount).isSome
    (.invalidAmount s!"minting {coin} overflows the {coin.denom} supply")
  let holding : Holding := ⟨account, coin.denom⟩
  let balance ← Fault.inRange ((b.amount holding).add? coin.amount)
  return (b.setSupply (← supply.recordMint coin.denom coin.amount)).write holding balance

/-- Destroys coins of an account. -/
def burn (b : Bank) (account : Account) (coin : Coin) : Except Fault Bank := do
  coin.validate
  let holding : Holding := ⟨account, coin.denom⟩
  let left ← b.afterDebit holding coin
  return (b.setSupply (← b.current.supply.recordBurn coin.denom coin.amount)).write holding left

/-- A transfer of nothing, and one to oneself, changes nothing. -/
def transfer (b : Bank) (source target : Account) (coin : Coin) : Except Fault Bank := do
  coin.validate
  if coin.isZero then return b
  let left ← b.afterDebit ⟨source, coin.denom⟩ coin
  if source = target then return b
  let credited ← Fault.inRange ((b.amount ⟨target, coin.denom⟩).add? coin.amount)
  return (b.write ⟨source, coin.denom⟩ left).write ⟨target, coin.denom⟩ credited

/-- The sum of all balances of a denomination. -/
def totalSupply (b : Bank) (denom : String) : Except Fault Decimal :=
  (b.current.balances.entries.filter fun e => e.1.denom == denom).foldlM
    (fun total e => Fault.inRange (total.add? e.2)) .zero

/-- The balances of every denomination add up to its supply. -/
def verifySupply (b : Bank) : Except Fault Unit :=
  b.current.supply.denoms.forM fun denom => do
    b.current.supply.verify denom (← b.totalSupply denom)

instance : Ledger Bank where
  balance b account denom := ⟨denom, b.amount ⟨account, denom⟩⟩
  transfer := transfer
  checkpoint := Journaled.checkpoint
  commit := Journaled.commit
  revert := Journaled.revert

end Bank

end LeaseEscrow
