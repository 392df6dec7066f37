import LeaseEscrow.Coin
import LeaseEscrow.Store.OrderedMap

/-!
# Supply

How much of each denomination has been minted and burned. Whatever moves between accounts,
the balances of a denomination add up to what was minted less what was burned.
-/

namespace LeaseEscrow

structure Supply where
  minted : OrderedMap String Decimal
  burned : OrderedMap String Decimal
deriving DecidableEq

namespace Supply

def empty : Supply := ⟨.empty, .empty⟩

def mintedOf (s : Supply) (denom : String) : Decimal := (s.minted.get? denom).getD .zero

def burnedOf (s : Supply) (denom : String) : Decimal := (s.burned.get? denom).getD .zero

def recordMint (s : Supply) (denom : String) (amount : Decimal) : Except Fault Supply := do
  let total ← Fault.inRange ((s.mintedOf denom).add? amount)
  return { s with minted := s.minted.insert denom total }

def recordBurn (s : Supply) (denom : String) (amount : Decimal) : Except Fault Supply := do
  let total ← Fault.inRange ((s.burnedOf denom).add? amount)
  return { s with burned := s.burned.insert denom total }

/-- What is in circulation. -/
def expected (s : Supply) (denom : String) : Except Fault Decimal :=
  Fault.inRange ((s.mintedOf denom).sub? (s.burnedOf denom))

/-- The sum of balances is what is in circulation. -/
def verify (s : Supply) (denom : String) (actual : Decimal) : Except Fault Unit := do
  let expected ← s.expected denom
  let minted := s.mintedOf denom
  let burned := s.burnedOf denom
  require (actual ≈ expected)
    (.supplyViolation
      (s!"denom {denom}: actual supply {actual} != expected {expected} " ++
        s!"(minted={minted}, burned={burned})"))

/-- Every denomination ever minted or burned, in order. -/
def denoms (s : Supply) : List String :=
  (OrderedMap.ofList ((s.minted.keys ++ s.burned.keys).map fun d => (d, ()))).keys

end Supply

end LeaseEscrow
