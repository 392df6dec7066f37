import LeaseEscrow.Ident.Parse

/-!
# Configuration of the keeper

The accounts that the keeper acts for. They are given to it once, so that no operation looks
them up anywhere else.
-/

namespace LeaseEscrow

structure Config where
  /-- The only account that may change the parameters. -/
  authority : Account
  /-- The module account that holds deposits and prepaid leases. -/
  escrow : Account
  feeCollector : Account
  communityPool : Account
deriving DecidableEq

namespace Config

/-- The configuration with the module accounts of the standard names. -/
def standard (authority : Account) : Config where
  authority
  escrow := .ofModule "medianode"
  feeCollector := .ofModule "fee_collector"
  communityPool := .ofModule "community_pool"

/-- No module account serves twice. -/
def validate (c : Config) : Except Refusal Unit := do
  require (c.escrow ≠ c.feeCollector ∧ c.escrow ≠ c.communityPool)
    (.invalidParams s!"module account {c.escrow} configured twice")
  require (c.feeCollector ≠ c.communityPool)
    (.invalidParams s!"module account {c.feeCollector} configured twice")

end Config

end LeaseEscrow
