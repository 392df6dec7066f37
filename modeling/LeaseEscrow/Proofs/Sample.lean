import LeaseEscrow.Proofs.Keeper.Steps

/-!
# A small market

One owner, one lessee, and an owner's node at a price of ten an hour: enough to see that what
theorems assume does happen.
-/

namespace LeaseEscrow.Sample

def owner : Account := ⟨"mnode1owner000", by decide⟩

def lessee : Account := ⟨"mnode1lessee00", by decide⟩

def config : Config where
  authority := ⟨"mnode1council0", by decide⟩
  escrow := ⟨"mnode1escrow00", by decide⟩
  feeCollector := ⟨"mnode1fees0000", by decide⟩
  communityPool := ⟨"mnode1pool0000", by decide⟩

def coins (n : UInt64) : Coin := ⟨"umedia", .ofUInt64 n⟩

/-- Owner and lessee hold a thousand each. -/
def bank : Bank :=
  .ofValue {
    balances := .ofList [(⟨owner, "umedia"⟩, .ofUInt64 1000), (⟨lessee, "umedia"⟩, .ofUInt64 1000)]
    supply := { Supply.empty with minted := .ofList [("umedia", .ofUInt64 2000)] } }

def keeperOver (ledger : Bank) : Keeper Bank :=
  { registry := Registry.empty.setParams .default, ledger, config, events := [] }

def keeper : Keeper Bank := keeperOver bank

/-- The block that is so many hours old. -/
def block (hours : UInt16) : Block where
  height := hours.toUInt64
  time := ⟨3600 * hours.toNat, 0, by simp only [Instant.firstSecond]; omega, by
    have := hours.toNat_lt; simp only [Instant.lastSecond]; omega, .inl (by decide)⟩

/-- A block in the middle of the leap second that ends the first day. -/
def leapBlock : Block where
  height := 0
  time := ⟨86399, 1500000000, by decide, by decide, by decide⟩

/-- A block half a second before two o'clock of the second day, a second short of two hours after
the other one. -/
def afterLeap (height : UInt64) : Block where
  height
  time := ⟨93599, 500000000, by decide, by decide, by decide⟩

def nodeId : ResourceId := ⟨"node1", by decide⟩

/-- A node of the owner, with as much deposited as makes it active. -/
def activeNode (id : ResourceId) (leased : Bool) : Resource where
  id
  owner
  url := "https://node.example"
  info := ⟨"node", "", ""⟩
  hardware := ⟨4, 16, 500⟩
  pricePerHour := coins 10
  status := .active
  leased
  deposits := [⟨owner, coins 1000, (block 0).time⟩]
  registeredAt := (block 0).time
  closedAt := none

/-- The owner registers a node with as much as makes it active. -/
def registration : Message.RegisterResource where
  id := some nodeId
  url := "https://node.example"
  info := ⟨"node", "", ""⟩
  hardware := ⟨4, 16, 500⟩
  pricePerHour := coins 10
  deposit := coins 1000
  sender := owner

/-- The lessee takes the node for so many hours. -/
def lease (hours : UInt64) : Message.TakeLease where
  id := nodeId
  hours
  amount := coins (10 * hours)
  sender := lessee

def cancellation : Message.CancelLease := ⟨nodeId, lessee⟩

/-- The lessee takes the node as soon as it is registered, for three hours. -/
def taking : Except Fault Reply.Leased × Keeper Bank :=
  (keeper.after [.request (block 0) (.register registration)]).run
    (Keeper.takeLease (block 0) (lease 3))

/-- A node is registered and leased for three hours, and the first of them is settled. -/
def firstHour : List Step :=
  [.request (block 0) (.register registration), .request (block 0) (.lease (lease 3)),
    .beginBlock .fresh (block 1)]

def laterId : ResourceId := ⟨"node9", by decide⟩

/-- The owner comes to another thousand and registers a second node with it; the lessee takes the
first one for three hours and the second one for one. -/
def twoNodes : List Step :=
  [.request (block 0) (.register registration), .mint owner (coins 1000),
    .request (block 0) (.register { registration with id := some laterId }),
    .request (block 0) (.lease (lease 3)),
    .request (block 0) (.lease { lease 1 with id := laterId })]

end LeaseEscrow.Sample
