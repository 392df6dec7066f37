import LeaseEscrow.Proofs.Keeper.Settlements

/-!
# The deposits and the releases in a run

A run takes in a deposit with each registration and each addition to a deposit that succeeds, and
a block releases the deposits of resources. What counts is each deposit that was accepted, and
each release that succeeded: what it refunded, and the balances before and after it.
-/

namespace LeaseEscrow

/-- Coins leave an account one after the other. -/
inductive PaidBack (source : Account) : List (Account × Coin) → Book → Book → Prop where
  | nil (book : Book) : PaidBack source [] book book
  | cons {target : Account} {coin : Coin} {refunds : List (Account × Coin)}
      {book book₁ book' : Book} (first : Moved source target coin book book₁)
      (rest : PaidBack source refunds book₁ book') :
      PaidBack source ((target, coin) :: refunds) book book'

/-- A release of the deposits of a resource that succeeded. -/
structure Release where
  time : Instant
  refunds : List (Account × Coin)
  before : Book
  after : Book

/-- A deposit as it is refunded. -/
def Deposit.refund (d : Deposit) : Account × Coin := (d.depositor, d.amount)

/-- All that the release moved are these deposits, each out of escrow to its depositor. -/
structure Release.Refunds (config : Config) (deposits : List Deposit) (r : Release) : Prop where
  refunds_eq : r.refunds = deposits.map Deposit.refund
  paid : PaidBack config.escrow r.refunds r.before r.after

/-- The deposit on `id` that comes with a request that was answered so. -/
def Request.deposits {α : Type} (b : Block) (id : ResourceId) : Request α → α → List Deposit
  | .register m, reply => if reply.id = id then [⟨m.sender, m.deposit, b.time⟩] else []
  | .deposit m, _ => if m.id = id then [⟨m.sender, m.amount, b.time⟩] else []
  | _, _ => []

namespace Keeper

/-- The release of the deposits on `id` at this moment, if it succeeds. -/
def releasing (k : Keeper Bank) (b : Block) (id : ResourceId) : List Release :=
  match k.run (branch (releaseDeposits b id)) with
  | (.ok refunds, k') => [⟨b.time, refunds, k.ledger.current, k'.ledger.current⟩]
  | (.error _, _) => []

/-- The releases of the deposits on `id` while a block releases those of these ids in turn. -/
def releasingEach (b : Block) (id : ResourceId) :
    List ResourceId → Report → Keeper Bank → List Release
  | [], _, _ => []
  | j :: ids, report, k =>
    (if j = id then k.releasing b id else []) ++
      match k.run (Engine.releaseOne b report j) with
      | (.ok report', k') => releasingEach b id ids report' k'
      | (.error _, _) => []

/-- The releases of the deposits on `id` once a block has settled the leases. -/
def releasingDue (k : Keeper Bank) (b : Block) (report : Report) (id : ResourceId) :
    List Release :=
  match k.registry.params, k.registry.resources with
  | .ok p, .ok resources =>
    let due := resources.filter fun x => (DepositLock.ofParams p).isDue x b.time
    releasingEach b id (due.map Resource.id) report k
  | _, _ => []

/-- What `Refunded` says of ledgers, said of a release. -/
theorem Refunded.refunds {config : Config} {deposits : List Deposit} {ledger ledger' : Bank}
    (h : Refunded config.escrow deposits ledger ledger') (t : Instant) :
    Release.Refunds config deposits
      ⟨t, deposits.map Deposit.refund, ledger.current, ledger'.current⟩ where
  refunds_eq := rfl
  paid := by
    show PaidBack config.escrow (deposits.map Deposit.refund) ledger.current ledger'.current
    induction deposits generalizing ledger with
    | nil =>
      obtain rfl := h
      exact .nil _
    | cons d deposits ih =>
      obtain ⟨next, hsent, hrest⟩ := h
      exact .cons hsent.moved (ih hrest)

end Keeper

end LeaseEscrow
