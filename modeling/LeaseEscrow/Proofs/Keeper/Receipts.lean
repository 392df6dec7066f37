import LeaseEscrow.Proofs.Keeper.Calls
import LeaseEscrow.Proofs.Keeper.Origin

/-!
# What escrow receives

Four messages record that escrow holds a coin: a registration, a deposit, a lease and an extension.
Each sends that coin from its sender to escrow first, and by the rules of transfers a coin that an
account sends to itself stays where it is. So escrow comes to hold what is recorded, and the sender
that much less, whoever else sends; and when escrow itself sends, the record is made and nothing
moves (`requests_fund_escrow`). No check of the configuration or of a message keeps escrow from
sending one.

The host may do anything before the message, also with the checkpoints of the bank, so that all its
books have to be balanced, those that it can go back to included (`reached_called`).
-/

namespace LeaseEscrow

/-- The coin that a message puts into escrow. -/
def Request.payment {α : Type} : Request α → Option Coin
  | .register m => some m.deposit
  | .deposit m => some m.amount
  | .lease m => some m.amount
  | .extend m => some m.amount
  | .update _ => none
  | .cancel _ => none
  | .close _ => none
  | .setParams _ => none

namespace Keeper

variable {α : Type} {k k' : Keeper Bank} {b : Block} {m : Request α} {coin : Coin} {reply : α}

/-! ## Banks of keepers -/

/-- Whatever is built uses the bank as a host could. -/
theorem Built.reached {a : Action Bank α} (ha : Built a) : Keeps (fun k => k.ledger.Reached) a := by
  induction ha with
  | pure x => exact .pure x
  | lift x => exact .lift x
  | lift_refusal x => exact .lift_refusal x
  | configNow => exact fun _ hk => hk
  | allocateId =>
    intro k hk
    rw [run_allocateId]
    split <;> exact hk
  | read hf => exact .read _
  | @change f hf =>
    intro k hk
    rw [run_change]
    split <;> exact hk
  | send source target amount =>
    intro k hk
    rw [run_send]
    split
    · exact hk
    · split
      · next ledger htransfer => exact .transfer hk htransfer
      · exact hk
  | emit b kind id detail => exact fun _ hk => hk
  | bind _ _ ha hf => exact .bind ha hf
  | @branch _ a _ ha =>
    intro k hk
    have hafter := ha k.enter (.checkpoint hk)
    rw [run_branch]
    generalize k.enter.run a = p at hafter
    rcases p with ⟨_ | x, k₁⟩
    · exact .revert hafter
    · exact .commit hafter
  | attempt _ ha => exact .attempt ha

theorem reached_call (c : Call α) : Keeps (fun k => k.ledger.Reached) c.action := by
  cases c with
  | request b m => exact (built_handle b m).reached
  | beginBlock e b => exact (built_beginBlock e b).reached
  | settle b id => exact (Built.branch (built_settleLease b id)).reached
  | bank c =>
    apply Keeps.onLedger
    intro k ledger hk h
    cases c with
    | mint account coin => exact .mint hk h
    | burn account coin => exact .burn hk h
    | transfer source target coin => exact .transfer hk h
    | checkpoint => cases h; exact .checkpoint hk
    | commit => cases h; exact .commit hk
    | revert => cases h; exact .revert hk
  | takeEvents => exact fun _ hk => hk
  | query q =>
    intro k hk
    rw [run_query]
    exact hk

theorem reached_called (hk : k.ledger.Reached) (calls : List (Sigma Call)) :
    (k.called calls).ledger.Reached := by
  induction calls generalizing k with
  | nil => exact hk
  | cons c rest ih => exact ih (reached_call c.2 k hk)

/-! ## Payments -/

theorem positive_payment (hcheck : m.check = .ok ()) (hpays : m.payment = some coin) :
    0 < coin.value := by
  cases m with
  | register m =>
    cases hpays
    have hvalidate : m.validate = .ok () := liftM_eq_ok.1 hcheck
    simp only [Message.RegisterResource.validate, check_bind_eq_ok] at hvalidate
    exact (Coin.validatePositive_eq_ok.1 hvalidate.2.2.2.2.1).2
  | deposit m =>
    cases hpays
    exact (Coin.validatePositive_eq_ok.1 (liftM_eq_ok.1 hcheck)).2
  | lease m =>
    cases hpays
    exact (Coin.validatePositive_eq_ok.1 (check_bind_eq_ok.1 (liftM_eq_ok.1 hcheck)).2).2
  | extend m =>
    cases hpays
    exact (Coin.validatePositive_eq_ok.1 (check_bind_eq_ok.1 (liftM_eq_ok.1 hcheck)).2).2
  | update m => cases hpays
  | cancel m => cases hpays
  | close m => cases hpays
  | setParams m => cases hpays

theorem received_perform (hk : k.Sound) (hcheck : m.check = .ok ()) (hpays : m.payment = some coin)
    (h : k.run (m.perform b) = (.ok reply, k')) : Received m.sender coin k k' := by
  cases m with
  | register m => cases hpays; exact received_registration hk h
  | deposit m => cases hpays; exact received_deposit hk (liftM_eq_ok.1 hcheck) h
  | lease m => cases hpays; exact received_lease hk (liftM_eq_ok.1 hcheck) h
  | extend m => cases hpays; exact received_extension hk h
  | update m => cases hpays
  | cancel m => cases hpays
  | close m => cases hpays
  | setParams m => cases hpays

/-- After any calls, a message that puts a coin into escrow and succeeds raises what is owed by that
coin. It raises the balance of escrow by as much and lowers the sender's by as much, and no other
balance changes; but when escrow is the sender, no balance changes at all. -/
theorem requests_fund_escrow {start : Keeper Bank} (hstart : start.Started)
    (hbank : start.ledger.Reached) (calls : List (Sigma Call)) {α : Type} {b : Block}
    {m : Request α} {coin : Coin} {reply : α} {k' : Keeper Bank} (hpays : m.payment = some coin)
    (h : (start.called calls).run (m.handle b) = (.ok reply, k')) :
    let k := start.called calls
    let escrow := k.config.escrow
    0 < coin.value ∧
    (∀ denom, k'.registry.owed denom = k.registry.owed denom + coin.valueIn denom) ∧
    (m.sender ≠ escrow → ∀ denom,
      (k'.ledger.amount ⟨escrow, denom⟩).value =
        (k.ledger.amount ⟨escrow, denom⟩).value + coin.valueIn denom ∧
      (k'.ledger.amount ⟨m.sender, denom⟩).value =
        (k.ledger.amount ⟨m.sender, denom⟩).value - coin.valueIn denom ∧
      ∀ a, a ≠ escrow → a ≠ m.sender →
        (k'.ledger.amount ⟨a, denom⟩).value = (k.ledger.amount ⟨a, denom⟩).value) ∧
    (m.sender = escrow → k'.ledger.current = k.ledger.current) := by
  intro k escrow
  obtain ⟨hcheck, k₁, hperform, rfl⟩ := (run_handle_eq_ok b).1 h
  have henter : k.enter ≈ k := enter_equiv k
  have hkeep : k₁.keep ≈ k₁ := keep_equiv k₁
  have hsound : k.enter.Sound := ofContents_sound.congr henter.symm (sound_called hstart.sound calls)
  have hbalanced : k.enter.ledger.current.Balanced := (reached_called hbank calls).balanced
  have hreceived : Received m.sender coin k.enter k₁ := received_perform hsound hcheck hpays hperform
  have hamount : ∀ a denom, (k₁.keep.ledger.amount ⟨a, denom⟩).value =
      (k.ledger.amount ⟨a, denom⟩).value + (if a = escrow then coin.valueIn denom else 0) -
        (if a = m.sender then coin.valueIn denom else 0) := by
    intro a denom
    rw [Bank.amount_congr hkeep.book]
    exact Bank.amount_sent hbalanced hreceived.sent a denom
  refine ⟨positive_payment hcheck hpays, fun denom => ?_, fun hne denom => ⟨?_, ?_, ?_⟩, fun hself => ?_⟩
  · rw [Registry.owed_congr hkeep.registry, hreceived.recorded.owed, Registry.owed_congr henter.registry]
  · rw [hamount, if_pos rfl, if_neg hne.symm, sub_zero]
  · rw [hamount, if_neg hne, if_pos rfl, add_zero]
  · intro a hescrow hsender
    rw [hamount, if_neg hescrow, if_neg hsender, add_zero, sub_zero]
  · have hsent : Sent k.enter.ledger m.sender m.sender coin k₁.ledger :=
      (show k.enter.config.escrow = m.sender from hself.symm) ▸ hreceived.sent
    calc k₁.keep.ledger.current = k₁.ledger.current := hkeep.book
      _ = k.enter.ledger.current := congrArg _ (Bank.eq_of_sent_self hsent)
      _ = k.ledger.current := henter.book

/-- Escrow registers a node of its own. -/
def escrowsNode : Message.RegisterResource :=
  { Sample.registration with id := none, sender := Sample.config.escrow }

/-- The owner's deposit of 1000 is in escrow. -/
def ownersDeposit : List (Sigma Call) :=
  [⟨_, .request (Sample.block 0) (.register Sample.registration)⟩]

/-- The owner's deposit moves from the owner to escrow. Escrow's own does not move, so that escrow
comes to owe twice what it holds. -/
theorem escrow_registers_unfunded :
    let funded := Sample.keeper.called ownersDeposit
    (∃ k', (Sample.keeper.called []).run
        ((Request.register Sample.registration).handle (Sample.block 0)) =
        (.ok ⟨Sample.nodeId, .active⟩, k') ∧
      (k'.ledger.amount ⟨Sample.config.escrow, "umedia"⟩).value =
        (Sample.keeper.ledger.amount ⟨Sample.config.escrow, "umedia"⟩).value + 1000 ∧
      (k'.ledger.amount ⟨Sample.owner, "umedia"⟩).value =
        (Sample.keeper.ledger.amount ⟨Sample.owner, "umedia"⟩).value - 1000) ∧
    ∃ k', funded.run ((Request.register escrowsNode).handle (Sample.block 0)) =
        (.ok ⟨.ofCounter 1, .active⟩, k') ∧
      k'.registry.owed "umedia" = funded.registry.owed "umedia" + 1000 ∧
      k'.ledger.current = funded.ledger.current := by
  intro funded
  have hdeposit : (Sample.coins 1000).valueIn "umedia" = 1000 := Decimal.value_ofUInt64 1000
  constructor
  · have hok : ((Sample.keeper.called []).run
        ((Request.register Sample.registration).handle (Sample.block 0))).1 =
        .ok ⟨Sample.nodeId, .active⟩ := by decide +kernel
    have howner : Sample.registration.sender ≠ (Sample.keeper.called []).config.escrow := by decide
    obtain ⟨-, -, hmoved, -⟩ := requests_fund_escrow (.created Sample.create_keeper)
      Sample.reached_bank [] (m := .register Sample.registration) rfl (run_of_fst hok)
    obtain ⟨hraised, hlowered, -⟩ := hmoved howner "umedia"
    exact ⟨_, run_of_fst hok, hdeposit ▸ hraised, hdeposit ▸ hlowered⟩
  · have hok : (funded.run ((Request.register escrowsNode).handle (Sample.block 0))).1 =
        .ok ⟨.ofCounter 1, .active⟩ := by decide +kernel
    have hescrow : escrowsNode.sender = funded.config.escrow := by decide +kernel
    obtain ⟨-, howed, -, hsame⟩ := requests_fund_escrow (.created Sample.create_keeper)
      Sample.reached_bank ownersDeposit (m := .register escrowsNode) rfl (run_of_fst hok)
    exact ⟨_, run_of_fst hok, hdeposit ▸ howed "umedia", hsame hescrow⟩

/-- Escrow is the sender here: its balance is neither raised nor lowered by the deposit that was
accepted, and the invariants fail from then on. -/
theorem escrow_is_not_funded_by_itself :
    Sample.config.validate = .ok () ∧ escrowsNode.sender = Sample.config.escrow ∧
    ∃ k', (Sample.keeper.called ownersDeposit).run
        ((Request.register escrowsNode).handle (Sample.block 0)) =
        (.ok ⟨.ofCounter 1, .active⟩, k') ∧
      (k'.ledger.amount ⟨Sample.config.escrow, "umedia"⟩).value ≠
        ((Sample.keeper.called ownersDeposit).ledger.amount ⟨Sample.config.escrow, "umedia"⟩).value +
          escrowsNode.deposit.value ∧
      (k'.ledger.amount ⟨Sample.config.escrow, "umedia"⟩).value ≠
        ((Sample.keeper.called ownersDeposit).ledger.amount ⟨Sample.config.escrow, "umedia"⟩).value -
          escrowsNode.deposit.value ∧
      (Sample.keeper.called ownersDeposit).checkInvariants = .ok () ∧
      k'.checkInvariants ≠ .ok () := by
  have hsame : ((Sample.keeper.called ownersDeposit).run
      ((Request.register escrowsNode).handle (Sample.block 0))).2.ledger.amount
        ⟨Sample.config.escrow, "umedia"⟩ =
      (Sample.keeper.called ownersDeposit).ledger.amount ⟨Sample.config.escrow, "umedia"⟩ := by
    decide +kernel
  have hdeposit : escrowsNode.deposit.value = 1000 := Decimal.value_ofUInt64 1000
  refine ⟨by decide +kernel, rfl, _, Prod.ext (by decide +kernel) rfl, ?_, ?_, ?_, ?_⟩
  · rw [hsame, hdeposit]
    simp
  · rw [hsame, hdeposit]
    intro h
    linarith
  · decide +kernel
  · decide +kernel

end Keeper

end LeaseEscrow
