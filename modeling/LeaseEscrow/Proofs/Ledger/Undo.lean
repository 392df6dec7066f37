import LeaseEscrow.Ledger.Bank
import LeaseEscrow.Proofs.Outcome
import LeaseEscrow.Store.OrderedMap.Lookup

/-!
# Undoing writes of the bank

Mints, burns and transfers note how to undo what they write, balances and supply alike, so
that they leave alone what the open checkpoints would go back to. What they do to the book
depends on the book only.
-/

namespace LeaseEscrow.Bank

/-! ## Single writes -/

theorem current_write (b : Bank) (h : Holding) (amount : Decimal) :
    (b.write h amount).current =
      { b.current with
        balances := b.current.balances.restore h (if amount.isZero then none else some amount) } :=
  Journaled.current_write ..

theorem snapshots_write (b : Bank) (h : Holding) (amount : Decimal) :
    (b.write h amount).snapshots = b.snapshots := by
  refine Journaled.snapshots_write b ?_
  show ({ b.current with balances := (OrderedMap.restore _ h _).restore h _ } : Book) = b.current
  rw [OrderedMap.restore_restore]

theorem current_setSupply (b : Bank) (supply : Supply) :
    (b.setSupply supply).current = { b.current with supply } := Journaled.current_write ..

theorem snapshots_setSupply (b : Bank) (supply : Supply) :
    (b.setSupply supply).snapshots = b.snapshots := Journaled.snapshots_write b rfl

/-- A change of the book that sees the book only and can be undone. -/
structure Writes (f : Bank → Except Fault Bank) : Prop where
  book : ∀ b b', b.current = b'.current → (f b).map Journaled.current = (f b').map Journaled.current
  snapshots : ∀ b b', f b = .ok b' → b'.snapshots = b.snapshots

theorem write_congr {b b' : Bank} (h : b.current = b'.current) (holding : Holding)
    (amount : Decimal) : (b.write holding amount).current = (b'.write holding amount).current := by
  rw [current_write, current_write, h]

theorem setSupply_congr {b b' : Bank} (h : b.current = b'.current) (supply : Supply) :
    (b.setSupply supply).current = (b'.setSupply supply).current := by
  rw [current_setSupply, current_setSupply, h]

/-! ## Operations -/

/-- A transfer that succeeds moves a valid coin, and it moves nothing when the coin is zero or
goes from an account to itself. -/
theorem transfer_eq_ok {b b' : Bank} {source target : Account} {coin : Coin} :
    b.transfer source target coin = .ok b' ↔
      coin.validate = .ok () ∧
        if coin.isZero then b = b'
        else ∃ left, b.afterDebit ⟨source, coin.denom⟩ coin = .ok left ∧
          if source = target then b = b'
          else ∃ credited, (b.amount ⟨target, coin.denom⟩).add? coin.amount = some credited ∧
            (b.write ⟨source, coin.denom⟩ left).write ⟨target, coin.denom⟩ credited = b' := by
  unfold transfer
  rw [check_bind_eq_ok, liftM_eq_ok]
  refine and_congr_right fun _ => ?_
  split
  · exact pure_eq_ok
  · rw [bind_eq_ok]
    refine exists_congr fun left => and_congr_right fun _ => ?_
    split
    · exact pure_eq_ok
    · simp only [bind_eq_ok, inRange_eq_ok, pure_eq_ok]

theorem mint_eq_ok {b b' : Bank} {account : Account} {coin : Coin} :
    b.mint account coin = .ok b' ↔
      coin.validate = .ok () ∧
        ((b.current.supply.mintedOf coin.denom).add? coin.amount).isSome = true ∧
        ∃ balance, (b.amount ⟨account, coin.denom⟩).add? coin.amount = some balance ∧
          ∃ supply, b.current.supply.recordMint coin.denom coin.amount = .ok supply ∧
            (b.setSupply supply).write ⟨account, coin.denom⟩ balance = b' := by
  unfold mint
  rw [check_bind_eq_ok, check_bind_eq_ok, liftM_eq_ok, liftM_eq_ok, require_eq_ok]
  simp only [bind_eq_ok, inRange_eq_ok, pure_eq_ok]

theorem burn_eq_ok {b b' : Bank} {account : Account} {coin : Coin} :
    b.burn account coin = .ok b' ↔
      coin.validate = .ok () ∧
        ∃ left, b.afterDebit ⟨account, coin.denom⟩ coin = .ok left ∧
          ∃ supply, b.current.supply.recordBurn coin.denom coin.amount = .ok supply ∧
            (b.setSupply supply).write ⟨account, coin.denom⟩ left = b' := by
  unfold burn
  rw [check_bind_eq_ok, liftM_eq_ok]
  simp only [bind_eq_ok, pure_eq_ok]

theorem amount_congr {b b' : Bank} (h : b.current = b'.current) (holding : Holding) :
    b.amount holding = b'.amount holding := by
  rw [amount, amount, h]

theorem afterDebit_congr {b b' : Bank} (h : b.current = b'.current) (holding : Holding)
    (coin : Coin) : b.afterDebit holding coin = b'.afterDebit holding coin := by
  rw [afterDebit, afterDebit, amount_congr h]

theorem writes_transfer (source target : Account) (coin : Coin) :
    Writes fun b => b.transfer source target coin where
  book b b' h := by
    simp only [transfer, amount_congr h, afterDebit_congr h]
    cases coin.validate with
    | error e => rfl
    | ok _ =>
      -- Both sides now check the same amounts, and differ in the book that they write to only.
      show (Except.map _ (if _ then _ else _)) = Except.map _ (if _ then _ else _)
      split
      · exact congrArg Except.ok h
      · cases b'.afterDebit ⟨source, coin.denom⟩ coin with
        | error e => rfl
        | ok left =>
          show (Except.map _ (if _ then _ else _)) = Except.map _ (if _ then _ else _)
          split
          · exact congrArg Except.ok h
          · cases (b'.amount ⟨target, coin.denom⟩).add? coin.amount with
            | none => rfl
            | some credited => exact congrArg Except.ok (write_congr (write_congr h _ _) _ _)
  snapshots b b' h := by
    obtain ⟨-, h⟩ := transfer_eq_ok.1 h
    split at h
    · rw [h]
    · obtain ⟨left, -, h⟩ := h
      split at h
      · rw [h]
      · obtain ⟨credited, -, rfl⟩ := h
        rw [snapshots_write, snapshots_write]

theorem writes_mint (account : Account) (coin : Coin) : Writes fun b => b.mint account coin where
  book b b' h := by
    simp only [mint, amount_congr h, h]
    cases coin.validate with
    | error e => rfl
    | ok _ =>
      cases require ((b'.current.supply.mintedOf coin.denom).add? coin.amount).isSome
        (.invalidAmount s!"minting {coin} overflows the {coin.denom} supply") with
      | error e => rfl
      | ok _ =>
        cases (b'.amount ⟨account, coin.denom⟩).add? coin.amount with
        | none => rfl
        | some balance =>
          cases b'.current.supply.recordMint coin.denom coin.amount with
          | error e => rfl
          | ok supply => exact congrArg Except.ok (write_congr (setSupply_congr h _) _ _)
  snapshots b b' h := by
    obtain ⟨-, -, balance, -, supply, -, rfl⟩ := mint_eq_ok.1 h
    rw [snapshots_write, snapshots_setSupply]

theorem writes_burn (account : Account) (coin : Coin) : Writes fun b => b.burn account coin where
  book b b' h := by
    simp only [burn, afterDebit_congr h, h]
    cases coin.validate with
    | error e => rfl
    | ok _ =>
      cases b'.afterDebit ⟨account, coin.denom⟩ coin with
      | error e => rfl
      | ok left =>
        cases b'.current.supply.recordBurn coin.denom coin.amount with
        | error e => rfl
        | ok supply => exact congrArg Except.ok (write_congr (setSupply_congr h _) _ _)
  snapshots b b' h := by
    obtain ⟨-, left, -, supply, -, rfl⟩ := burn_eq_ok.1 h
    rw [snapshots_write, snapshots_setSupply]

end LeaseEscrow.Bank
