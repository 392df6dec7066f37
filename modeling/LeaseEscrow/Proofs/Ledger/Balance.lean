import LeaseEscrow.Proofs.Coin
import LeaseEscrow.Proofs.Keeper.Run
import LeaseEscrow.Proofs.Ledger.Undo

/-!
# What an account holds

The balances of one account, as values by denomination. Coins that the account sends or is sent
change them by exactly their values; coins that move between other accounts do not change them.
-/

namespace LeaseEscrow.Bank

/-- A balance that was set to zero reads as the plain zero. -/
theorem amount_write (b : Bank) (h k : Holding) (x : Decimal) :
    (b.write h x).amount k = if k = h then (if x.isZero then .zero else x) else b.amount k := by
  rw [amount, current_write, OrderedMap.get?_restore]
  by_cases hk : k = h
  · rw [if_pos hk, if_pos hk]
    split <;> rfl
  · rw [if_neg hk, if_neg hk]
    rfl

theorem amount_setSupply (b : Bank) (supply : Supply) (h : Holding) :
    (b.setSupply supply).amount h = b.amount h := by
  rw [amount, current_setSupply]
  rfl

theorem afterDebit_eq_ok {b : Bank} {h : Holding} {coin : Coin} {left : Decimal} :
    b.afterDebit h coin = .ok left ↔
      coin.amount ≤ b.amount h ∧ (b.amount h).sub? coin.amount = some left := by
  rw [afterDebit, check_bind_eq_ok, liftM_eq_ok, require_eq_ok, inRange_eq_ok]

/-- The account has whole balances of these values. -/
def Holds (b : Bank) (a : Account) (f : String → ℚ) : Prop :=
  ∀ denom, (b.amount ⟨a, denom⟩).Whole ∧ (b.amount ⟨a, denom⟩).value = f denom

namespace Holds

variable {b b' : Bank} {a source target : Account} {f g : String → ℚ} {coin : Coin}

theorem of_eq (h : b.Holds a f) (heq : ∀ denom, f denom = g denom) : b.Holds a g :=
  funext heq ▸ h

theorem congr (hcurrent : b.current = b'.current) (h : b.Holds a f) : b'.Holds a f := by
  intro denom
  rw [← amount_congr hcurrent]
  exact h denom

/-! ## Single writes -/

theorem write (h : b.Holds a f) (denom : String) {x : Decimal} (hx : x.Whole) :
    (b.write ⟨a, denom⟩ x).Holds a (Function.update f denom x.value) := by
  intro d
  rw [amount_write, Function.update_apply]
  by_cases hd : d = denom
  · rw [if_pos (by rw [hd]), if_pos hd]
    split
    · next hzero => exact ⟨Decimal.whole_zero, (Decimal.isZero_iff.1 hzero).symm ▸ Decimal.value_zero⟩
    · exact ⟨hx, rfl⟩
  · rw [if_neg fun he => hd (congrArg Holding.denom he), if_neg hd]
    exact h d

theorem write_of_ne (h : b.Holds a f) {holding : Holding} (hne : holding.account ≠ a)
    (x : Decimal) : (b.write holding x).Holds a f := by
  intro denom
  rw [amount_write, if_neg fun he => hne (congrArg Holding.account he).symm]
  exact h denom

theorem setSupply (h : b.Holds a f) (supply : Supply) : (b.setSupply supply).Holds a f := by
  intro denom
  rw [amount_setSupply]
  exact h denom

/-! ## Coins that are sent -/

/-- A coin that is sent to another account is of no value or goes through as a transfer. -/
theorem sent_cases (h : Keeper.Sent b source target coin b') (hne : source ≠ target) :
    coin.value = 0 ∧ b' = b ∨
      coin.amount.Whole ∧ ∃ left credited,
        (b.amount ⟨source, coin.denom⟩).sub? coin.amount = some left ∧
        (b.amount ⟨target, coin.denom⟩).add? coin.amount = some credited ∧
        (b.write ⟨source, coin.denom⟩ left).write ⟨target, coin.denom⟩ credited = b' := by
  unfold Keeper.Sent at h
  split at h
  · next hzero => exact .inl ⟨Coin.isZero_iff.1 hzero, h⟩
  · next hpos =>
    obtain ⟨hvalidate, hmoved⟩ := transfer_eq_ok.1 h
    rw [if_neg hpos] at hmoved
    obtain ⟨left, hleft, hmoved⟩ := hmoved
    rw [if_neg hne] at hmoved
    obtain ⟨credited, hadd, hb'⟩ := hmoved
    exact .inr ⟨(Coin.validate_eq_ok.1 hvalidate).whole, left, credited,
      (afterDebit_eq_ok.1 hleft).2, hadd, hb'⟩

/-- The account sends a coin to another. -/
theorem paid (h : b.Holds a f) (hsent : Keeper.Sent b a target coin b') (hne : target ≠ a) :
    b'.Holds a fun denom => f denom - coin.valueIn denom := by
  rcases sent_cases hsent hne.symm with ⟨hzero, rfl⟩ | ⟨hwhole, left, credited, hsub, -, rfl⟩
  · refine h.of_eq fun denom => ?_
    rw [Coin.valueIn_of_value_eq_zero hzero, sub_zero]
  · obtain ⟨hheld, hvalue⟩ := h coin.denom
    -- The write for the other account comes second and does not touch this one.
    refine ((h.write _ (Decimal.whole_sub? hheld hwhole hsub)).write_of_ne hne _).of_eq ?_
    intro denom
    rw [Function.update_apply, Decimal.value_sub? hheld hwhole hsub, hvalue, Coin.valueIn]
    by_cases hd : denom = coin.denom
    · rw [if_pos hd, if_pos hd.symm, hd]
      rfl
    · rw [if_neg hd, if_neg (Ne.symm hd), sub_zero]

/-- The account is sent a coin by another. -/
theorem received (h : b.Holds a f) (hsent : Keeper.Sent b source a coin b') (hne : source ≠ a) :
    b'.Holds a fun denom => f denom + coin.valueIn denom := by
  rcases sent_cases hsent hne with ⟨hzero, rfl⟩ | ⟨hwhole, left, credited, -, hadd, rfl⟩
  · refine h.of_eq fun denom => ?_
    rw [Coin.valueIn_of_value_eq_zero hzero, add_zero]
  · obtain ⟨hheld, hvalue⟩ := h coin.denom
    refine ((h.write_of_ne hne left).write _ (Decimal.whole_add? hheld hwhole hadd)).of_eq ?_
    intro denom
    rw [Function.update_apply, Decimal.value_add? hheld hwhole hadd, hvalue, Coin.valueIn]
    by_cases hd : denom = coin.denom
    · rw [if_pos hd, if_pos hd.symm, hd]
      rfl
    · rw [if_neg hd, if_neg (Ne.symm hd), add_zero]

/-! ## Other accounts -/

theorem transfer (h : b.Holds a f) (htransfer : b.transfer source target coin = .ok b')
    (hsource : source ≠ a) (htarget : target ≠ a) : b'.Holds a f := by
  obtain ⟨-, hmoved⟩ := transfer_eq_ok.1 htransfer
  split at hmoved
  · exact hmoved ▸ h
  · obtain ⟨left, -, hmoved⟩ := hmoved
    split at hmoved
    · exact hmoved ▸ h
    · obtain ⟨credited, -, rfl⟩ := hmoved
      exact (h.write_of_ne hsource left).write_of_ne htarget credited

theorem mint (h : b.Holds a f) (hmint : b.mint source coin = .ok b') (hne : source ≠ a) :
    b'.Holds a f := by
  obtain ⟨-, -, balance, -, supply, -, rfl⟩ := mint_eq_ok.1 hmint
  exact (h.setSupply supply).write_of_ne hne balance

theorem burn (h : b.Holds a f) (hburn : b.burn source coin = .ok b') (hne : source ≠ a) :
    b'.Holds a f := by
  obtain ⟨-, left, -, supply, -, rfl⟩ := burn_eq_ok.1 hburn
  exact (h.setSupply supply).write_of_ne hne left

end Holds

end LeaseEscrow.Bank
