import LeaseEscrow.Proofs.Coin
import LeaseEscrow.Proofs.Ledger.Balance
import LeaseEscrow.Proofs.Store.Table

/-!
# Conservation of coins

What accounts hold of a denomination is what was minted of it less what was burned, and no
balance is above that. So a coin that an account has can be credited to any other account:
nothing that a bank holds is too much for one balance (`exists_transfer`).
-/

namespace LeaseEscrow

/-! ## Balances as a table -/

theorem OrderedMap.isTable_entries {κ α : Type} [Ord κ] [Std.LawfulEqOrd κ]
    (m : OrderedMap κ α) : IsTable Prod.fst (fun k => (m.get? k).map (k, ·)) m.entries where
  nodup := by
    rw [List.nodup_iff_pairwise_ne, List.pairwise_map]
    refine m.ascending.imp ?_
    intro e e' hlt heq
    rw [heq] at hlt
    simp at hlt
  mem_iff e := by
    rw [Option.map_eq_some_iff]
    constructor
    · intro he
      exact ⟨e.2, (m.get?_eq_some_iff e.1 e.2).2 he, rfl⟩
    · rintro ⟨x, hx, he⟩
      rw [← he]
      exact (m.get?_eq_some_iff e.1 x).1 hx

namespace Book

/-- What an entry is worth in one denomination. -/
def worth (denom : String) (e : Holding × Decimal) : ℚ :=
  if e.1.denom = denom then e.2.value else 0

/-- What all accounts hold of a denomination. -/
def held (book : Book) (denom : String) : ℚ := (book.balances.entries.map (worth denom)).sum

/-- Balances are positive whole amounts, and in each denomination they come to what was minted
and not burned. -/
structure Balanced (book : Book) : Prop where
  positive : ∀ {h x}, book.balances.get? h = some x → x.Whole ∧ 0 < x.value
  minted : ∀ denom, (book.supply.mintedOf denom).Whole
  burned : ∀ denom, (book.supply.burnedOf denom).Whole ∧ 0 ≤ (book.supply.burnedOf denom).value
  held_eq : ∀ denom, book.held denom =
    (book.supply.mintedOf denom).value - (book.supply.burnedOf denom).value

theorem balanced_empty : Book.Balanced ⟨.empty, .empty⟩ where
  positive := nofun
  minted _ := Decimal.whole_zero
  burned _ := ⟨Decimal.whole_zero, Decimal.value_zero.ge⟩
  held_eq _ := (sub_self _).symm

end Book

namespace Bank

variable {b b' : Bank} {account source target : Account} {coin : Coin} {h : Holding}
  {left credited : Decimal}

/-! ## Single writes -/

/-- A write changes what is held of its denomination by what it changes the balance. -/
theorem held_write (b : Bank) (h : Holding) (x : Decimal) (denom : String) :
    (b.write h x).current.held denom + (if h.denom = denom then (b.amount h).value else 0) =
      b.current.held denom + (if h.denom = denom then x.value else 0) := by
  have hkey : ∀ (m : OrderedMap Holding Decimal) (k : Holding) e,
      (m.get? k).map (k, ·) = some e → e.1 = k := by
    intro m k e he
    obtain ⟨y, -, rfl⟩ := Option.map_eq_some_iff.1 he
    rfl
  have hworth : ∀ bank : Bank,
      (((bank.current.balances.get? h).map (h, ·)).map (Book.worth denom)).getD 0 =
        if h.denom = denom then (bank.amount h).value else 0 := by
    intro bank
    rw [amount]
    cases bank.current.balances.get? h with
    | none =>
      show (0 : ℚ) = if _ then Decimal.zero.value else 0
      rw [Decimal.value_zero, ite_self]
    | some y => rfl
  have hafter : ((b.write h x).amount h).value = x.value := by
    rw [amount_write, if_pos rfl]
    split
    · next hzero => rw [Decimal.isZero_iff.1 hzero, Decimal.value_zero]
    · rfl
  have hsum := (b.current.balances.isTable_entries).sum_add
    ((b.write h x).current.balances.isTable_entries) (hkey _) (hkey _) (i := h) (fun k hk => by
      rw [current_write, OrderedMap.get?_restore, if_neg hk]) (Book.worth denom)
  rw [hworth, hworth, hafter] at hsum
  exact hsum

theorem positive_write (hb : ∀ {k y}, b.current.balances.get? k = some y → y.Whole ∧ 0 < y.value)
    {x : Decimal} (hwhole : x.Whole) (hnonneg : 0 ≤ x.value) {k : Holding} {y : Decimal}
    (hk : (b.write h x).current.balances.get? k = some y) : y.Whole ∧ 0 < y.value := by
  rw [current_write, OrderedMap.get?_restore] at hk
  by_cases hkh : k = h
  · rw [if_pos hkh] at hk
    split at hk
    · cases hk
    · next hzero =>
      cases hk
      exact ⟨hwhole, hnonneg.lt_of_ne fun h0 => hzero (Decimal.isZero_iff.2 h0.symm)⟩
  · rw [if_neg hkh] at hk
    exact hb hk

/-! ## Balances -/

theorem amount_of_positive
    (hb : ∀ {k y}, b.current.balances.get? k = some y → y.Whole ∧ 0 < y.value) (h : Holding) :
    (b.amount h).Whole ∧ 0 ≤ (b.amount h).value := by
  rw [amount]
  cases hget : b.current.balances.get? h with
  | none => exact ⟨Decimal.whole_zero, Decimal.value_zero.ge⟩
  | some x => exact ⟨(hb hget).1, (hb hget).2.le⟩

theorem worth_nonneg
    (hb : ∀ {k y}, b.current.balances.get? k = some y → y.Whole ∧ 0 < y.value) (denom : String) :
    ∀ w ∈ b.current.balances.entries.map (Book.worth denom), (0 : ℚ) ≤ w := by
  intro w hw
  obtain ⟨e, he, rfl⟩ := List.mem_map.1 hw
  unfold Book.worth
  split
  · exact (hb ((OrderedMap.get?_eq_some_iff _ _ _).2 he)).2.le
  · exact le_rfl

/-- No balance is above what all accounts hold. -/
theorem amount_le_held
    (hb : ∀ {k y}, b.current.balances.get? k = some y → y.Whole ∧ 0 < y.value) (h : Holding) :
    (b.amount h).value ≤ b.current.held h.denom := by
  have hworth := worth_nonneg hb h.denom
  rw [amount]
  cases hget : b.current.balances.get? h with
  | none =>
    show Decimal.zero.value ≤ _
    rw [Decimal.value_zero]
    exact List.sum_nonneg hworth
  | some x =>
    refine List.single_le_sum hworth _ (List.mem_map.2 ⟨(h, x), ?_, if_pos rfl⟩)
    exact (OrderedMap.get?_eq_some_iff _ _ _).1 hget

/-- What all accounts hold lies between nothing and what was minted. -/
theorem held_bounds (hb : b.current.Balanced) (denom : String) :
    0 ≤ b.current.held denom ∧
      b.current.held denom ≤ (b.current.supply.mintedOf denom).value := by
  have hheld := hb.held_eq denom
  have hburned := (hb.burned denom).2
  refine ⟨List.sum_nonneg (worth_nonneg hb.positive denom), ?_⟩
  linarith

theorem amount_balanced (hb : b.current.Balanced) (h : Holding) :
    (b.amount h).Whole ∧ 0 ≤ (b.amount h).value := amount_of_positive hb.positive h

/-! ## Operations -/

/-- What is debited from one account and credited to another stays in the bank. -/
theorem Balanced.moved (hb : b.current.Balanced) (hcoin : coin.Valid) (hne : source ≠ target)
    (hle : coin.value ≤ (b.amount ⟨source, coin.denom⟩).value)
    (hleft : (b.amount ⟨source, coin.denom⟩).sub? coin.amount = some left)
    (hcredited : (b.amount ⟨target, coin.denom⟩).add? coin.amount = some credited) :
    ((b.write ⟨source, coin.denom⟩ left).write ⟨target, coin.denom⟩ credited).current.Balanced := by
  have hsource := amount_balanced hb ⟨source, coin.denom⟩
  have htarget := amount_balanced hb ⟨target, coin.denom⟩
  have hleftvalue := Decimal.value_sub? hsource.1 hcoin.whole hleft
  have hcreditedvalue := Decimal.value_add? htarget.1 hcoin.whole hcredited
  have hcoinvalue : coin.amount.value = coin.value := rfl
  have hnonneg := hcoin.nonneg
  have hsupply : ((b.write ⟨source, coin.denom⟩ left).write ⟨target, coin.denom⟩
      credited).current.supply = b.current.supply := by
    rw [current_write, current_write]
  refine ⟨fun hget => ?_, hsupply ▸ hb.minted, hsupply ▸ hb.burned, fun denom => ?_⟩
  · refine positive_write (positive_write hb.positive (Decimal.whole_sub? hsource.1 hcoin.whole
      hleft) ?_) (Decimal.whole_add? htarget.1 hcoin.whole hcredited) ?_ hget
    · linarith
    · linarith [htarget.2]
  · have hfirst := held_write b ⟨source, coin.denom⟩ left denom
    have hsecond := held_write (b.write ⟨source, coin.denom⟩ left) ⟨target, coin.denom⟩ credited
      denom
    have htargetkept : (b.write ⟨source, coin.denom⟩ left).amount ⟨target, coin.denom⟩ =
        b.amount ⟨target, coin.denom⟩ := by
      rw [amount_write, if_neg fun he => hne (congrArg Holding.account he).symm]
    have hheld := hb.held_eq denom
    rw [hsupply, ← hheld]
    rw [htargetkept] at hsecond
    by_cases hdenom : coin.denom = denom
    · simp only [if_pos hdenom] at hfirst hsecond
      linarith
    · simp only [if_neg hdenom] at hfirst hsecond
      linarith

theorem balanced_transfer (hb : b.current.Balanced)
    (h : b.transfer source target coin = .ok b') : b'.current.Balanced := by
  obtain ⟨hvalid, h⟩ := transfer_eq_ok.1 h
  split at h
  · exact h ▸ hb
  · obtain ⟨left, hleft, h⟩ := h
    split at h
    · exact h ▸ hb
    · next hne =>
      obtain ⟨credited, hcredited, rfl⟩ := h
      obtain ⟨hle, hsub⟩ := afterDebit_eq_ok.1 hleft
      exact Balanced.moved hb (Coin.validate_eq_ok.1 hvalid) hne (Decimal.le_iff_value.1 hle) hsub
        hcredited

/-- A balance and the supply of its denomination change by the same. -/
theorem Balanced.supplied (hb : b.current.Balanced) {supply : Supply} {x : Decimal}
    (hwhole : x.Whole) (hnonneg : 0 ≤ x.value) (hminted : ∀ denom, (supply.mintedOf denom).Whole)
    (hburned : ∀ denom, (supply.burnedOf denom).Whole ∧ 0 ≤ (supply.burnedOf denom).value)
    (hsupply : ∀ denom, (supply.mintedOf denom).value - (supply.burnedOf denom).value +
        (if h.denom = denom then (b.amount h).value else 0) =
      (b.current.supply.mintedOf denom).value - (b.current.supply.burnedOf denom).value +
        (if h.denom = denom then x.value else 0)) :
    ((b.setSupply supply).write h x).current.Balanced := by
  have hset : ((b.setSupply supply).write h x).current.supply = supply := by
    rw [current_write, current_setSupply]
  have hheld : ∀ denom, (b.setSupply supply).current.held denom = b.current.held denom := by
    intro denom
    rw [current_setSupply]
    rfl
  refine ⟨fun hget => ?_, hset.symm ▸ hminted, hset.symm ▸ hburned, fun denom => ?_⟩
  · refine positive_write (b := b.setSupply supply) (fun hk => ?_) hwhole hnonneg hget
    rw [current_setSupply] at hk
    exact hb.positive hk
  · have hwrite := held_write (b.setSupply supply) h x denom
    rw [hheld, amount_setSupply] at hwrite
    have hdenom := hsupply denom
    have hbook := hb.held_eq denom
    rw [hset]
    linarith

theorem balanced_mint (hb : b.current.Balanced) (h : b.mint account coin = .ok b') :
    b'.current.Balanced := by
  obtain ⟨hvalid, -, balance, hbalance, supply, hsupply, rfl⟩ := mint_eq_ok.1 h
  have hcoin := Coin.validate_eq_ok.1 hvalid
  have hnonneg := hcoin.nonneg
  have hamount := amount_balanced hb ⟨account, coin.denom⟩
  have hvalue : balance.value = (b.amount ⟨account, coin.denom⟩).value + coin.value :=
    Decimal.value_add? hamount.1 hcoin.whole hbalance
  obtain ⟨total, htotal, hsupply⟩ := bind_eq_ok.1 hsupply
  obtain rfl := pure_eq_ok.1 hsupply
  rw [inRange_eq_ok] at htotal
  have htotalvalue : total.value = (b.current.supply.mintedOf coin.denom).value + coin.value :=
    Decimal.value_add? (hb.minted coin.denom) hcoin.whole htotal
  have hminted : ∀ denom, Supply.mintedOf
      { b.current.supply with minted := b.current.supply.minted.insert coin.denom total } denom =
        if denom = coin.denom then total else b.current.supply.mintedOf denom := by
    intro denom
    rw [Supply.mintedOf, OrderedMap.get?_insert]
    split <;> rfl
  refine Balanced.supplied hb (Decimal.whole_add? hamount.1 hcoin.whole hbalance) ?_
    (fun denom => ?_) hb.burned fun denom => ?_
  · linarith [hamount.2]
  · rw [hminted]
    split
    · exact Decimal.whole_add? (hb.minted coin.denom) hcoin.whole htotal
    · exact hb.minted denom
  · rw [hminted]
    by_cases hdenom : denom = coin.denom
    · rw [if_pos hdenom, if_pos hdenom.symm, if_pos hdenom.symm, hdenom]
      show _ - (b.current.supply.burnedOf coin.denom).value + _ = _
      linarith
    · rw [if_neg hdenom, if_neg (Ne.symm hdenom), if_neg (Ne.symm hdenom)]
      rfl

theorem balanced_burn (hb : b.current.Balanced) (h : b.burn account coin = .ok b') :
    b'.current.Balanced := by
  obtain ⟨hvalid, left, hleft, supply, hsupply, rfl⟩ := burn_eq_ok.1 h
  have hcoin := Coin.validate_eq_ok.1 hvalid
  have hnonneg := hcoin.nonneg
  have hamount := amount_balanced hb ⟨account, coin.denom⟩
  obtain ⟨hle, hsub⟩ := afterDebit_eq_ok.1 hleft
  have hvalue : left.value = (b.amount ⟨account, coin.denom⟩).value - coin.value :=
    Decimal.value_sub? hamount.1 hcoin.whole hsub
  have hlevalue : coin.value ≤ (b.amount ⟨account, coin.denom⟩).value := Decimal.le_iff_value.1 hle
  obtain ⟨total, htotal, hsupply⟩ := bind_eq_ok.1 hsupply
  obtain rfl := pure_eq_ok.1 hsupply
  rw [inRange_eq_ok] at htotal
  have hold := hb.burned coin.denom
  have htotalvalue : total.value = (b.current.supply.burnedOf coin.denom).value + coin.value :=
    Decimal.value_add? hold.1 hcoin.whole htotal
  have hburned : ∀ denom, Supply.burnedOf
      { b.current.supply with burned := b.current.supply.burned.insert coin.denom total } denom =
        if denom = coin.denom then total else b.current.supply.burnedOf denom := by
    intro denom
    rw [Supply.burnedOf, OrderedMap.get?_insert]
    split <;> rfl
  refine Balanced.supplied hb (Decimal.whole_sub? hamount.1 hcoin.whole hsub) ?_ hb.minted
    (fun denom => ?_) fun denom => ?_
  · linarith
  · rw [hburned]
    split
    · exact ⟨Decimal.whole_add? hold.1 hcoin.whole htotal, by linarith [hold.2]⟩
    · exact hb.burned denom
  · rw [hburned]
    by_cases hdenom : denom = coin.denom
    · rw [if_pos hdenom, if_pos hdenom.symm, if_pos hdenom.symm, hdenom]
      show (b.current.supply.mintedOf coin.denom).value - _ + _ = _
      linarith
    · rw [if_neg hdenom, if_neg (Ne.symm hdenom), if_neg (Ne.symm hdenom)]
      rfl

/-! ## Credits -/

/-- What one account holds can be credited to another: both are held within what was minted. -/
theorem exists_credited (hb : b.current.Balanced) (hcoin : coin.Valid) (hne : source ≠ target)
    (hle : coin.value ≤ (b.amount ⟨source, coin.denom⟩).value)
    (hleft : (b.amount ⟨source, coin.denom⟩).sub? coin.amount = some left) :
    ∃ credited, (b.amount ⟨target, coin.denom⟩).add? coin.amount = some credited := by
  have hsource := amount_balanced hb ⟨source, coin.denom⟩
  have htarget := amount_balanced hb ⟨target, coin.denom⟩
  have hleftvalue : left.value = (b.amount ⟨source, coin.denom⟩).value - coin.value :=
    Decimal.value_sub? hsource.1 hcoin.whole hleft
  -- After the debit the other balance is within what is still held.
  have hbound := amount_le_held (positive_write hb.positive (h := ⟨source, coin.denom⟩)
    (Decimal.whole_sub? hsource.1 hcoin.whole hleft) (by linarith)) ⟨target, coin.denom⟩
  have hwrite := held_write b ⟨source, coin.denom⟩ left coin.denom
  rw [if_pos rfl, if_pos rfl] at hwrite
  rw [amount_write, if_neg fun he => hne (congrArg Holding.account he).symm] at hbound
  have hheld := hb.held_eq coin.denom
  have hburned := (hb.burned coin.denom).2
  have hcoinvalue : coin.amount.value = coin.value := rfl
  exact Decimal.exists_add? htarget.1 hcoin.whole (hb.minted coin.denom) htarget.2 hcoin.nonneg
    (by linarith)

/-- An account can send what it has. -/
theorem exists_transfer (target : Account) (hb : b.current.Balanced) (hcoin : coin.Valid)
    (hle : coin.value ≤ (b.amount ⟨source, coin.denom⟩).value) :
    ∃ b', b.transfer source target coin = .ok b' := by
  have hsource := amount_balanced hb ⟨source, coin.denom⟩
  obtain ⟨left, hleft⟩ := Decimal.exists_sub? hsource.1 hcoin.whole hcoin.nonneg hle
  have hdebit := afterDebit_eq_ok.2 ⟨Decimal.le_iff_value.2 hle, hleft⟩
  by_cases hzero : coin.isZero = true
  · exact ⟨b, transfer_eq_ok.2 ⟨Coin.validate_eq_ok.2 hcoin, by rw [if_pos hzero]⟩⟩
  · by_cases hself : source = target
    · refine ⟨b, transfer_eq_ok.2 ⟨Coin.validate_eq_ok.2 hcoin, ?_⟩⟩
      rw [if_neg hzero]
      exact ⟨left, hdebit, by rw [if_pos hself]⟩
    · obtain ⟨credited, hcredited⟩ := exists_credited hb hcoin hself hle hleft
      refine ⟨(b.write ⟨source, coin.denom⟩ left).write ⟨target, coin.denom⟩ credited,
        transfer_eq_ok.2 ⟨Coin.validate_eq_ok.2 hcoin, ?_⟩⟩
      rw [if_neg hzero]
      refine ⟨left, hdebit, ?_⟩
      rw [if_neg hself]
      exact ⟨credited, hcredited, rfl⟩

/-! ## Banks in use -/

/-- The banks that come from an empty one by what hosts can do with a bank. -/
inductive Reached : Bank → Prop where
  | empty : Reached .empty
  | mint {b b' : Bank} {account : Account} {coin : Coin} (hb : Reached b)
      (h : b.mint account coin = .ok b') : Reached b'
  | burn {b b' : Bank} {account : Account} {coin : Coin} (hb : Reached b)
      (h : b.burn account coin = .ok b') : Reached b'
  | transfer {b b' : Bank} {source target : Account} {coin : Coin} (hb : Reached b)
      (h : b.transfer source target coin = .ok b') : Reached b'
  | checkpoint {b : Bank} (hb : Reached b) : Reached (Journaled.checkpoint b)
  | commit {b : Bank} (hb : Reached b) : Reached (Journaled.commit b)
  | revert {b : Bank} (hb : Reached b) : Reached (Journaled.revert b)

/-- A bank in use is balanced, and so is every book that it can go back to. -/
theorem Reached.balanced_all {b : Bank} (hb : b.Reached) : b.Throughout Book.Balanced := by
  induction hb with
  | empty => exact .ofValue Book.balanced_empty
  | mint _ h ih => exact ih.written (balanced_mint ih.1 h) ((writes_mint _ _).snapshots _ _ h)
  | burn _ h ih => exact ih.written (balanced_burn ih.1 h) ((writes_burn _ _).snapshots _ _ h)
  | transfer _ h ih =>
    exact ih.written (balanced_transfer ih.1 h) ((writes_transfer _ _ _).snapshots _ _ h)
  | checkpoint _ ih => exact ih.checkpoint
  | commit _ ih => exact ih.commit
  | revert _ ih => exact ih.revert

theorem Reached.balanced {b : Bank} (hb : b.Reached) : b.current.Balanced := hb.balanced_all.1

end Bank

end LeaseEscrow
