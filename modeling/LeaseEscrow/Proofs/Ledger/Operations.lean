import LeaseEscrow.Proofs.Ledger.Conservation

/-!
# Operations of a bank

A host may do with a bank what it likes, in any order: mint, burn, transfer, open checkpoints and
close them, also ones that are not open. Main statement (`supply_is_conserved`): no operation leaves
the range of amounts, one that is refused has written nothing, and the supply verifies, with
balances that are positive and whole.

That a refused operation has written nothing is said of operations that write in place, one write
after the other (`Operation.perform`).
-/

namespace LeaseEscrow.Bank

inductive Operation where
  | mint (account : Account) (coin : Coin)
  | burn (account : Account) (coin : Coin)
  | transfer (source target : Account) (coin : Coin)
  | checkpoint
  | commit
  | revert

/-- The bank that an operation makes of another. -/
def Operation.apply (b : Bank) : Operation → Except Fault Bank
  | mint account coin => b.mint account coin
  | burn account coin => b.burn account coin
  | transfer source target coin => b.transfer source target coin
  | checkpoint => .ok (Journaled.checkpoint b)
  | commit => .ok (Journaled.commit b)
  | revert => .ok (Journaled.revert b)

/-! ## Writing in place -/

/-- A program that writes to a bank in place: what it wrote before a fault stays written. -/
abbrev InPlace := ExceptT Fault (StateM Bank)

/-- The result of a program and the bank after it. -/
def run (b : Bank) (program : InPlace Unit) : Except Fault Unit × Bank :=
  (ExceptT.run program).run b

/-- The writes of an operation, and the checks that come before them. -/
def Operation.perform : Operation → InPlace Unit
  | mint account coin => do
    coin.validate
    let supply := (← get).current.supply
    require ((supply.mintedOf coin.denom).add? coin.amount).isSome
      (.invalidAmount s!"minting {coin} overflows the {coin.denom} supply")
    let balance ← Fault.inRange (((← get).amount ⟨account, coin.denom⟩).add? coin.amount)
    let supply ← supply.recordMint coin.denom coin.amount
    modify (·.setSupply supply)
    modify (·.write ⟨account, coin.denom⟩ balance)
  | burn account coin => do
    coin.validate
    let left ← (← get).afterDebit ⟨account, coin.denom⟩ coin
    let supply ← (← get).current.supply.recordBurn coin.denom coin.amount
    modify (·.setSupply supply)
    modify (·.write ⟨account, coin.denom⟩ left)
  | transfer source target coin => do
    coin.validate
    if coin.isZero then return
    let left ← (← get).afterDebit ⟨source, coin.denom⟩ coin
    if source = target then return
    let credited ← Fault.inRange (((← get).amount ⟨target, coin.denom⟩).add? coin.amount)
    modify (·.write ⟨source, coin.denom⟩ left)
    modify (·.write ⟨target, coin.denom⟩ credited)
  | checkpoint => modify Journaled.checkpoint
  | commit => modify Journaled.commit
  | revert => modify Journaled.revert

variable {α : Type} {b : Bank} {account source target : Account} {coin : Coin} {denom : String}

/-- The bank that was made, or else the bank as it was. -/
def orUnchanged (b : Bank) : Except Fault Bank → Except Fault Unit × Bank
  | .ok b' => (.ok (), b')
  | .error e => (.error e, b)

theorem run_get_bind (f : Bank → InPlace Unit) : b.run (get >>= f) = b.run (f b) := rfl

theorem run_check_bind {x : Except Fault α} {f : α → InPlace Unit} {g : α → Except Fault Bank}
    (h : ∀ a, b.run (f a) = b.orUnchanged (g a)) :
    b.run (liftM x >>= f) = b.orUnchanged (x >>= g) := by
  cases x with
  | error e => rfl
  | ok a => exact h a

theorem run_refusal_bind {x : Except Refusal α} {f : α → InPlace Unit} {g : α → Except Fault Bank}
    (h : ∀ a, b.run (f a) = b.orUnchanged (g a)) :
    b.run (liftM x >>= f) = b.orUnchanged (liftM x >>= g) := by
  cases x with
  | error e => rfl
  | ok a => exact h a

/-- All checks come before the first write, so that in place everything is written or nothing. -/
theorem run_perform (b : Bank) (op : Operation) :
    b.run op.perform = b.orUnchanged (op.apply b) := by
  cases op with
  | mint account coin =>
    refine run_refusal_bind fun _ => ?_
    rw [run_get_bind]
    refine run_refusal_bind fun _ => ?_
    rw [run_get_bind]
    refine run_check_bind fun balance => ?_
    refine run_check_bind fun supply => ?_
    rfl
  | burn account coin =>
    refine run_refusal_bind fun _ => ?_
    rw [run_get_bind]
    refine run_check_bind fun left => ?_
    rw [run_get_bind]
    refine run_check_bind fun supply => ?_
    rfl
  | transfer source target coin =>
    refine run_refusal_bind fun _ => ?_
    split
    · rfl
    · rw [run_get_bind]
      refine run_check_bind fun left => ?_
      split
      · rfl
      · rw [run_get_bind]
        refine run_check_bind fun credited => ?_
        rfl
  | checkpoint => rfl
  | commit => rfl
  | revert => rfl

/-! ## Operations stay in range -/

theorem answered_afterDebit (hb : b.current.Balanced) (hcoin : coin.Valid) :
    Answered (b.afterDebit ⟨account, coin.denom⟩ coin) := by
  have hamount := amount_balanced hb ⟨account, coin.denom⟩
  refine .bind_refusal fun _ hcovered => ?_
  have hle := Decimal.le_iff_value.1 (require_eq_ok.1 hcovered)
  obtain ⟨left, hleft⟩ := Decimal.exists_sub? hamount.1 hcoin.whole hcoin.nonneg hle
  exact answered_inRange hleft

/-- Once the total that is minted fits, so does the balance, which is within it. -/
theorem answered_mint (hb : b.current.Balanced) : Answered (b.mint account coin) := by
  refine .bind_refusal fun _ hvalid => .bind_refusal fun _ hfits => ?_
  have hcoin := Coin.validate_eq_ok.1 hvalid
  have hamount := amount_balanced hb ⟨account, coin.denom⟩
  have hheld := amount_le_held hb.positive ⟨account, coin.denom⟩
  have hminted := (held_bounds hb coin.denom).2
  obtain ⟨total, htotal⟩ := Option.isSome_iff_exists.1 (require_eq_ok.1 hfits)
  have htotalvalue := Decimal.value_add? (hb.minted coin.denom) hcoin.whole htotal
  have htotalwhole := Decimal.whole_add? (hb.minted coin.denom) hcoin.whole htotal
  obtain ⟨balance, hbalance⟩ :=
    Decimal.exists_add? hamount.1 hcoin.whole htotalwhole hamount.2 hcoin.nonneg (by linarith)
  refine .bind (answered_inRange hbalance) fun _ _ => .bind ?_ fun _ _ => answered_ok _
  exact .bind (answered_inRange htotal) fun _ _ => answered_ok _

/-- What is burned is within what is held, and with what was burned before within what was
minted. -/
theorem answered_burn (hb : b.current.Balanced) : Answered (b.burn account coin) := by
  refine .bind_refusal fun _ hvalid => ?_
  have hcoin := Coin.validate_eq_ok.1 hvalid
  refine .bind (answered_afterDebit hb hcoin) fun left hleft => ?_
  have hle := Decimal.le_iff_value.1 (afterDebit_eq_ok.1 hleft).1
  have hheld := amount_le_held hb.positive ⟨account, coin.denom⟩
  have hsum := hb.held_eq coin.denom
  obtain ⟨hwhole, hnonneg⟩ := hb.burned coin.denom
  obtain ⟨total, htotal⟩ :=
    Decimal.exists_add? hwhole hcoin.whole (hb.minted coin.denom) hnonneg hcoin.nonneg (by linarith)
  refine .bind ?_ fun _ _ => answered_ok _
  exact .bind (answered_inRange htotal) fun _ _ => answered_ok _

theorem answered_transfer (hb : b.current.Balanced) : Answered (b.transfer source target coin) := by
  refine .bind_refusal fun _ hvalid => ?_
  have hcoin := Coin.validate_eq_ok.1 hvalid
  split
  · exact answered_ok b
  · refine .bind (answered_afterDebit hb hcoin) fun left hleft => ?_
    obtain ⟨hle, hsub⟩ := afterDebit_eq_ok.1 hleft
    split
    · exact answered_ok b
    · next hne =>
      obtain ⟨credited, hcredited⟩ := exists_credited hb hcoin hne (Decimal.le_iff_value.1 hle) hsub
      exact .bind (answered_inRange hcredited) fun _ _ => answered_ok _

theorem answered_apply (hb : b.current.Balanced) (op : Operation) : Answered (op.apply b) := by
  cases op with
  | mint account coin => exact answered_mint hb
  | burn account coin => exact answered_burn hb
  | transfer source target coin => exact answered_transfer hb
  | checkpoint => exact answered_ok _
  | commit => exact answered_ok _
  | revert => exact answered_ok _

/-! ## The supply verifies -/

/-- Amounts that are not negative have a sum as long as it is not above another whole amount. -/
theorem exists_foldlM_add? {amounts : List Decimal} {start bound : Decimal} (hstart : start.Whole)
    (hnonneg : 0 ≤ start.value) (hamounts : ∀ x ∈ amounts, x.Whole ∧ 0 ≤ x.value)
    (hbound : bound.Whole)
    (hle : start.value + (amounts.map Decimal.value).sum ≤ bound.value) :
    ∃ total, amounts.foldlM (fun total x => Fault.inRange (total.add? x)) start = .ok total ∧
      total.value = start.value + (amounts.map Decimal.value).sum := by
  induction amounts generalizing start with
  | nil => exact ⟨start, rfl, (add_zero _).symm⟩
  | cons x amounts ih =>
    obtain ⟨hx, hx0⟩ := hamounts x List.mem_cons_self
    have hrest : ∀ y ∈ amounts, y.Whole ∧ 0 ≤ y.value := fun y hy =>
      hamounts y (List.mem_cons_of_mem _ hy)
    have hsum : 0 ≤ (amounts.map Decimal.value).sum := by
      refine List.sum_nonneg fun v hv => ?_
      obtain ⟨y, hy, rfl⟩ := List.mem_map.1 hv
      exact (hrest y hy).2
    rw [List.map_cons, List.sum_cons] at hle ⊢
    obtain ⟨next, hnext⟩ := Decimal.exists_add? hstart hx hbound hnonneg hx0 (by linarith)
    have hvalue := Decimal.value_add? hstart hx hnext
    obtain ⟨total, htotal, htotalvalue⟩ := ih (Decimal.whole_add? hstart hx hnext)
      (hvalue ▸ add_nonneg hnonneg hx0) hrest (by linarith)
    refine ⟨total, ?_, by linarith⟩
    rw [List.foldlM_cons, hnext]
    exact htotal

theorem sum_filter_worth (entries : List (Holding × Decimal)) (denom : String) :
    (((entries.filter fun e => e.1.denom == denom).map Prod.snd).map Decimal.value).sum =
      (entries.map (Book.worth denom)).sum := by
  induction entries with
  | nil => rfl
  | cons e entries ih =>
    rw [List.map_cons, List.sum_cons, ← ih, Book.worth, List.filter_cons]
    by_cases hdenom : e.1.denom = denom
    · rw [if_pos (beq_iff_eq.2 hdenom), if_pos hdenom]
      rfl
    · rw [if_neg (mt beq_iff_eq.1 hdenom), if_neg hdenom, zero_add]

theorem exists_totalSupply (hb : b.current.Balanced) (denom : String) :
    ∃ total, b.totalSupply denom = .ok total ∧ total.value = b.current.held denom := by
  have hsum := sum_filter_worth b.current.balances.entries denom
  have hbounds := held_bounds hb denom
  have hamounts : ∀ x ∈ (b.current.balances.entries.filter fun e => e.1.denom == denom).map Prod.snd,
      x.Whole ∧ 0 ≤ x.value := by
    intro x hx
    obtain ⟨e, he, rfl⟩ := List.mem_map.1 hx
    have hpositive := hb.positive ((OrderedMap.get?_eq_some_iff _ _ _).2 (List.mem_filter.1 he).1)
    exact ⟨hpositive.1, hpositive.2.le⟩
  obtain ⟨total, htotal, hvalue⟩ := exists_foldlM_add? Decimal.whole_zero Decimal.value_zero.ge
    hamounts (hb.minted denom) (by rw [hsum, Decimal.value_zero, zero_add]; exact hbounds.2)
  refine ⟨total, ?_, ?_⟩
  · rw [List.foldlM_map] at htotal
    exact htotal
  · rw [hvalue, hsum, Decimal.value_zero, zero_add]
    rfl

theorem verify_eq_ok (hb : b.current.Balanced) {total : Decimal}
    (htotal : total.value = b.current.held denom) :
    b.current.supply.verify denom total = .ok () := by
  obtain ⟨hwhole, hnonneg⟩ := hb.burned denom
  have hheld := hb.held_eq denom
  have hbounds := held_bounds hb denom
  obtain ⟨expected, hexpected⟩ :=
    Decimal.exists_sub? (hb.minted denom) hwhole hnonneg (by linarith)
  have hvalue := Decimal.value_sub? (hb.minted denom) hwhole hexpected
  rw [Supply.verify, Supply.expected, hexpected]
  refine liftM_eq_ok.2 (require_eq_ok.2 (Decimal.equiv_iff_value.2 ?_))
  linarith

theorem verifySupply_eq_ok (hb : b.current.Balanced) : b.verifySupply = .ok () := by
  rw [verifySupply]
  induction b.current.supply.denoms with
  | nil => rfl
  | cons denom denoms ih =>
    obtain ⟨total, htotal, hvalue⟩ := exists_totalSupply hb denom
    rw [List.forM_eq_forM, List.forM_cons, htotal]
    refine bind_eq_ok.2 ⟨(), verify_eq_ok hb hvalue, ih⟩

/-! ## Sequences of operations -/

/-- A new bank after some operations, each of them performed in place whatever came of it. -/
def after (ops : List Operation) : Bank := ops.foldl (fun b op => (b.run op.perform).2) .empty

theorem reached_run {b : Bank} (hb : b.Reached) (op : Operation) : (b.run op.perform).2.Reached := by
  rw [run_perform]
  cases happly : op.apply b with
  | error e => exact hb
  | ok b' =>
    cases op with
    | mint account coin => exact .mint hb happly
    | burn account coin => exact .burn hb happly
    | transfer source target coin => exact .transfer hb happly
    | checkpoint => exact Except.ok.inj happly ▸ .checkpoint hb
    | commit => exact Except.ok.inj happly ▸ .commit hb
    | revert => exact Except.ok.inj happly ▸ .revert hb

theorem reached_after (ops : List Operation) : (after ops).Reached := by
  have hfold : ∀ b : Bank, b.Reached →
      (ops.foldl (fun b op => (b.run op.perform).2) b).Reached := by
    induction ops with
    | nil => exact fun _ hb => hb
    | cons op ops ih => exact fun b hb => ih _ (reached_run hb op)
  exact hfold .empty .empty

/-- After any operations on a new bank: the next one succeeds, or it is refused and the bank stays as
it is, checkpoints and all; the supply verifies; in each denomination all balances add up to what
was minted less what was burned; and every balance is a positive whole number. -/
theorem supply_is_conserved (ops : List Operation) :
    let b := after ops
    (∀ op : Operation, (∃ b', op.apply b = .ok b' ∧ b.run op.perform = (.ok (), b')) ∨
      ∃ cause, op.apply b = .error (.refused cause) ∧
        b.run op.perform = (.error (.refused cause), b)) ∧
    b.verifySupply = .ok () ∧
    (∀ denom, ∃ total, b.totalSupply denom = .ok total ∧ total.value = b.current.held denom ∧
      total.value =
        (b.current.supply.mintedOf denom).value - (b.current.supply.burnedOf denom).value) ∧
    ∀ h x, b.current.balances.get? h = some x → ∃ n : ℕ, 0 < n ∧ x.value = n := by
  intro b
  have hb : b.current.Balanced := (reached_after ops).balanced
  refine ⟨fun op => ?_, verifySupply_eq_ok hb, fun denom => ?_, fun h x hx => ?_⟩
  · rw [run_perform]
    cases happly : op.apply b with
    | ok b' => exact .inl ⟨b', rfl, rfl⟩
    | error e =>
      obtain ⟨cause, rfl⟩ := (answered_apply hb op).refused_of_error happly
      exact .inr ⟨cause, rfl, rfl⟩
  · obtain ⟨total, htotal, hvalue⟩ := exists_totalSupply hb denom
    exact ⟨total, htotal, hvalue, hvalue.trans (hb.held_eq denom)⟩
  · obtain ⟨⟨n, hn⟩, hpos⟩ := hb.positive hx
    rw [hn] at hpos
    have hnpos : 0 < n := Int.cast_pos.1 hpos
    refine ⟨n.toNat, by omega, ?_⟩
    rw [hn, ← Int.cast_natCast, Int.toNat_of_nonneg hnpos.le]

end LeaseEscrow.Bank
