import LeaseEscrow.Keeper.Invariants
import LeaseEscrow.Proofs.Keeper.Accounts
import LeaseEscrow.Proofs.Keeper.Export
import LeaseEscrow.Proofs.Ledger.Conservation

/-!
# Solvency

A keeper is *solvent* when escrow holds at least what its records owe, in a bank whose balances
come to its supply. Whoever is paid, escrow itself included, a payment takes off no more than it
settles, so that a solvent keeper stays solvent; and the check of the invariants passes exactly
for solvent keepers (`checkInvariants_eq_ok`).
-/

namespace LeaseEscrow

namespace Bank

variable {b b' : Bank} {a source target : Account} {coin : Coin}

theorem holds_of_balanced (hb : b.current.Balanced) (a : Account) :
    b.Holds a fun denom => (b.amount ⟨a, denom⟩).value :=
  fun denom => ⟨(amount_balanced hb ⟨a, denom⟩).1, rfl⟩

theorem balanced_sent (hb : b.current.Balanced) (h : Keeper.Sent b source target coin b') :
    b'.current.Balanced := by
  unfold Keeper.Sent at h
  split at h
  · exact h ▸ hb
  · exact balanced_transfer hb h

/-- What is sent from an account to itself stays there. -/
theorem eq_of_sent_self (h : Keeper.Sent b a a coin b') : b' = b := by
  unfold Keeper.Sent at h
  split at h
  · exact h
  · obtain ⟨-, h⟩ := transfer_eq_ok.1 h
    split at h
    · exact h.symm
    · obtain ⟨left, -, h⟩ := h
      rw [if_pos rfl] at h
      exact h.symm

/-- A payment is added to the account that is paid and taken off the one that pays, also where
these are the same. -/
theorem amount_sent (hb : b.current.Balanced) (h : Keeper.Sent b source target coin b')
    (a : Account) (denom : String) :
    (b'.amount ⟨a, denom⟩).value = (b.amount ⟨a, denom⟩).value +
      (if a = target then coin.valueIn denom else 0) -
      (if a = source then coin.valueIn denom else 0) := by
  have hholds := holds_of_balanced hb a
  by_cases hself : source = target
  · subst hself
    rw [eq_of_sent_self h, add_sub_cancel_right]
  by_cases htarget : a = target
  · subst htarget
    rw [if_pos rfl, if_neg (Ne.symm hself), sub_zero]
    exact (hholds.received h hself denom).2
  by_cases hsource : a = source
  · subst hsource
    rw [if_neg htarget, if_pos rfl, add_zero]
    exact (hholds.paid h (Ne.symm htarget) denom).2
  rw [if_neg htarget, if_neg hsource, add_zero, sub_zero]
  unfold Keeper.Sent at h
  split at h
  · rw [h]
  · exact (hholds.transfer h (Ne.symm hsource) (Ne.symm htarget) denom).2

theorem amount_received (hb : b.current.Balanced) (h : Keeper.Sent b source a coin b')
    (hne : source ≠ a) (denom : String) :
    (b'.amount ⟨a, denom⟩).value = (b.amount ⟨a, denom⟩).value + coin.valueIn denom := by
  rw [amount_sent hb h a denom, if_pos rfl, if_neg hne.symm, sub_zero]

/-- No coin of a negative value is sent. -/
theorem valueIn_sent_nonneg (h : Keeper.Sent b source target coin b') (denom : String) :
    0 ≤ coin.valueIn denom := by
  unfold Keeper.Sent at h
  split at h
  · next hzero => rw [Coin.valueIn_of_value_eq_zero (Coin.isZero_iff.1 hzero)]
  · have hnonneg := (Coin.validate_eq_ok.1 (transfer_eq_ok.1 h).1).nonneg
    rw [Coin.valueIn]
    split
    · exact hnonneg
    · exact le_rfl

/-- A payment takes its value off, or nothing when it goes to the payer. -/
theorem le_amount_paid (hb : b.current.Balanced) (h : Keeper.Sent b a target coin b')
    (denom : String) :
    (b.amount ⟨a, denom⟩).value - coin.valueIn denom ≤ (b'.amount ⟨a, denom⟩).value := by
  have hnonneg := valueIn_sent_nonneg h denom
  rw [amount_sent hb h a denom, if_pos rfl]
  split <;> linarith

/-- Nobody but the payer holds less after a payment. -/
theorem le_amount_other (hb : b.current.Balanced) (h : Keeper.Sent b source target coin b')
    (hne : source ≠ a) (denom : String) :
    (b.amount ⟨a, denom⟩).value ≤ (b'.amount ⟨a, denom⟩).value := by
  have hnonneg := valueIn_sent_nonneg h denom
  rw [amount_sent hb h a denom, if_neg hne.symm]
  split <;> linarith

end Bank

/-- A reading that succeeds on every member succeeds on the list. -/
theorem exists_mapM {ε α β γ : Type} {f : α → Except ε β} {v : β → γ} {g : α → γ} {Q : β → Prop}
    {l : List α} (h : ∀ x ∈ l, ∃ y, f x = .ok y ∧ Q y ∧ v y = g x) :
    ∃ ys, l.mapM f = .ok ys ∧ (∀ y ∈ ys, Q y) ∧ ys.map v = l.map g := by
  induction l with
  | nil => exact ⟨[], rfl, fun _ hy => absurd hy List.not_mem_nil, rfl⟩
  | cons x l ih =>
    obtain ⟨y, hy, hQ, hv⟩ := h x List.mem_cons_self
    obtain ⟨ys, hys, hQs, hvs⟩ := ih fun x' hx' => h x' (List.mem_cons_of_mem _ hx')
    refine ⟨y :: ys, ?_, List.forall_mem_cons.2 ⟨hQ, hQs⟩, ?_⟩
    · rw [List.mapM_cons, hy, hys]
      rfl
    · rw [List.map_cons, List.map_cons, hv, hvs]

namespace Keeper

variable {c : Config} {k k' : Keeper Bank}

/-! ## Solvent keepers -/

structure Solvent (c : Config) (k : Keeper Bank) : Prop where
  sound : k.Sound
  config_eq : k.config = c
  balanced : k.ledger.current.Balanced
  covered : ∀ denom, k.registry.owed denom ≤ (k.ledger.amount ⟨c.escrow, denom⟩).value

theorem ofContents_solvent : OfContents (Solvent c) where
  congr {k k'} h hk :=
    { sound := ofContents_sound.congr h hk.sound
      config_eq := h.config ▸ hk.config_eq
      balanced := h.book ▸ hk.balanced
      covered := fun denom => by
        rw [← Registry.owed_congr h.registry, ← Bank.amount_congr h.book]
        exact hk.covered denom }
  events _ hk := ⟨hk.sound, hk.config_eq, hk.balanced, hk.covered⟩

theorem Flow.balanced {a : Account} {payee payer : Account → Prop} {b b' : Bank} {f : String → ℚ}
    (h : Flow a payee payer b b' f) (hb : b.current.Balanced) : b'.current.Balanced := by
  induction h with
  | none b => exact hb
  | paid hsent _ _ ih => exact ih (Bank.balanced_sent hb hsent)
  | received hsent _ _ ih => exact ih (Bank.balanced_sent hb hsent)

/-- A flow that brings in coins of others only leaves at least what it adds up to. -/
theorem Flow.le_amount {a : Account} {payee payer : Account → Prop} {b b' : Bank} {f : String → ℚ}
    (h : Flow a payee payer b b' f) (hb : b.current.Balanced) (hpayer : ∀ s, payer s → s ≠ a)
    (denom : String) :
    (b.amount ⟨a, denom⟩).value + f denom ≤ (b'.amount ⟨a, denom⟩).value := by
  induction h with
  | none b => exact (add_zero _).le
  | paid hsent _ _ ih =>
    have hrest := ih (Bank.balanced_sent hb hsent)
    linarith [Bank.le_amount_paid hb hsent denom]
  | received hsent hsource _ ih =>
    have hrest := ih (Bank.balanced_sent hb hsent)
    linarith [Bank.amount_received hb hsent (hpayer _ hsource) denom]

/-- Accounts that pay nothing hold no less after a flow of coins. -/
theorem Flow.le_amount_other {a other : Account} {payee payer : Account → Prop} {b b' : Bank}
    {f : String → ℚ} (h : Flow a payee payer b b' f) (hb : b.current.Balanced) (hne : other ≠ a)
    (hother : ¬ payer other) (denom : String) :
    (b.amount ⟨other, denom⟩).value ≤ (b'.amount ⟨other, denom⟩).value := by
  induction h with
  | none b => exact le_rfl
  | paid hsent _ _ ih =>
    have hrest := ih (Bank.balanced_sent hb hsent)
    exact (Bank.le_amount_other hb hsent hne.symm denom).trans hrest
  | @received _ _ _ source _ _ hsent hsource _ ih =>
    have hrest := ih (Bank.balanced_sent hb hsent)
    have hpayer : source ≠ other := fun hsame => hother (hsame ▸ hsource)
    exact (Bank.le_amount_other hb hsent hpayer denom).trans hrest

theorem Solvent.accounted (hk : k.Solvent c) {sender : Account → Prop}
    (hsender : ∀ s, sender s → s ≠ c.escrow) (h : Accounted sender k k') : k'.Solvent c := by
  obtain ⟨f, hflow, howed⟩ := h.flow
  rw [hk.config_eq] at hflow
  refine ⟨h.sound, h.config_eq.trans hk.config_eq, hflow.balanced hk.balanced, fun denom => ?_⟩
  linarith [howed denom, hk.covered denom, hflow.le_amount hk.balanced hsender denom]

/-- Coins that come from escrow only leave it solvent. -/
theorem Solvent.paidOut (hk : k.Solvent c) (h : Accounted (fun _ => False) k k') : k'.Solvent c :=
  hk.accounted (fun _ hnone => hnone.elim) h

theorem solvent_next (s : Step) (havoids : s.Avoids c.escrow) (hk : k.Solvent c) :
    (k.next s).Solvent c := by
  refine next_of_accounted ofContents_solvent (fun hk => hk.sound)
    (fun sender _ _ hsender hk h => hk.accounted hsender h) (fun {k ledger} hk h => ?_) s havoids hk
  have hheld := Bank.holds_of_balanced hk.balanced c.escrow
  -- What escrow holds is not touched, and the bank stays balanced.
  have hledger : ledger.current.Balanced ∧
      ledger.Holds c.escrow fun denom => (k.ledger.amount ⟨c.escrow, denom⟩).value := by
    cases h with
    | mint h hne => exact ⟨Bank.balanced_mint hk.balanced h, hheld.mint h hne⟩
    | burn h hne => exact ⟨Bank.balanced_burn hk.balanced h, hheld.burn h hne⟩
    | transfer h hsource htarget =>
      exact ⟨Bank.balanced_transfer hk.balanced h, hheld.transfer h hsource htarget⟩
  refine ⟨hk.sound, hk.config_eq, hledger.1, fun denom => ?_⟩
  exact (hk.covered denom).trans (hledger.2 denom).2.ge

/-! ## The check of the invariants -/

section

variable {L : Type} {k : Keeper L} {p : Params} (hl : k.registry.Laid)
  (hp : k.registry.market.Sound p)

include hl hp

theorem resource_of_mem {x : Resource} (hx : x ∈ k.registry.resourceList) :
    x.Valid ∧ x.pricePerHour.denom = p.denom :=
  (valid_export hl hp).resource x hx

theorem lease_of_mem {l : Lease} (hl' : l ∈ k.registry.leaseList) :
    l.Valid ∧ l.pricePerHour.denom = p.denom := ((valid_export hl hp).lease l hl').1

/-- Deposits are all of the one denomination. -/
theorem depositsIn_of_mem {x : Resource} (hx : x ∈ k.registry.resourceList) {total : Coin}
    (htotal : x.totalDeposit = .ok total) :
    total.Valid ∧ total.denom = p.denom ∧ ∀ denom,
      x.depositsIn denom = if p.denom = denom then total.value else 0 := by
  obtain ⟨hvalid, hdenom⟩ := resource_of_mem hl hp hx
  have hcoins : ∀ c ∈ x.deposits.map Deposit.amount, c.Valid ∧ c.denom = p.denom := by
    intro c hc
    obtain ⟨d, hd, rfl⟩ := List.mem_map.1 hc
    exact ⟨(hvalid.deposits d hd).amount, (hvalid.deposits d hd).denom_eq.trans hdenom⟩
  obtain ⟨htotaldenom, hwhole, -⟩ := Coin.foldlM_add_eq_ok Decimal.whole_zero
    (fun c hc => (hcoins c hc).1.whole) htotal
  have hvalue := Coin.value_sum (fun c hc => (hcoins c hc).1.whole) htotal
  have hnonneg : 0 ≤ total.value := by
    rw [hvalue]
    refine List.sum_nonneg fun v hv => ?_
    obtain ⟨c, hc, rfl⟩ := List.mem_map.1 hv
    exact (hcoins c hc).1.nonneg
  have htotaldenom' : total.denom = p.denom := htotaldenom.trans hdenom
  refine ⟨⟨?_, hnonneg, hwhole⟩, htotaldenom', fun denom => ?_⟩
  · rw [htotaldenom', ← hdenom]
    exact hvalid.price.denom
  · rw [Resource.depositsIn_eq_valueIn hvalid htotal, Coin.valueIn, htotaldenom']

/-- What a lease still owes is all of the one denomination. -/
theorem owedIn_of_mem {l : Lease} (hmem : l ∈ k.registry.leaseList) {left : Coin}
    (hleft : l.unsettled = .ok left) :
    left.Valid ∧ left.denom = p.denom ∧ ∀ denom,
      l.owedIn denom = if p.denom = denom then left.value else 0 := by
  obtain ⟨hvalid, hdenom⟩ := lease_of_mem hl hp hmem
  have hvalue := Lease.value_unsettled hvalid hleft
  have hleftdenom := (Lease.unsettled_eq_ok.1 hleft).1
  have hdenom' : left.denom = p.denom := hleftdenom.trans (hvalid.total_denom.trans hdenom)
  refine ⟨⟨?_, ?_, Lease.whole_unsettled hvalid hleft⟩, hdenom', fun denom => ?_⟩
  · rw [hleftdenom, hvalid.total_denom]
    exact hvalid.price.denom
  · rw [hvalue]
    exact sub_nonneg.2 hvalid.settled_le
  · rw [Lease.owedIn_eq_valueIn hvalid hleftdenom hvalue, Coin.valueIn, hdenom']

/-- The deposits of all resources, as coins of the one denomination. -/
theorem exists_totalDeposits : ∃ parts, k.registry.resourceList.mapM Resource.totalDeposit =
    .ok parts ∧ (∀ c ∈ parts, c.Valid ∧ c.denom = p.denom) ∧
      parts.map Coin.value = k.registry.resourceList.map (·.depositsIn p.denom) := by
  refine exists_mapM fun x hx => ?_
  obtain ⟨total, htotal⟩ := (resource_of_mem hl hp hx).1.summable
  obtain ⟨hvalid, hdenom, hvalue⟩ := depositsIn_of_mem hl hp hx htotal
  exact ⟨total, htotal, ⟨hvalid, hdenom⟩, (hvalue p.denom).symm ▸ (if_pos rfl).symm⟩

/-- What all leases still owe, as coins of the one denomination. -/
theorem exists_unsettledParts : ∃ parts, k.registry.leaseList.mapM Lease.unsettled = .ok parts ∧
    (∀ c ∈ parts, c.Valid ∧ c.denom = p.denom) ∧
      parts.map Coin.value = k.registry.leaseList.map (·.owedIn p.denom) := by
  refine exists_mapM fun l hmem => ?_
  obtain ⟨left, hleft⟩ := Lease.exists_unsettled (lease_of_mem hl hp hmem).1
  obtain ⟨hvalid, hdenom, hvalue⟩ := owedIn_of_mem hl hp hmem hleft
  exact ⟨left, hleft, ⟨hvalid, hdenom⟩, (hvalue p.denom).symm ▸ (if_pos rfl).symm⟩

/-- Nothing is owed in another denomination than that of the parameters. -/
theorem owed_of_ne {denom : String} (hne : p.denom ≠ denom) : k.registry.owed denom = 0 := by
  have hresources : (k.registry.resourceList.map (·.depositsIn denom)).sum = 0 := by
    refine List.sum_eq_zero fun v hv => ?_
    obtain ⟨x, hx, rfl⟩ := List.mem_map.1 hv
    obtain ⟨total, htotal⟩ := (resource_of_mem hl hp hx).1.summable
    exact ((depositsIn_of_mem hl hp hx htotal).2.2 denom).trans (if_neg hne)
  have hleases : (k.registry.leaseList.map (·.owedIn denom)).sum = 0 := by
    refine List.sum_eq_zero fun v hv => ?_
    obtain ⟨l, hmem, rfl⟩ := List.mem_map.1 hv
    obtain ⟨left, hleft⟩ := Lease.exists_unsettled (lease_of_mem hl hp hmem).1
    exact ((owedIn_of_mem hl hp hmem hleft).2.2 denom).trans (if_neg hne)
  rw [Registry.owed, hresources, hleases, add_zero]

/-- The checks of records that come before the sums pass. -/
theorem records_checked :
    requireAll (checkFlag k.registry.leaseList) k.registry.resourceList = .ok () ∧
      requireAll (checkLease k.registry) k.registry.leaseList = .ok () := by
  have hvalid := valid_export hl hp
  constructor
  · exact requireAll_eq_ok.2 fun x hx => require_eq_ok.2 (by
      have hflag := hvalid.flag x hx
      rw [Bool.eq_iff_iff, List.any_eq_true]
      simpa only [decide_eq_true_eq] using hflag)
  · refine requireAll_eq_ok.2 fun l hmem => ?_
    obtain ⟨⟨hlease, -⟩, x, hfind, -⟩ := hvalid.lease l hmem
    rw [checkLease, check_bind_eq_ok, require_eq_ok, require_eq_ok, Registry.hasResource_eq hl]
    refine ⟨?_, Decimal.le_iff_value.2 hlease.settled_le⟩
    have hx := ((Registry.isTable_resources hl).mem_iff x).1 (List.mem_of_find?_eq_some hfind)
    have hid : x.id = l.resourceId := by simpa using List.find?_some hfind
    rw [← hid, hx]
    rfl

end

/-- The check passes exactly when escrow covers what is owed. -/
theorem checkInvariants_eq_ok (hk : k.Sound) (hb : k.ledger.current.Balanced) :
    k.checkInvariants = .ok () ↔
      ∀ denom, k.registry.owed denom ≤ (k.ledger.amount ⟨k.config.escrow, denom⟩).value := by
  obtain ⟨hl, p, hp⟩ := hk
  obtain ⟨deposits, hdeposits, hdvalid, hdvalue⟩ := exists_totalDeposits hl hp
  obtain ⟨parts, hparts, hpvalid, hpvalue⟩ := exists_unsettledParts hl hp
  have howed : k.registry.owed p.denom =
      (deposits.map Coin.value).sum + (parts.map Coin.value).sum := by
    rw [hdvalue, hpvalue]
    rfl
  obtain ⟨hheld, hheld0⟩ := Bank.amount_balanced hb ⟨k.config.escrow, p.denom⟩
  have hrecords := records_checked hl hp
  have hcheck : k.checkInvariants = .ok () ↔
      ∃ total, Coin.sum p.denom deposits = .ok total ∧
        ∃ unsettled, Coin.sum p.denom parts = .ok unsettled ∧
          ∃ owed, total.add unsettled = .ok owed ∧
            owed.amount ≤ k.ledger.amount ⟨k.config.escrow, p.denom⟩ := by
    simp only [checkInvariants, depositsOwed, Registry.resources_eq hl, Registry.leases_eq hl,
      Registry.params_eq_ok.2 hp.params_eq, hrecords, hdeposits, hparts, bind_eq_ok, liftM_eq_ok,
      Refusal.rephrase_eq_ok, require_eq_ok, Except.ok.injEq, exists_eq_left', exists_const,
      true_and]
    rfl
  rw [hcheck]
  constructor
  · rintro ⟨total, htotal, unsettled, hunsettled, owed, hadd, hle⟩ denom
    by_cases hdenom : p.denom = denom
    · have htotalsum := Coin.foldlM_add_eq_ok Decimal.whole_zero
        (fun c hc => (hdvalid c hc).1.whole) htotal
      have hunsettledsum := Coin.foldlM_add_eq_ok Decimal.whole_zero
        (fun c hc => (hpvalid c hc).1.whole) hunsettled
      have hvalue := Coin.value_add htotalsum.2.1 hunsettledsum.2.1 hadd
      have hle' : owed.value ≤ _ := Decimal.le_iff_value.1 hle
      rw [hvalue, Coin.value_sum (fun c hc => (hdvalid c hc).1.whole) htotal,
        Coin.value_sum (fun c hc => (hpvalid c hc).1.whole) hunsettled, ← howed] at hle'
      exact hdenom ▸ hle'
    · rw [owed_of_ne hl hp hdenom]
      exact (Bank.amount_balanced hb _).2
  · intro hcovered
    have hle := hcovered p.denom
    rw [howed] at hle
    have hnonneg : ∀ cs : List Coin, (∀ c ∈ cs, c.Valid ∧ c.denom = p.denom) →
        0 ≤ (cs.map Coin.value).sum := by
      intro cs hcs
      refine List.sum_nonneg fun v hv => ?_
      obtain ⟨c, hc, rfl⟩ := List.mem_map.1 hv
      exact (hcs c hc).1.nonneg
    have hd0 := hnonneg deposits hdvalid
    have hp0 := hnonneg parts hpvalid
    -- Both sums are within what escrow holds, and so is the sum of both.
    obtain ⟨total, htotal, htotaldenom⟩ := Coin.exists_sum hdvalid hheld (by linarith)
    obtain ⟨unsettled, hunsettled, hunsettleddenom⟩ := Coin.exists_sum hpvalid hheld (by linarith)
    have htotalwhole := (Coin.foldlM_add_eq_ok Decimal.whole_zero
      (fun c hc => (hdvalid c hc).1.whole) htotal).2.1
    have hunsettledwhole := (Coin.foldlM_add_eq_ok Decimal.whole_zero
      (fun c hc => (hpvalid c hc).1.whole) hunsettled).2.1
    have htotalvalue := Coin.value_sum (fun c hc => (hdvalid c hc).1.whole) htotal
    have hunsettledvalue := Coin.value_sum (fun c hc => (hpvalid c hc).1.whole) hunsettled
    obtain ⟨amount, hamount⟩ := Decimal.exists_add? htotalwhole hunsettledwhole hheld
      (show 0 ≤ total.value by linarith) (show 0 ≤ unsettled.value by linarith)
      (show total.value + unsettled.value ≤ _ by linarith)
    have hadd : total.add unsettled = .ok ⟨total.denom, amount⟩ :=
      Coin.add_eq_ok.2 ⟨hunsettleddenom.trans htotaldenom.symm, rfl, hamount⟩
    refine ⟨total, htotal, unsettled, hunsettled, _, hadd, Decimal.le_iff_value.2 ?_⟩
    have hvalue := Coin.value_add htotalwhole hunsettledwhole hadd
    show Coin.value ⟨total.denom, amount⟩ ≤ _
    linarith

end Keeper

end LeaseEscrow
