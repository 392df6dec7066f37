import LeaseEscrow.Proofs.Amounts
import LeaseEscrow.Proofs.Decimal.Places
import LeaseEscrow.Proofs.Keeper.Origin

/-!
# Coverage of imported states

A genesis state is checked record by record, and only the deposits of one resource are summed by
its check. The check of the invariants sums over all records, in decimals that have an end. The two
agree on what is imported: all that can be wrong with an accepted state is that escrow does not hold
what the state owes, a sum beyond all decimals included. Main statement
(`imported_state_is_covered_iff`).
-/

namespace LeaseEscrow

namespace Genesis

variable {g : Genesis}

/-- The exact sum of all deposits. -/
def deposited (g : Genesis) : ℚ :=
  (g.resources.map fun x => (x.deposits.map fun d => d.amount.value).sum).sum

/-- The exact sum of what the leases have not settled. -/
def unsettled (g : Genesis) : ℚ := (g.leases.map fun l => l.total.value - l.settled.value).sum

/-- All that escrow is to hold. -/
def owed (g : Genesis) : ℚ := g.deposited + g.unsettled

theorem deposited_plain (g : Genesis) : g.plain.deposited = g.deposited := by
  simp only [deposited, plain, Resource.plain, Deposit.plain, List.map_map, Function.comp_def,
    Coin.value_plain]

theorem unsettled_plain (g : Genesis) : g.plain.unsettled = g.unsettled := by
  simp only [unsettled, plain, Lease.plain, List.map_map, Function.comp_def, Coin.value_plain]

end Genesis

namespace Keeper

variable {L : Type}

section

variable {k : Keeper L} {g : Genesis} (hl : k.registry.Laid) (hlists : k.registry.market.Lists g)
  (hg : g.Valid)

include hl hlists hg

theorem sum_depositsIn_of_lists :
    (k.registry.resourceList.map (·.depositsIn g.params.denom)).sum = g.deposited := by
  have hperm := (Registry.isTable_resources hl).perm hlists.resources
  rw [(hperm.map _).sum_eq, Genesis.deposited]
  refine congrArg List.sum (List.map_congr_left fun x hx => ?_)
  obtain ⟨hvalid, hdenom⟩ := hg.resource x hx
  refine congrArg List.sum (List.map_congr_left fun d hd => ?_)
  exact if_pos ((hvalid.deposits d hd).denom_eq.trans hdenom)

theorem sum_owedIn_of_lists :
    (k.registry.leaseList.map (·.owedIn g.params.denom)).sum = g.unsettled := by
  have hperm := (Registry.isTable_leases hl).perm hlists.leases
  rw [(hperm.map _).sum_eq, Genesis.unsettled]
  refine congrArg List.sum (List.map_congr_left fun l hmem => ?_)
  obtain ⟨⟨hvalid, hdenom⟩, -⟩ := hg.lease l hmem
  rw [Lease.owedIn, Coin.valueIn, Coin.valueIn, if_pos (hvalid.total_denom.trans hdenom),
    if_pos (hvalid.settled_denom.trans hdenom)]

end

/-- What escrow is found to lack: the sums of all deposits and of what all leases have not settled
are told where both have a sum together, and otherwise which of them has none. -/
inductive Shortfall (g : Genesis) (held : Coin) : Fault → Prop
  | uncovered {deposits unsettled : Coin}
      (hdeposits : Coin.Counts g.params.denom g.deposited deposits)
      (hunsettled : Coin.Counts g.params.denom g.unsettled unsettled)
      (short : held.value < g.owed) :
      Shortfall g held (.refused (.invariantViolation
        s!"escrow holds {held} but owes {deposits} in deposits and {unsettled} in leases"))
  | beyond {reason : String} (exceeds : Decimal.capacity ≤ g.owed) :
      Shortfall g held (.refused (unsummed (.invalidAmount reason)))

/-- A part of what is owed that has no coin is beyond all decimals, and so is the whole. -/
theorem Shortfall.of_not_fits {g : Genesis} {held : Coin} {v : ℚ} {reason : String}
    (h : ¬ Coin.Fits v) (h0 : 0 ≤ v) (hle : v ≤ g.owed) :
    Shortfall g held (.refused (unsummed (.invalidAmount reason))) := by
  have hcapacity : (Decimal.capacity : ℚ) ≤ v := not_lt.1 fun hlt => h ⟨h0, hlt⟩
  exact .beyond (hcapacity.trans hle)

/-- Escrow holds less than what it is short of. -/
theorem Shortfall.lt {g : Genesis} {held : Coin} {fault : Fault} (h : Shortfall g held fault) :
    held.value < g.owed := by
  cases h with
  | uncovered _ _ hshort => exact hshort
  | beyond hexceeds =>
    calc held.value < held.value + 1 / 2 := lt_add_of_pos_right _ (by norm_num)
      _ < Decimal.capacity := held.amount.value_add_half_lt
      _ ≤ g.owed := hexceeds

section

variable [Ledger L] {k : Keeper L} {g : Genesis} {p : Params} {deposits parts : List Coin}

/-- Once the records are checked and their amounts read, the sums are compared. -/
theorem checkInvariants_eq (hl : k.registry.Laid) (hp : k.registry.market.Sound p)
    (hdeposits : k.registry.resourceList.mapM Resource.totalDeposit = .ok deposits)
    (hparts : k.registry.leaseList.mapM Lease.unsettled = .ok parts) :
    k.checkInvariants = (do
      let held := Ledger.balance k.ledger k.config.escrow p.denom
      let deposited ← Refusal.rephrase unsummed (Coin.sum p.denom deposits)
      let unsettled ← Refusal.rephrase unsummed (Coin.sum p.denom parts)
      let owed ← Refusal.rephrase unsummed (deposited.add unsettled)
      require (owed.amount ≤ held.amount) (.invariantViolation
        s!"escrow holds {held} but owes {deposited} in deposits and {unsettled} in leases")) := by
  obtain ⟨hflags, hleases⟩ := records_checked hl hp
  rw [checkInvariants, refusal_bind_of_ok (Registry.resources_eq hl),
    refusal_bind_of_ok (Registry.leases_eq hl), refusal_bind_of_ok hflags,
    refusal_bind_of_ok hleases, refusal_bind_of_ok (Registry.params_eq_ok.2 hp.params_eq)]
  show (liftM (Refusal.rephrase unsummed (depositsOwed p.denom k.registry.resourceList)) >>= _ :
    Except Fault Unit) = _
  rw [depositsOwed, bind_of_ok hdeposits]
  refine bind_congr fun deposited => ?_
  rw [bind_of_ok hparts]

/-- The check of a registry that holds what a valid state lists, in plain records. -/
theorem checkInvariants_of_lists (hl : k.registry.Laid) (hlists : k.registry.market.Lists g.plain)
    (hg : g.Valid) :
    (g.owed ≤ (Ledger.balance k.ledger k.config.escrow g.params.denom).value ∧
        k.checkInvariants = .ok ()) ∨
      ∃ fault, k.checkInvariants = .error fault ∧
        Shortfall g (Ledger.balance k.ledger k.config.escrow g.params.denom) fault := by
  have hp := hlists.sound hl hg.plain
  obtain ⟨deposits, hdeposits, hdvalid, hdvalue⟩ := exists_totalDeposits hl hp
  obtain ⟨parts, hparts, hpvalid, hpvalue⟩ := exists_unsettledParts hl hp
  have hcounts : ∀ c : Coin, c.Valid ∧ c.denom = g.params.denom →
      Coin.Counts g.params.denom c.value c := fun c ⟨hvalid, hdenom⟩ => hdenom ▸ hvalid.counts
  have hdcoins : ∀ c ∈ deposits, Coin.Counts g.params.denom c.value c := fun c hc =>
    hcounts c (hdvalid c hc)
  have hpcoins : ∀ c ∈ parts, Coin.Counts g.params.denom c.value c := fun c hc =>
    hcounts c (hpvalid c hc)
  have hdsum : (deposits.map Coin.value).sum = g.deposited :=
    hdvalue ▸ (sum_depositsIn_of_lists hl hlists hg.plain).trans g.deposited_plain
  have hpsum : (parts.map Coin.value).sum = g.unsettled :=
    hpvalue ▸ (sum_owedIn_of_lists hl hlists hg.plain).trans g.unsettled_plain
  have hd0 : 0 ≤ g.deposited := hdsum ▸ Coin.sum_value_nonneg hdcoins
  have hp0 : 0 ≤ g.unsettled := hpsum ▸ Coin.sum_value_nonneg hpcoins
  have hdenom : g.plain.params.denom = g.params.denom := rfl
  rw [checkInvariants_eq hl hp hdeposits hparts, hdenom]
  -- One after the other the sums exist, or what is owed is beyond all decimals.
  rcases (hdsum ▸ Coin.exact_sum hdcoins).refused_or_counts with
    ⟨reason, hdeposited, hexceeds⟩ | ⟨deposited, hdeposited, hdcounts⟩
  · rw [refusal_bind_of_error (Refusal.rephrase_of_error hdeposited)]
    exact .inr ⟨_, rfl, .of_not_fits hexceeds hd0 (le_add_of_nonneg_right hp0)⟩
  rcases (hpsum ▸ Coin.exact_sum hpcoins).refused_or_counts with
    ⟨reason, hunsettled, hexceeds⟩ | ⟨unsettled, hunsettled, hpcounts⟩
  · rw [refusal_bind_of_ok (Refusal.rephrase_eq_ok.2 hdeposited),
      refusal_bind_of_error (Refusal.rephrase_of_error hunsettled)]
    exact .inr ⟨_, rfl, .of_not_fits hexceeds hp0 (le_add_of_nonneg_left hd0)⟩
  rw [refusal_bind_of_ok (Refusal.rephrase_eq_ok.2 hdeposited),
    refusal_bind_of_ok (Refusal.rephrase_eq_ok.2 hunsettled)]
  rcases (Coin.exact_add hdcounts hpcounts).refused_or_counts with
    ⟨reason, hadd, hexceeds⟩ | ⟨owed, hadd, howed⟩
  · rw [refusal_bind_of_error (Refusal.rephrase_of_error hadd)]
    exact .inr ⟨_, rfl, .of_not_fits hexceeds (add_nonneg hd0 hp0) le_rfl⟩
  rw [refusal_bind_of_ok (Refusal.rephrase_eq_ok.2 hadd), require]
  have hcovers : owed.amount ≤ (Ledger.balance k.ledger k.config.escrow g.params.denom).amount ↔
      g.owed ≤ (Ledger.balance k.ledger k.config.escrow g.params.denom).value := by
    rw [Decimal.le_iff_value, Genesis.owed, ← howed.value_eq]
    rfl
  by_cases h : g.owed ≤ (Ledger.balance k.ledger k.config.escrow g.params.denom).value
  · rw [if_pos (hcovers.2 h)]
    exact .inl ⟨h, rfl⟩
  · rw [if_neg (mt hcovers.1 h)]
    exact .inr ⟨_, rfl, .uncovered hdcounts hpcounts (not_le.1 h)⟩

/-- Once a valid state is imported, the check of the invariants passes just when escrow holds what
the state owes, to whatever number that comes. It fails for nothing else, and never leaves its
range. -/
theorem imported_state_is_covered_iff (k : Keeper L) (h : g.validate = .ok ()) :
    ∃ k', k.run (initGenesis g) = (.ok (), k') ∧
      (k'.checkInvariants = .ok () ↔
        g.owed ≤ (Ledger.balance k.ledger k.config.escrow g.params.denom).value) ∧
      ∀ fault, k'.checkInvariants = .error fault →
        Shortfall g (Ledger.balance k.ledger k.config.escrow g.params.denom) fault := by
  have hg := Genesis.validate_eq_ok.1 h
  obtain ⟨r, hrun, hfiled, hlists⟩ := exists_initGenesis k hg
  refine ⟨_, hrun, ?_⟩
  rcases checkInvariants_of_lists (k := { k with registry := r }) hfiled.laid hlists hg with
    ⟨hle, hcheck⟩ | ⟨fault, hcheck, hshort⟩
  · refine ⟨iff_of_true hcheck hle, fun fault hfault => ?_⟩
    cases hcheck.symm.trans hfault
  · refine ⟨iff_of_false (fun hok => ?_) (not_le.2 hshort.lt), fun fault' hfault => ?_⟩
    · cases hcheck.symm.trans hok
    · cases hcheck.symm.trans hfault
      exact hshort

end

end Keeper

namespace Sample

/-- A bank in which nobody but escrow holds anything. -/
def escrowBank (n : UInt64) : Bank :=
  .ofValue {
    balances := .ofList [(⟨config.escrow, "umedia"⟩, .ofUInt64 n)]
    supply := { Supply.empty with minted := .ofList [("umedia", .ofUInt64 n)] } }

theorem value_coins (n : UInt64) : (coins n).value = n.toNat := Decimal.value_ofUInt64 n

theorem owed_state : state.owed = 2020 := by
  simp only [Genesis.owed, Genesis.deposited, Genesis.unsettled, state, activeNode, List.map_cons,
    List.map_nil, List.sum_cons, List.sum_nil, value_coins, UInt64.reduceToNat]
  norm_num

end Sample

namespace Keeper

/-- Two thousand deposited and twenty of a lease to settle are covered to the last unit. -/
theorem coverage_to_the_last_unit :
    (∃ k, (Sample.keeperOver (Sample.escrowBank 2020)).run (initGenesis Sample.state) =
        (.ok (), k) ∧ k.checkInvariants = .ok ()) ∧
      ∃ k, (Sample.keeperOver (Sample.escrowBank 2019)).run (initGenesis Sample.state) =
        (.ok (), k) ∧ k.checkInvariants ≠ .ok () := by
  have henough : Ledger.balance (Sample.escrowBank 2020) Sample.config.escrow "umedia" =
      Sample.coins 2020 := by decide +kernel
  have hshort : Ledger.balance (Sample.escrowBank 2019) Sample.config.escrow "umedia" =
      Sample.coins 2019 := by decide +kernel
  obtain ⟨k, hrun, hcovered, -⟩ :=
    imported_state_is_covered_iff (Sample.keeperOver (Sample.escrowBank 2020)) Sample.validate_state
  obtain ⟨k', hrun', hcovered', -⟩ :=
    imported_state_is_covered_iff (Sample.keeperOver (Sample.escrowBank 2019)) Sample.validate_state
  refine ⟨⟨k, hrun, hcovered.2 ?_⟩, k', hrun', mt hcovered'.1 ?_⟩
  · show _ ≤ (Ledger.balance (Sample.escrowBank 2020) Sample.config.escrow "umedia").value
    have hvalue : (Sample.coins 2020).value = (2020 : ℕ) := Sample.value_coins 2020
    rw [henough, Sample.owed_state, hvalue]
    norm_num
  · show ¬ _ ≤ (Ledger.balance (Sample.escrowBank 2019) Sample.config.escrow "umedia").value
    have hvalue : (Sample.coins 2019).value = (2019 : ℕ) := Sample.value_coins 2019
    rw [hshort, Sample.owed_state, hvalue]
    norm_num

end Keeper

end LeaseEscrow
