import LeaseEscrow.Proofs.Decimal.Share
import LeaseEscrow.Proofs.Keeper.Performed
import LeaseEscrow.Proofs.Sample

/-!
# The initial deposit

The least deposit at registration is the share of the minimum, counted up: the ceiling of it, but
where the product has more digits than fit and is rounded down to the whole number below. Either way
it is at least a unit and at most the minimum, and no registration with less succeeds
(`initial_deposit_is_counted_up`).
-/

namespace LeaseEscrow

open Decimal (raised places capacity)

namespace Params

variable {p : Params} {least : Coin}

/-- The least deposit at registration, by the share of the parameters. -/
structure AsksFor (p : Params) (least : Coin) : Prop where
  denom_eq : least.denom = p.denom
  whole : least.amount.Whole
  value_eq : least.value = raised (p.minDeposit.value * p.initialDepositShare.value)

theorem exists_minInitialDeposit (hp : p.Valid) :
    ∃ least, p.minInitialDeposit = .ok least ∧ p.AsksFor least := by
  obtain ⟨share, hshare, -, hraised⟩ := Decimal.exists_mul?_of_share hp.minDeposit.whole
    hp.minDeposit.nonneg hp.share_pos.le hp.share_le
  refine ⟨⟨p.denom, share.awayFromZero⟩, ?_, rfl, ?_, hraised⟩
  · rw [minInitialDeposit, hshare]
    rfl
  · exact ⟨_, hraised⟩

/-- The least deposit is between a unit and the minimum. -/
theorem AsksFor.bounds (h : p.AsksFor least) (hp : p.Valid) :
    1 ≤ least.value ∧ least.value ≤ p.minDeposit.value := by
  obtain ⟨n, hn⟩ := Coin.exists_natCast hp.minDeposit.whole hp.minDeposit.nonneg
  have hpos : 0 < n := by
    have hpos := hp.minDeposit_pos
    rw [hn] at hpos
    exact_mod_cast hpos
  have hle : n * p.initialDepositShare.value ≤ (n : ℤ) :=
    mul_le_of_le_one_right (Nat.cast_nonneg n) hp.share_le
  rw [h.value_eq, hn]
  constructor
  · exact_mod_cast Decimal.one_le_raised_of_share hpos hp.share_pos
  · exact_mod_cast Decimal.raised_le_of_le hle

/-- When all digits fit, the least deposit is the ceiling of the share. -/
theorem AsksFor.exact (h : p.AsksFor least) (hp : p.Valid)
    (hfits : p.minDeposit.value * p.initialDepositShare.magnitude < capacity) :
    least.value = ⌈p.minDeposit.value * p.initialDepositShare.value⌉ := by
  obtain ⟨n, hn⟩ := Coin.exists_natCast hp.minDeposit.whole hp.minDeposit.nonneg
  rw [hn] at hfits
  rw [h.value_eq, hn, (Decimal.exact_share hp.share_pos.le (by exact_mod_cast hfits)).2]

end Params

namespace Keeper

variable {L : Type} [Ledger L] {k k' : Keeper L} {b : Block} {p : Params} {least : Coin}

/-- What is registered has been checked against the least deposit of the time. -/
theorem least_le_deposit {m : Message.RegisterResource} {reply : Reply.Registered}
    (hp : k.registry.params = .ok p) (hleast : p.minInitialDeposit = .ok least)
    (h : k.run (registerResource b m) = (.ok reply, k')) :
    m.deposit.denom = p.denom ∧ least.value ≤ m.deposit.value := by
  obtain ⟨-, k₁, hperform, -⟩ := (run_handle_eq_ok b (m := .register m)).1 h
  cases registers_of_run hperform with
  | steps hparams _ hdenom hleast' henough =>
    obtain rfl := Except.ok.inj (hp.symm.trans hparams)
    obtain rfl := Except.ok.inj (hleast.symm.trans hleast')
    exact ⟨hdenom, Decimal.le_iff_value.1 henough⟩

end Keeper

/-- There is a least deposit at registration, which is the share of the minimum counted up. Where all
digits fit it is the ceiling, and it never falls short of the share by more than half a unit of the
last place. No keeper with these parameters registers a resource for less. -/
theorem initial_deposit_is_counted_up {L : Type} [Ledger L] {p : Params} (hp : p.validate = .ok ()) :
    ∃ least, p.minInitialDeposit = .ok least ∧ least.denom = p.denom ∧ least.amount.Whole ∧
      least.value = raised (p.minDeposit.value * p.initialDepositShare.value) ∧
      (p.minDeposit.value * p.initialDepositShare.magnitude < capacity →
        least.value = ⌈p.minDeposit.value * p.initialDepositShare.value⌉) ∧
      2 * (p.minDeposit.value * p.initialDepositShare.value - least.value) *
        tenPow (places (p.minDeposit.value * p.initialDepositShare.value)) ≤ 1 ∧
      1 ≤ least.value ∧ least.value ≤ p.minDeposit.value ∧
      ∀ (k k' : Keeper L) (b : Block) (m : Message.RegisterResource) (reply : Reply.Registered),
        k.registry.params = .ok p → k.run (Keeper.registerResource b m) = (.ok reply, k') →
        m.deposit.denom = least.denom ∧ least.value ≤ m.deposit.value := by
  have hp := Params.validate_eq_ok.1 hp
  obtain ⟨least, hleast, h⟩ := Params.exists_minInitialDeposit hp
  obtain ⟨hone, hle⟩ := h.bounds hp
  refine ⟨least, hleast, h.denom_eq, h.whole, h.value_eq, h.exact hp, ?_, hone, hle, ?_⟩
  · rw [h.value_eq]
    exact Decimal.le_raised _
  · intro k k' b m reply hparams hrun
    rw [h.denom_eq]
    exact Keeper.least_le_deposit hparams hleast hrun

namespace Sample

/-- A minimum of 13, of which eight thirteenths are due at registration. -/
def eightThirteenths : Params :=
  { Params.default with
    minDeposit := coins 13
    initialDepositShare := .ofSmallestUnits 6153846153846153846153846154 (by decide) }

end Sample

/-- With the parameters at the start, a hundred of the thousand are due. -/
theorem a_tenth_is_due :
    ∃ least reply k', Params.default.minInitialDeposit = .ok least ∧
      least.value = 100 ∧
      Sample.keeper.run (Keeper.registerResource (Sample.block 0)
        { Sample.registration with deposit := Sample.coins 100 }) = (.ok reply, k') ∧
      least.value ≤ (Sample.coins 100).value := by
  obtain ⟨least, hleast, -, -, -, hexact, -, -, -, hregistered⟩ := initial_deposit_is_counted_up
    (L := Bank) (by decide +kernel : Params.default.validate = .ok ())
  have hvalue : least.value = 100 := (hexact (by decide +kernel)).trans (by decide +kernel)
  obtain ⟨reply, k', hrun⟩ : ∃ reply k', Sample.keeper.run (Keeper.registerResource (Sample.block 0)
      { Sample.registration with deposit := Sample.coins 100 }) = (.ok reply, k') := by
    refine ⟨⟨Sample.nodeId, .pending⟩, _, Prod.ext ?_ rfl⟩
    decide +kernel
  exact ⟨least, reply, k', hleast, hvalue, hrun,
    (hregistered _ _ _ _ _ (by decide +kernel) hrun).2⟩

/-- Eight thirteenths of 13, in 28 digits, are above 8, but the product has no room for its last
digit. So 8 are enough, where the ceiling is 9. -/
theorem eight_thirteenths_are_rounded_down :
    Sample.eightThirteenths.validate = .ok () ∧
      Sample.eightThirteenths.minInitialDeposit = .ok (Sample.coins 8) ∧
      ⌈13 * Sample.eightThirteenths.initialDepositShare.value⌉ = 9 ∧
      (Sample.coins 8).value < 13 * Sample.eightThirteenths.initialDepositShare.value ∧
      (({ Sample.keeper with registry := Registry.empty.setParams Sample.eightThirteenths } :
          Keeper Bank).run (Keeper.registerResource (Sample.block 0)
            { Sample.registration with deposit := Sample.coins 8 })).1 =
        .ok ⟨Sample.nodeId, .pending⟩ := by
  decide +kernel

end LeaseEscrow
