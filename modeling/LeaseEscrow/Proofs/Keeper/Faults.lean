import LeaseEscrow.Proofs.Keeper.Calls
import LeaseEscrow.Proofs.Keeper.Orderly
import LeaseEscrow.Proofs.Keeper.Payouts
import LeaseEscrow.Proofs.Ledger.Operations

/-!
# What can go wrong

An orderly keeper owes no more than it can compute: its records are valid, and no balance is above
what was minted. So whatever it is asked, no number leaves its range, and what may keep a lease that
is stored from being settled is that escrow is short (`nothing_leaves_range`).

Most actions read, check, send once and write. Over a balanced bank they stay in range whatever the
records are (`Secure`). The others divide and multiply amounts, and need that the records are valid.
-/

namespace LeaseEscrow

def Fault.IsRefusal (fault : Fault) : Prop := fault ≠ .outOfRange

def Fault.IsShortage (fault : Fault) : Prop :=
  ∃ needed available, fault = .refused (.insufficientFunds needed available)

theorem Fault.IsShortage.isRefusal {fault : Fault} (h : fault.IsShortage) : fault.IsRefusal := by
  obtain ⟨needed, available, rfl⟩ := h
  exact nofun

/-- A valid coin is refused only when there is not enough of it. -/
theorem Bank.isShortage_of_transfer {b : Bank} {source target : Account} {coin : Coin} {e : Fault}
    (hb : b.current.Balanced) (hcoin : coin.Valid) (h : b.transfer source target coin = .error e) :
    e.IsShortage := by
  have hshort : ¬ coin.amount ≤ b.amount ⟨source, coin.denom⟩ := by
    intro hle
    obtain ⟨b', hb'⟩ := exists_transfer target hb hcoin (Decimal.le_iff_value.1 hle)
    cases h.symm.trans hb'
  have hpositive : coin.isZero ≠ true := by
    intro hzero
    apply hshort
    rw [Decimal.le_iff_value]
    exact (Coin.isZero_iff.1 hzero).trans_le (amount_balanced hb _).2
  rw [transfer, Coin.validate_eq_ok.2 hcoin] at h
  simp only [if_neg hpositive, afterDebit, require, if_neg hshort] at h
  exact ⟨coin.amount, b.amount ⟨source, coin.denom⟩, (Except.error.inj h).symm⟩

namespace Keeper

variable {α β : Type} {k k' k₁ : Keeper Bank} {b : Block} {id : ResourceId} {E : Fault → Prop}

/-- Run from `k`, the action fails with no other faults. -/
def FailsOnly (E : Fault → Prop) (k : Keeper Bank) (a : Action Bank α) : Prop :=
  ∀ e, (k.run a).1 = .error e → E e

theorem FailsOnly.answered {a : Action Bank α} (h : FailsOnly Fault.IsRefusal k a) :
    Answered (k.run a).1 := fun hrange => h _ hrange rfl

theorem FailsOnly.mono {E' : Fault → Prop} {a : Action Bank α} (h : FailsOnly E k a)
    (hE : ∀ {e}, E e → E' e) : FailsOnly E' k a := fun e he => hE (h e he)

theorem FailsOnly.of_ok {a : Action Bank α} {x : α} (h : k.run a = (.ok x, k')) :
    FailsOnly E k a := by
  intro e he
  rw [h] at he
  cases he

theorem FailsOnly.bind {a : Action Bank α} {f : α → Action Bank β} (ha : FailsOnly E k a)
    (hf : ∀ x k₁, k.run a = (.ok x, k₁) → FailsOnly E k₁ (f x)) : FailsOnly E k (a >>= f) := by
  intro e he
  rw [run_bind] at he
  rcases hrun : k.run a with ⟨e' | x, k₁⟩
  · rw [hrun] at he
    apply ha
    rw [hrun]
    exact congrArg Except.error (Except.error.inj he)
  · rw [hrun] at he
    exact hf x k₁ hrun e he

theorem FailsOnly.after {a : Action Bank α} {f : α → Action Bank β} {x : α}
    (ha : k.run a = (.ok x, k₁)) (hf : FailsOnly E k₁ (f x)) : FailsOnly E k (a >>= f) := by
  refine .bind (.of_ok ha) fun x' k' hrun => ?_
  cases ha.symm.trans hrun
  exact hf

theorem FailsOnly.branch {a : Action Bank α} (ha : Tame a) (h : FailsOnly E k a) :
    FailsOnly E k (branch a) := by
  intro e he
  apply h
  rw [← (ha.agree (enter_equiv k)).1]
  rw [run_branch] at he
  generalize k.enter.run a = p at he
  rcases p with ⟨_ | _, _⟩
  · exact he
  · cases he

theorem run_lift_of_ok {x : Except Fault α} {a : α} (h : x = .ok a) :
    k.run (liftM x) = (.ok a, k) := by rw [run_liftM, h]

theorem run_refusal_of_ok {x : Except Refusal α} {a : α} (h : x = .ok a) :
    k.run (liftM x : Action Bank α) = (.ok a, k) := by
  rw [run_liftM_refusal, h]
  rfl

theorem run_read_of_ok {f : Registry → Except Refusal α} {x : α} (h : f k.registry = .ok x) :
    k.run (read f) = (.ok x, k) := run_refusal_of_ok h

theorem FailsOnly.check_bind {x : Except Refusal α} {f : α → Action Bank β}
    (hf : ∀ a, x = .ok a → FailsOnly Fault.IsRefusal k (f a)) :
    FailsOnly Fault.IsRefusal k (liftM x >>= f) := by
  cases x with
  | error cause =>
    rintro e ⟨⟩
    exact nofun
  | ok a => exact .after (run_refusal_of_ok rfl) (hf a rfl)

theorem FailsOnly.read_bind {f : Registry → Except Refusal α} {g : α → Action Bank β}
    (hg : ∀ a, f k.registry = .ok a → FailsOnly Fault.IsRefusal k (g a)) :
    FailsOnly Fault.IsRefusal k (read f >>= g) := FailsOnly.check_bind hg

/-! ## Actions that are secure -/

/-- Over a balanced bank the action stays in range, and it leaves the bank balanced. -/
def Secure (a : Action Bank α) : Prop :=
  ∀ k : Keeper Bank, k.ledger.current.Balanced →
    FailsOnly Fault.IsRefusal k a ∧ (k.run a).2.ledger.current.Balanced

namespace Secure

theorem bind {a : Action Bank α} {f : α → Action Bank β} (ha : Secure a)
    (hf : ∀ x, Secure (f x)) : Secure (a >>= f) := by
  intro k hk
  obtain ⟨hfails, hafter⟩ := ha k hk
  constructor
  · refine hfails.bind fun x k₁ hrun => ?_
    rw [hrun] at hafter
    exact (hf x k₁ hafter).1
  · have hrest : ∀ x, Keeps (fun k => k.ledger.current.Balanced) (f x) := fun x k₁ hk₁ =>
      (hf x k₁ hk₁).2
    exact Keeps.after_bind hafter hrest

theorem of_run {a : Action Bank α}
    (h : ∀ k : Keeper Bank, (k.run a).2.ledger = k.ledger ∧ Answered (k.run a).1) : Secure a := by
  intro k hk
  obtain ⟨hledger, hanswered⟩ := h k
  constructor
  · rintro e he rfl
    exact hanswered he
  · rw [hledger]
    exact hk

theorem pure (x : α) : Secure (pure x) := .of_run fun _ => ⟨rfl, answered_ok x⟩

theorem lift_refusal (x : Except Refusal α) : Secure (liftM x : Action Bank α) := by
  refine .of_run fun k => ?_
  rw [run_liftM_refusal]
  exact ⟨rfl, answered_refusal x⟩

theorem configNow : Secure Keeper.configNow := .of_run fun k => ⟨rfl, answered_ok k.config⟩

theorem read (f : Registry → Except Refusal α) : Secure (Keeper.read f) := by
  refine .of_run fun k => ?_
  rw [run_read]
  exact ⟨rfl, answered_refusal _⟩

theorem change (f : Registry → Except Refusal Registry) : Secure (Keeper.change f) := by
  refine .of_run fun k => ?_
  rw [run_change]
  cases f k.registry with
  | ok r => exact ⟨rfl, answered_ok ()⟩
  | error e => exact ⟨rfl, nofun⟩

theorem emit (b : Block) (kind : EventKind) (id : Option ResourceId) (detail : EventDetail) :
    Secure (Keeper.emit b kind id detail) := .of_run fun _ => ⟨rfl, answered_ok ()⟩

theorem send (source target : Account) (amount : Coin) :
    Secure (Keeper.send source target amount) := by
  intro k hk
  have hanswered : Answered (Ledger.transfer k.ledger source target amount) :=
    Bank.answered_transfer hk
  rw [FailsOnly, run_send]
  split
  · exact ⟨nofun, hk⟩
  · cases htransfer : Ledger.transfer k.ledger source target amount with
    | ok ledger => exact ⟨nofun, Bank.balanced_transfer hk htransfer⟩
    | error e =>
      refine ⟨?_, hk⟩
      rintro _ ⟨⟩ rfl
      exact hanswered htransfer

theorem forM {γ : Type} (l : List γ) {f : γ → Action Bank Unit} (hf : ∀ x, Secure (f x)) :
    Secure (l.forM f) := by
  induction l with
  | nil => exact .pure ()
  | cons x l ih => exact .bind (hf x) fun _ => ih

theorem ite {p : Prop} [Decidable p] {a a' : Action Bank α} (ha : Secure a) (ha' : Secure a') :
    Secure (if p then a else a') := by
  split
  · exact ha
  · exact ha'

end Secure

theorem secure_endLease (id : ResourceId) : Secure (endLease id) :=
  .bind (.change _) fun _ => .bind (.read _) fun _ => .change _

/-! ## Settlement -/

/-- Valid coins are sent unless there are too few of them. -/
theorem short_send {source target : Account} {coin : Coin} (hb : k.ledger.current.Balanced)
    (hcoin : coin.Valid) : FailsOnly Fault.IsShortage k (send source target coin) := by
  intro e he
  rw [run_send] at he
  split at he
  · cases he
  · cases htransfer : Ledger.transfer k.ledger source target coin with
    | ok ledger =>
      rw [htransfer] at he
      cases he
    | error fault =>
      rw [htransfer] at he
      cases he
      exact Bank.isShortage_of_transfer hb hcoin htransfer

/-- What follows a payment goes on over a balanced bank, from the records as they were. -/
theorem FailsOnly.send_bind {source target : Account} {coin : Coin} {f : Unit → Action Bank β}
    (hb : k.ledger.current.Balanced) (hcoin : coin.Valid)
    (hf : ∀ ledger : Bank, ledger.current.Balanced →
      FailsOnly Fault.IsShortage { k with ledger } (f ())) :
    FailsOnly Fault.IsShortage k (send source target coin >>= f) := by
  refine .bind (short_send hb hcoin) fun _ k₁ hrun => ?_
  obtain ⟨ledger, hsent, rfl⟩ := run_send_eq_ok.1 hrun
  exact hf ledger (Bank.balanced_sent hb hsent)

/-- A lease that is stored can be settled at any time, unless escrow is short. -/
theorem short_settleLease (hk : k.Orderly) {l : Lease}
    (hlease : k.registry.market.lease id = some l) (b : Block) :
    FailsOnly Fault.IsShortage k (settleLease b id) := by
  obtain ⟨hl, p, hp⟩ := hk.sound
  have hvalid := (hp.lease hlease).valid
  obtain ⟨x, hx, -⟩ := (hp.lease hlease).owner
  obtain ⟨accrual, haccrual, -⟩ := Lease.exists_accrualAt hvalid b.time
  have hfinish : ∀ {k' : Keeper Bank} (l' : Lease) (paid : Coin), k'.registry = k.registry →
      FailsOnly Fault.IsShortage k' (finishSettlement b id l' paid) := by
    intro k' l' paid hregistry
    obtain ⟨outcome, k'', hrun⟩ :=
      exists_finishSettlement (b := b) (hregistry ▸ hl) (hregistry ▸ hx) l' paid
    exact .of_ok hrun
  refine .after (run_read_of_ok ((Registry.lease_eq_ok hl).2 hlease)) ?_
  refine .after (run_read_of_ok (Registry.params_eq_ok.2 hp.params_eq)) ?_
  refine .after (run_lift_of_ok haccrual) ?_
  cases accrual with
  | none =>
    by_cases hfully : l.isFullySettled = true
    · simp only [if_pos hfully]
      exact hfinish l _ rfl
    · simp only [if_neg hfully]
      exact .of_ok (run_pure k _)
  | some a =>
    obtain ⟨parts, lease, commission, hparts, ⟨hpayment, hfee, hpool⟩, hsettle, hadd⟩ :=
      exists_parts hvalid hp.params_valid haccrual
    refine .after (run_lift_of_ok hparts) ?_
    refine .after (run_configNow k) ?_
    refine .send_bind hk.balanced hpayment fun ledger₁ hb₁ => ?_
    refine .send_bind hb₁ hfee fun ledger₂ hb₂ => ?_
    refine .send_bind hb₂ hpool fun ledger₃ _ => ?_
    refine .after (run_refusal_of_ok hsettle) ?_
    refine .after (run_refusal_of_ok hadd) ?_
    refine .after (run_emit ..) ?_
    exact hfinish lease a.amount rfl

/-- Whether or not it is stored, settling a lease stays in range. -/
theorem inRange_settleLease (hk : k.Orderly) (b : Block) (id : ResourceId) :
    FailsOnly Fault.IsRefusal k (settleLease b id) := by
  cases hlease : k.registry.market.lease id with
  | some l => exact (short_settleLease hk hlease b).mono Fault.IsShortage.isRefusal
  | none =>
    refine .read_bind fun l hread => ?_
    rw [(Registry.lease_eq_notFound hk.sound.1).2 hlease] at hread
    cases hread

/-! ## Release -/

theorem secure_releaseDeposits (b : Block) (id : ResourceId) : Secure (releaseDeposits b id) := by
  refine .bind (.read _) fun x => .bind (.lift_refusal _) fun _ => .ite (.pure _) ?_
  refine .bind .configNow fun config => .bind (.forM _ fun d => .send _ _ _) fun _ => ?_
  exact .bind (.change _) fun _ => .bind (.emit _ _ _ _) fun _ => .pure _

theorem short_refunds {escrow : Account} {deposits : List Deposit}
    (hb : k.ledger.current.Balanced) (hdeposits : ∀ d ∈ deposits, d.amount.Valid) :
    FailsOnly Fault.IsShortage k (deposits.forM fun d => send escrow d.depositor d.amount) := by
  induction deposits generalizing k with
  | nil => exact .of_ok (run_pure k ())
  | cons d deposits ih =>
    refine .send_bind hb (hdeposits d List.mem_cons_self) fun ledger hledger => ?_
    exact ih hledger fun d' hd' => hdeposits d' (List.mem_cons_of_mem _ hd')

/-- The deposits of a closed resource can be released, unless escrow is short. -/
theorem short_releaseDeposits (hk : k.Orderly) {x : Resource}
    (hx : k.registry.market.resource id = some x) (hclosed : x.status = .closed) (b : Block) :
    FailsOnly Fault.IsShortage k (releaseDeposits b id) := by
  obtain ⟨hl, p, hp⟩ := hk.sound
  have hvalid := (hp.resource hx).valid
  refine .after (run_read_of_ok ((Registry.resource_eq_ok hl).2 hx)) ?_
  refine .after (run_refusal_of_ok (require_eq_ok.2 hclosed)) ?_
  by_cases hempty : x.deposits.isEmpty = true
  · rw [if_pos hempty]
    exact .of_ok (run_pure k _)
  · rw [if_neg hempty]
    refine .after (run_configNow k) ?_
    refine .bind (short_refunds hk.balanced fun d hd => (hvalid.deposits d hd).amount)
      fun _ k₁ hrun => ?_
    obtain ⟨ledger, -, rfl⟩ := run_refunds_eq_ok.1 hrun
    obtain ⟨r, hset⟩ : ∃ r, k.registry.setResource { x with deposits := [] } = .ok r := by
      simp only [Registry.setResource, Registry.resource?_eq hl]
      exact ⟨_, rfl⟩
    refine .after (x := ()) (run_change_eq_ok.2 ⟨r, hset, rfl⟩) ?_
    exact .after (run_emit ..) (.of_ok (run_pure ..))

end Keeper

end LeaseEscrow
