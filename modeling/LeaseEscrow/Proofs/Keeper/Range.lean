import LeaseEscrow.Proofs.Keeper.InitialDeposit
import LeaseEscrow.Proofs.Keeper.Passes
import LeaseEscrow.Proofs.Refusals

/-!
# Nothing leaves its range

The records of an orderly keeper are valid, and no balance is above what was minted. So whatever it
is asked, no number leaves its range: not in a handler, not in a block at any time, not in a query
(`nothing_leaves_range`). All that can keep a lease from being settled, or a deposit from being
released, is that escrow is short.

Two things are up to the host. Parameters have to have shares that can be added, and the id counter
has to come to an id that is free.
-/

namespace LeaseEscrow

namespace Keeper

/-- From the value of the counter on, all ids are taken, below the largest word. -/
def Exhausted (k : Keeper Bank) : Prop :=
  ∀ n, k.registry.nextId ≤ n → n < largestWord → k.registry.hasResource (.ofCounter n) = true

end Keeper

/-- The two shares of the commission have a sum. -/
def Distribution.HasSum (d : Distribution) : Prop := (d.feeCollector.add? d.communityPool).isSome

/-- What the request asks to add has a sum, and there is an id when it asks for one. -/
def Request.Calculable {α : Type} (k : Keeper Bank) : Request α → Prop
  | .register m => m.id = none → ¬ k.Exhausted
  | .setParams m => m.params.distribution.HasSum
  | _ => True

namespace Keeper

variable {α : Type} {k k' k₁ : Keeper Bank} {b : Block} {id : ResourceId}

/-! ## Requests -/

section

variable (b)

theorem secure_checkPrice (price : Option Coin) : Secure (checkPrice price) := by
  cases price with
  | none => exact .pure ()
  | some price => exact .bind (.read _) fun params => .lift_refusal _

theorem secure_performUpdate (m : Message.UpdateResource) : Secure (performUpdate b m) := by
  refine .bind (.read _) fun old => .bind (.lift_refusal _) fun _ => ?_
  refine .bind (.lift_refusal _) fun _ => .bind (secure_checkPrice _) fun _ => ?_
  refine .bind (.lift_refusal _) fun _ => .bind (.change _) fun _ => ?_
  exact .bind (.lift_refusal _) fun detail => .emit _ _ _ _

theorem secure_performDeposit (m : Message.AddDeposit) : Secure (performDeposit b m) := by
  refine .bind (.read _) fun params => .bind (.read _) fun old => ?_
  refine .bind (.lift_refusal _) fun _ => .bind (.lift_refusal _) fun _ => ?_
  refine .bind .configNow fun config => .bind (.send _ _ _) fun _ => ?_
  refine .bind (.lift_refusal _) fun total => .bind (.lift_refusal _) fun x => ?_
  exact .bind (.change _) fun _ => .bind (.emit _ _ _ _) fun _ => .pure _

theorem secure_performLease (m : Message.TakeLease) : Secure (performLease b m) := by
  refine .bind (.read _) fun params => .bind (.read _) fun x => ?_
  refine .bind (.lift_refusal _) fun _ => .bind (.lift_refusal _) fun _ => ?_
  refine .bind (.lift_refusal _) fun _ => .bind (.lift_refusal _) fun cost => ?_
  refine .bind (.lift_refusal _) fun _ => .bind .configNow fun config => ?_
  refine .bind (.send _ _ _) fun _ => .bind (.lift_refusal _) fun l => ?_
  refine .bind (.change _) fun _ => .bind (.change _) fun _ => ?_
  exact .bind (.emit _ _ _ _) fun _ => .pure _

theorem secure_performExtension (m : Message.ExtendLease) : Secure (performExtension b m) := by
  refine .bind (.read _) fun params => .bind (.read _) fun old => ?_
  refine .bind (.lift_refusal _) fun _ => .bind (.lift_refusal _) fun _ => ?_
  refine .bind (.lift_refusal _) fun cost => .bind (.lift_refusal _) fun _ => ?_
  refine .bind (.lift_refusal _) fun l => .bind .configNow fun config => ?_
  refine .bind (.send _ _ _) fun _ => .bind (.change _) fun _ => ?_
  exact .bind (.emit _ _ _ _) fun _ => .pure _

theorem secure_performClosing (m : Message.CloseResource) : Secure (performClosing b m) := by
  refine .bind (.read _) fun old => .bind (.lift_refusal _) fun _ => ?_
  refine .bind (.lift_refusal _) fun _ => .bind (.lift_refusal _) fun _ => ?_
  refine .bind (.lift_refusal _) fun x => .bind (.change _) fun _ => ?_
  exact .bind (.lift_refusal _) fun detail => .emit _ _ _ _

theorem secure_performParamsUpdate (m : Message.UpdateParams) :
    Secure (performParamsUpdate b m) := by
  refine .bind .configNow fun config => .bind (.lift_refusal _) fun _ => ?_
  refine .bind (.read _) fun params => ?_
  have htail : Secure (do
      change fun r => return r.setParams m.params
      emit b .paramsUpdated none .params) := .bind (.change _) fun _ => .emit _ _ _ _
  refine .ite ?_ htail
  exact .bind (.read _) fun _ => .bind (.lift_refusal _) fun _ => htail

end

theorem inRange_chooseId {chosen : Option ResourceId} (hid : chosen = none → ¬ k.Exhausted) :
    FailsOnly Fault.IsRefusal k (chooseId chosen) := by
  cases chosen with
  | some id => exact .read_bind fun stored _ => .check_bind fun _ _ => .of_ok (run_pure k id)
  | none =>
    cases hfirst : k.registry.firstFree? k.registry.nextId with
    | none => exact absurd (Registry.taken_of_firstFree? hfirst) (hid rfl)
    | some n =>
      have hrun : k.run allocateId =
          (.ok (.ofCounter n), { k with registry := k.registry.setNextId (n + 1) }) := by
        rw [run_allocateId, hfirst]
      exact .of_ok hrun

theorem inRange_registration (hk : k.Orderly) {m : Message.RegisterResource}
    (hid : m.id = none → ¬ k.Exhausted) :
    FailsOnly Fault.IsRefusal k (performRegistration b m) := by
  obtain ⟨hl, p, hp⟩ := hk.sound
  obtain ⟨least, hleast, -⟩ := Params.exists_minInitialDeposit hp.params_valid
  have hrest : ∀ id, Secure (do
      send m.sender (← configNow).escrow m.deposit
      (registered b m p id).validate
      change (·.setResource (registered b m p id))
      emit b .resourceRegistered (some id) (← detailOf (registered b m p id))
      return ⟨id, (registered b m p id).status⟩ : Action Bank Reply.Registered) := by
    intro id
    refine .bind .configNow fun config => .bind (.send _ _ _) fun _ => ?_
    refine .bind (.lift_refusal _) fun _ => .bind (.change _) fun _ => ?_
    exact .bind (.lift_refusal _) fun detail => .bind (.emit _ _ _ _) fun _ => .pure _
  refine .after (run_read_of_ok (Registry.params_eq_ok.2 hp.params_eq)) ?_
  refine .check_bind fun _ _ => .check_bind fun _ _ => .after (run_lift_of_ok hleast) ?_
  refine .check_bind fun _ _ => .bind (inRange_chooseId hid) fun id k₁ hrun => ?_
  obtain ⟨nextId, -, hturned⟩ := chooseId_done hl hrun
  exact (hrest id k₁ (hturned.ledger_eq ▸ hk.balanced)).1

theorem inRange_refundLease (hk : k.Orderly) (id : ResourceId) :
    FailsOnly Fault.IsRefusal k (refundLease id) := by
  obtain ⟨hl, p, hp⟩ := hk.sound
  refine .read_bind fun l hlease => ?_
  obtain ⟨left, hleft⟩ :=
    Lease.exists_unsettled (hp.lease ((Registry.lease_eq_ok hl).1 hlease)).valid
  have hrest : Secure (do
      send (← configNow).escrow l.lessee left
      endLease id
      return left) := .bind .configNow fun config => .bind (.send _ _ _) fun _ =>
    .bind (secure_endLease id) fun _ => .pure _
  exact .after (run_lift_of_ok hleft) (hrest k hk.balanced).1

theorem inRange_cancellation (hk : k.Orderly) (b : Block) (m : Message.CancelLease) :
    FailsOnly Fault.IsRefusal k (performCancellation b m) := by
  refine .read_bind fun l _ => .check_bind fun _ _ => ?_
  refine .bind (inRange_settleLease hk b m.id) fun outcome k₁ hsettle => ?_
  have hk₁ := orderly_settleLease b m.id k outcome k₁ hk hsettle
  have hrefund : FailsOnly Fault.IsRefusal k₁ (refundRest m.id (.zero l.total.denom) outcome) := by
    cases outcome with
    | completed paid => exact .of_ok (run_pure k₁ _)
    | idle => exact inRange_refundLease hk₁ m.id
    | settled paid => exact inRange_refundLease hk₁ m.id
  exact .bind hrefund fun refunded k₂ _ => .after (run_emit ..) (.of_ok (run_pure ..))

theorem inRange_perform (hk : k.Orderly) (b : Block) {m : Request α} (hm : m.Calculable k) :
    FailsOnly Fault.IsRefusal k (m.perform b) := by
  cases m with
  | register m => exact inRange_registration hk hm
  | update m => exact (secure_performUpdate b m k hk.balanced).1
  | deposit m => exact (secure_performDeposit b m k hk.balanced).1
  | lease m => exact (secure_performLease b m k hk.balanced).1
  | extend m => exact (secure_performExtension b m k hk.balanced).1
  | cancel m => exact inRange_cancellation hk b m
  | close m => exact (secure_performClosing b m k hk.balanced).1
  | setParams m => exact (secure_performParamsUpdate b m k hk.balanced).1

theorem answered_validate {p : Params} (h : p.distribution.HasSum) : Answered p.validate := by
  intro hout
  have hp := p.checked_validate.outOfRange.1 hout
  have hsum := Decimal.exists_add?_iff hp.bounded.feeCollector_nonneg hp.bounded.communityPool_nonneg
  exact hp.capacity_le.not_gt (hsum.1 (Option.isSome_iff_exists.1 h))

theorem answered_check {m : Request α} (hm : m.Calculable k) : Answered m.check := by
  cases m with
  | setParams m => exact answered_validate hm
  | _ => exact answered_refusal _

/-- Every request is answered. -/
theorem answered_handle (hk : k.Orderly) (b : Block) {m : Request α} (hm : m.Calculable k) :
    Answered (k.run (m.handle b)).1 := by
  rw [Request.handle_eq, run_bind, run_liftM]
  cases hcheck : m.check with
  | error e =>
    have hanswered : Answered m.check := answered_check hm
    rw [hcheck] at hanswered
    exact fun h => hanswered (congrArg Except.error (Except.error.inj h))
  | ok _ => exact ((inRange_perform hk b hm).branch (tame_perform b m)).answered

/-! ## Blocks -/

/-- Every block is settled or refused. -/
theorem answered_beginBlock (hk : k.Orderly) (e : Engine) (b : Block) :
    Answered (k.run (e.beginBlock b)).1 := by
  by_cases hnew : e.lastHeight.all (· < b.height) = true
  · obtain ⟨report, _, _, k', hrun, -⟩ := exists_processed hk hnew
    rw [hrun]
    exact answered_ok _
  · rw [run_beginBlock_of_old hnew]
    exact nofun

/-- An orderly keeper where the lease of `id` is stored. -/
structure Leases (id : ResourceId) (k : Keeper Bank) : Prop where
  orderly : k.Orderly
  lease : ∃ l, k.registry.market.lease id = some l

theorem ofContents_leases : OfContents (Leases id) where
  congr h hk := ⟨ofContents_orderly.congr h hk.orderly, Registry.market_congr h.registry ▸ hk.lease⟩
  events events hk := ⟨ofContents_orderly.events events hk.orderly, hk.lease⟩

theorem leases_settleLease {j : ResourceId} (b : Block) (hne : j ≠ id) :
    KeepsOk (Leases id) (settleLease b j) := by
  intro k outcome k' hk h
  obtain ⟨l, hl⟩ := hk.lease
  have hstanding : Standing k.config id (some l) k := ⟨hk.orderly.sound, rfl, hl⟩
  exact ⟨orderly_settleLease b j k outcome k' hk.orderly h, l,
    (standing_settleLease b hne k outcome k' hstanding h).lease_eq⟩

/-- An orderly keeper where the resource of `id` is closed. -/
structure Retired (id : ResourceId) (k : Keeper Bank) : Prop where
  orderly : k.Orderly
  closed : k.Closed id

theorem ofContents_retired : OfContents (Retired id) where
  congr h hk := ⟨ofContents_orderly.congr h hk.orderly, ofContents_closed.congr h hk.closed⟩
  events events hk :=
    ⟨ofContents_orderly.events events hk.orderly, ofContents_closed.events events hk.closed⟩

theorem retired_releaseDeposits {j : ResourceId} (b : Block) (hne : j ≠ id) :
    KeepsOk (Retired id) (releaseDeposits b j) := fun k refunds k' hk h =>
  ⟨orderly_releaseDeposits b j k refunds k' hk.orderly h,
    keepsOk_closed_release hne k refunds k' hk.closed h⟩

/-- All that fails in a block fails because escrow is short. -/
theorem Processed.short {settled : Attempts Outcome}
    {released : Attempts (List (Account × Coin))} (h : Processed b settled released k k')
    (hk : k.Orderly) :
    ∀ f ∈ settled.failures .settleLeases ++ released.failures .releaseDeposits,
      (Fault.refused f.cause).IsShortage := by
  obtain ⟨k₁, hsettle, hrelease⟩ := h.passes
  have hk₁ : k₁.Orderly := hsettle.keeps ofContents_orderly (fun id =>
    ofContents_orderly.recoverable.branch (built_settleLease b id) (orderly_settleLease b id)) hk
  have hshort₁ : ∀ f ∈ settled.failures .settleLeases, (Fault.refused f.cause).IsShortage := by
    refine hsettle.short (built_settleLease b) (Q := Leases)
      (fun hk => let ⟨l, hlease⟩ := hk.lease; short_settleLease hk.orderly hlease b)
      (fun _ => ofContents_leases)
      (fun {i j} hne => ofContents_leases.recoverable.branch (built_settleLease b i)
        (leases_settleLease b hne)) h.leases_ascending.nodup fun id hid => ⟨hk, ?_⟩
    rw [h.leases, Registry.hasLease_eq hk.sound.1] at hid
    exact Option.isSome_iff_exists.1 hid
  have hshort₂ : ∀ f ∈ released.failures .releaseDeposits,
      (Fault.refused f.cause).IsShortage := by
    refine hrelease.short (built_releaseDeposits b) (Q := Retired)
      (fun hk => let ⟨x, hx, hclosed⟩ := hk.closed.closed
        short_releaseDeposits hk.orderly hx hclosed b)
      (fun _ => ofContents_retired)
      (fun {i j} hne => ofContents_retired.recoverable.branch (built_releaseDeposits b i)
        (retired_releaseDeposits b hne)) h.deposits_ascending.nodup fun id hid => ?_
    rw [h.deposits, ← hsettle.isDue_iff hk.sound] at hid
    obtain ⟨p, x, -, hx, hdue⟩ := hid
    exact ⟨hk₁, hk₁.sound, x, (Registry.resource_eq_ok hk₁.sound.1).1 hx, closed_of_isDue hdue⟩
  intro f hf
  exact (List.mem_append.1 hf).elim (hshort₁ f) (hshort₂ f)

/-! ## Queries -/

theorem answered_checkInvariants (hk : k.Orderly) : Answered k.checkInvariants := by
  obtain ⟨hl, p, hp⟩ := hk.sound
  obtain ⟨parts, hparts, -⟩ := exists_unsettledParts hl hp
  refine .bind_refusal fun resources _ => .bind_refusal fun leases hleases => ?_
  obtain rfl := Except.ok.inj ((Registry.leases_eq hl).symm.trans hleases)
  refine .bind_refusal fun _ _ => .bind_refusal fun _ _ => .bind_refusal fun params _ => ?_
  refine .bind_refusal fun deposits _ => .bind (answered_of_eq_ok hparts) fun _ _ => ?_
  exact .bind_refusal fun unsettled _ => .bind_refusal fun owed _ => answered_refusal _

/-- Every query is answered. -/
theorem answered_answer (hk : k.Orderly) (q : Query α) : Answered (k.answer q) := by
  cases q with
  | events => exact answered_ok _
  | balance account denom => exact answered_ok _
  | totalSupply denom =>
    obtain ⟨total, htotal, -⟩ := Bank.exists_totalSupply hk.balanced denom
    exact answered_of_eq_ok htotal
  | verifySupply => exact answered_of_eq_ok (Bank.verifySupply_eq_ok hk.balanced)
  | invariants => exact answered_checkInvariants hk
  | _ => exact answered_refusal _

end Keeper

/-! ## Leases -/

/-- All that is computed of the lease has a result at any time, and what accrues can be recorded. -/
structure Lease.InRange (l : Lease) : Prop where
  unsettled : ∃ left, l.unsettled = .ok left
  remainingHours : ∃ hours, l.remainingHours = .ok hours
  accrual : ∀ t, ∃ accrual, l.accrualAt t = .ok accrual ∧
    ∀ a, accrual = some a → ∃ l', l.settle a = .ok l'

theorem Lease.inRange_of_valid {l : Lease} (hl : l.Valid) : l.InRange where
  unsettled := exists_unsettled hl
  remainingHours := exists_remainingHours hl
  accrual t := by
    obtain ⟨accrual, haccrual, -⟩ := exists_accrualAt hl t
    refine ⟨accrual, haccrual, ?_⟩
    rintro a rfl
    exact exists_settle hl haccrual

namespace Keeper

/-- Whatever a host asks of the keeper, no number leaves its range, and only a short escrow keeps it
from paying. -/
structure InRange (k : Keeper Bank) : Prop where
  requests : ∀ {α : Type} (b : Block) (m : Request α), m.Calculable k →
    Answered (k.run (m.handle b)).1
  blocks : ∀ (e : Engine) (b : Block), Answered (k.run (e.beginBlock b)).1
  queries : ∀ {α : Type} (q : Query α), Answered (k.answer q)
  bank : ∀ op : Bank.Operation, Answered (op.apply k.ledger)
  leases : ∀ id l, k.registry.lease id = .ok l → l.InRange
  settlement : ∀ (b : Block) id l, k.registry.lease id = .ok l →
    FailsOnly Fault.IsShortage k (settleLease b id)
  failures : ∀ (e e' : Engine) (b : Block) report,
    (k.run (e.beginBlock b)).1 = .ok (report, e') →
    ∀ f ∈ report.failures, (Fault.refused f.cause).IsShortage

variable {k : Keeper Bank}

theorem Orderly.inRange (hk : k.Orderly) : k.InRange where
  requests b m hm := answered_handle hk b hm
  blocks e b := answered_beginBlock hk e b
  queries q := answered_answer hk q
  bank op := Bank.answered_apply hk.balanced op
  leases id l hlease := by
    obtain ⟨hl, p, hp⟩ := hk.sound
    exact Lease.inRange_of_valid (hp.lease ((Registry.lease_eq_ok hl).1 hlease)).valid
  settlement b id l hlease :=
    short_settleLease hk ((Registry.lease_eq_ok hk.sound.1).1 hlease) b
  failures e e' b report hreport := by
    by_cases hnew : e.lastHeight.all (· < b.height) = true
    · obtain ⟨report', _, _, k', hrun, hprocessed, hfailures⟩ := exists_processed hk hnew
      rw [hrun] at hreport
      cases hreport
      rw [hfailures]
      exact hprocessed.short hk
    · rw [run_beginBlock_of_old hnew] at hreport
      cases hreport

/-- Whatever the host started from and ran, and whatever its bank holds, nothing leaves its
range. -/
theorem nothing_leaves_range {start : Keeper Bank} (hstart : start.Started)
    (hbank : start.ledger.Reached) (steps : List Step) : (start.after steps).InRange :=
  (hstart.orderly_after hbank steps).inRange

/-- Here escrow holds less than a node has earned, so that its lease cannot be settled; one more
node is registered all the same, under an id from the counter. -/
theorem poor_escrow_fails_one_settlement :
    (∃ e, (Sample.poorKeeper.run (settleLease (Sample.block 1000) Sample.nodeId)).1 = .error e ∧
      e.IsShortage) ∧
    Answered (Sample.poorKeeper.run
      (registerResource (Sample.block 1000) { Sample.registration with id := none })).1 := by
  have hrange : Sample.poorKeeper.InRange :=
    nothing_leaves_range Sample.started_poorKeeper Sample.reached_poorBank []
  constructor
  · have hlessee : (Sample.poorKeeper.registry.lease Sample.nodeId).map Lease.lessee =
      .ok Sample.lessee := by decide +kernel
    obtain ⟨l, hlease, -⟩ := map_eq_ok.1 hlessee
    have hfails : (Sample.poorKeeper.run (settleLease (Sample.block 1000) Sample.nodeId)).1 =
      .error (.refused (.insufficientFunds (.ofUInt64 270) (.ofUInt64 50))) := by decide +kernel
    exact ⟨_, hfails, hrange.settlement _ _ l hlease _ hfails⟩
  · have hfirst : Sample.poorKeeper.registry.nextId = 1 := by decide +kernel
    have hfree : Sample.poorKeeper.registry.hasResource (.ofCounter 1) = false := by decide +kernel
    refine hrange.requests (Sample.block 1000) (.register { Sample.registration with id := none })
      fun _ hexhausted => ?_
    have htaken := hexhausted 1 (hfirst ▸ UInt64.le_refl 1) (by decide)
    rw [hfree] at htaken
    cases htaken

end Keeper

end LeaseEscrow
