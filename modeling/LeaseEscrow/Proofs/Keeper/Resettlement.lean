import LeaseEscrow.Proofs.Keeper.Chain
import LeaseEscrow.Proofs.Keeper.Deposits

/-!
# Settling a block again

After a block every lease is up to date and no deposit is past its lock. So there is nothing to do
in any block that is not later, also for an engine that has lost its height, as it does in a
restart. Main statement (`settling_again_is_harmless`): the same engine refuses the block, a fresh
one accepts it, and either way the keeper stays as it is; for the fresh one, if no lease began in a
leap second and the block asked for does not fall in one. A lease that began in a leap second is
charged once more (`leap_second_is_settled_again`).
-/

namespace LeaseEscrow

theorem DepositLock.not_isDue_earlier {p : Params} {x : Resource} {t t' : Instant}
    (h : ¬ (ofParams p).isDue x t = true) (hle : t' ≤ t) : ¬ (ofParams p).isDue x t' = true := by
  intro hdue
  exact h (isDue_mono hle hdue)

namespace Keeper

variable {α β : Type} {c : Config} {k k' : Keeper Bank} {e e' : Engine} {b : Block}
  {id : ResourceId} {t : Instant} {report : Report}

/-! ## Blocks that find nothing to do -/

/-- All leases are up to date at the time `t`, none began in a leap second, and no deposit is past
its lock. -/
structure Quiet (t : Instant) (k : Keeper Bank) : Prop where
  sound : k.Sound
  time : t.isStray = false
  leases : ∀ id, k.LeaseHas (fun l => l.UpToDate t ∧ l.startedAt.isLeap = false) id
  deposits : ∀ p id x, k.registry.market.params = some p →
    k.registry.market.resource id = some x → ¬ (DepositLock.ofParams p).isDue x t = true

theorem Quiet.earlier {t' : Instant} (hk : k.Quiet t) (hle : t' ≤ t)
    (ht' : t'.isLeap = false ∨ t' = t) : k.Quiet t' where
  sound := hk.sound
  time := by
    rcases ht' with hleap | rfl
    · exact Instant.isStray_of_not_isLeap hleap
    · exact hk.time
  leases id := (hk.leases id).mono fun _ ⟨hupToDate, hstart⟩ =>
    ⟨hupToDate.earlier hstart hk.time hle ht', hstart⟩
  deposits p id x hp hx := DepositLock.not_isDue_earlier (hk.deposits p id x hp hx) hle

/-- An action that changes nothing changes nothing in a branch either. -/
theorem run_branch_of_idle {a : Action Bank α} {x : α} (h : k.enter.run a = (.ok x, k.enter)) :
    k.run (branch a) = (.ok x, k) := by
  refine run_branch_eq_ok.2 ⟨k.enter, h, ?_⟩
  show (⟨⟨k.registry.store.checkpoint.commit⟩, k.ledger.checkpoint.commit, _, _⟩ : Keeper Bank) = k
  rw [Journaled.commit_checkpoint, Journaled.commit_checkpoint]
  rfl

theorem run_foldlM_of_idle {f : β → α → Action Bank β} {xs : List α} {y : β}
    (h : ∀ x ∈ xs, k.run (f y x) = (.ok y, k)) : k.run (xs.foldlM f y) = (.ok y, k) := by
  induction xs with
  | nil => rfl
  | cons x xs ih =>
    rw [List.foldlM_cons, run_bind, h x List.mem_cons_self]
    exact ih fun x' hx' => h x' (List.mem_cons_of_mem _ hx')

theorem run_settleLease_of_idle (hk : k.Sound) {l : Lease}
    (hlease : k.registry.market.lease id = some l) (hnone : l.accrualAt b.time = .ok none)
    (hopen : l.isFullySettled = false) : k.run (settleLease b id) = (.ok .idle, k) := by
  obtain ⟨hl, p, hp⟩ := hk
  simp only [settleLease, run_read_bind_eq_ok, run_lift_bind_eq_ok]
  refine ⟨l, (Registry.lease_eq_ok hl).2 hlease, p, Registry.params_eq_ok.2 hp.params_eq, none,
    hnone, ?_⟩
  rw [hopen]
  rfl

theorem run_settleLeases_of_quiet (hk : k.Quiet b.time) :
    k.run (Engine.settleLeases b report) = (.ok report, k) := by
  obtain ⟨hl, p, hp⟩ := hk.sound
  rw [Engine.settleLeases, run_bind, run_read, Registry.leaseIds_eq hl]
  refine run_foldlM_of_idle fun id hid => ?_
  obtain ⟨l, hmem, rfl⟩ := List.mem_map.1 hid
  have hlease := ((Registry.isTable_leases hl).mem_iff l).1 hmem
  obtain ⟨hupToDate, hstart⟩ := (hk.leases l.resourceId).lease l hlease
  have hopen := hupToDate.running.not_fullySettled (hp.lease hlease).valid
  have hentered := ofContents_sound.congr (enter_equiv k).symm hk.sound
  rw [← Registry.market_congr (enter_equiv k).registry] at hlease
  exact run_settleOne_of_ok (run_branch_of_idle (run_settleLease_of_idle hentered hlease
    (hupToDate.accrualAt hstart hk.time) hopen))

theorem run_releaseDeposits_of_quiet (hk : k.Quiet b.time) :
    k.run (Engine.releaseDeposits b report) = (.ok report, k) := by
  obtain ⟨hl, p, hp⟩ := hk.sound
  have hnone : (k.registry.resourceList.filter fun x =>
      (DepositLock.ofParams p).isDue x b.time) = [] := by
    rw [List.filter_eq_nil_iff]
    intro x hmem
    exact hk.deposits p x.id x hp.params_eq (((Registry.isTable_resources hl).mem_iff x).1 hmem)
  rw [Engine.releaseDeposits, run_bind, run_read, Registry.params_eq_ok.2 hp.params_eq]
  show k.run (read Registry.resources >>= _) = _
  rw [run_bind, run_read, Registry.resources_eq hl]
  show k.run (List.foldlM _ _ (List.map _ (List.filter _ _))) = _
  rw [hnone]
  rfl

theorem run_beginBlock_of_quiet (hk : k.Quiet b.time)
    (hnew : e.lastHeight.all (· < b.height) = true) :
    k.run (e.beginBlock b) = (.ok (.empty b.height, ⟨some b.height⟩), k) :=
  run_beginBlock_of_ok hnew (run_settleLeases_of_quiet hk) (run_releaseDeposits_of_quiet hk)

/-! ## Blocks leave nothing to do -/

/-- An engine accepts a block when its height is new. -/
theorem beginBlock_done (h : k.run (e.beginBlock b) = (.ok (report, e'), k')) :
    e.lastHeight.all (· < b.height) = true ∧ e' = ⟨some b.height⟩ := by
  simp only [Engine.beginBlock, run_refusal_bind_eq_ok] at h
  obtain ⟨_, hnew, h⟩ := h
  obtain ⟨_, _, -, h⟩ := run_bind_eq_ok.1 h
  obtain ⟨_, _, -, h⟩ := run_bind_eq_ok.1 h
  obtain ⟨heq, -⟩ := run_pure_eq_ok.1 h
  exact ⟨require_eq_ok.1 hnew, (congrArg Prod.snd heq).symm⟩

/-- After the releases of a block no deposit is past its lock: those of a resource that was due are
gone, and another one was not due. -/
theorem not_isDue_of_released (hk : k.Solvent c) {report' : Report}
    (hrelease : k.run (Engine.releaseDeposits b report) = (.ok report', k')) {p : Params}
    {x : Resource} (hp : k'.registry.market.params = some p)
    (hx : k'.registry.market.resource id = some x) :
    ¬ (DepositLock.ofParams p).isDue x b.time = true := by
  obtain ⟨p₀, hp₀⟩ := hk.sound.2
  have hkeeping : Keeping (some p₀) id ((k.registry.market.resource id).map Resource.custody) k :=
    ⟨hk.sound, hp₀.params_eq, rfl⟩
  intro hdue
  obtain ⟨hdeposits, hclosed, closed, hclosedAt, hpassed⟩ := DepositLock.isDue_iff.1 hdue
  rcases releasingDue_of_keeping hk hkeeping hrelease with
    ⟨a, -, -, -, -, _, -, -, -, hkeeping'⟩ | ⟨hlocked, -, hkeeping'⟩
  · have hcustody := hkeeping'.custody_eq
    rw [hx] at hcustody
    exact hdeposits (congrArg Custody.deposits (Option.some.inj hcustody))
  · have hcustody := hkeeping'.custody_eq
    rw [hx] at hcustody
    obtain rfl := Option.some.inj (hp.symm.trans hkeeping'.params_eq)
    exact hlocked x.custody hcustody.symm hdeposits hclosed closed hclosedAt hpassed

theorem quiet_of_beginBlock (hk : k.Solvent c) (hleases : ∀ id, k.LeaseHas Lease.Running id)
    (h : k.run (e.beginBlock b) = (.ok (report, e'), k')) (htime : b.time.isStray = false)
    (hstarts : ∀ id l, k'.registry.lease id = .ok l → l.startedAt.isLeap = false) :
    k'.Quiet b.time := by
  obtain ⟨hnew, -⟩ := beginBlock_done h
  have hnext : k.next (.beginBlock e b) = k' := by rw [next, h]
  have hpaced := paced_begin hk hleases hnew
  rw [hnext] at hpaced
  have hl := hpaced.solvent.sound.1
  refine ⟨hpaced.solvent.sound, htime, fun id => ⟨hpaced.solvent.sound, fun l hlease => ?_⟩,
    fun p id x hp hx => ?_⟩
  · exact ⟨(hpaced.leases id).lease l hlease, hstarts id l ((Registry.lease_eq_ok hl).2 hlease)⟩
  obtain ⟨report₁, k₁, hsettle, -, hk₁, -⟩ := exists_settleSweep hk b (.empty b.height)
  obtain ⟨p₁, hp₁⟩ := hk₁.sound.2
  obtain ⟨report₂, k₂, hrelease, -⟩ := exists_releaseSweep hk₁ hp₁.params_eq b report₁
  obtain rfl : k' = k₂ :=
    congrArg Prod.snd (h.symm.trans (run_beginBlock_of_ok hnew hsettle hrelease))
  exact not_isDue_of_released hk₁ hrelease hp hx

/-! ## Runs -/

/-- On any run, once a block has begun, asking for it again changes nothing: the same engine
refuses every height up to this one, and a fresh engine has nothing to do and nothing to report in
any block up to this time. The latter is so if the block is in no leap second or in one that ends its
day, no lease that it leaves began in a leap second, and the new block falls in none or has the same
time. -/
theorem settling_again_is_harmless {config : Config} {ledger : Bank} {params : Params}
    {start : Keeper Bank} (hcreate : create config ledger params = .ok start)
    (hbank : ledger.Reached) {steps : List Step} (havoids : ∀ s ∈ steps, s.Avoids config.escrow)
    (h : (start.after steps).run (e.beginBlock b) = (.ok (report, e'), k')) :
    (∀ b' : Block, b'.height ≤ b.height →
      k'.run (e'.beginBlock b') = (.error (.refused (.blockAlreadySettled b'.height)), k')) ∧
    (b.time.isStray = false →
      (∀ id l, k'.registry.lease id = .ok l → l.startedAt.isLeap = false) →
      ∀ b' : Block, b'.time ≤ b.time → (b'.time.isLeap = false ∨ b'.time = b.time) →
        ∃ idle : Report,
          k'.run (Engine.fresh.beginBlock b') = (.ok (idle, ⟨some b'.height⟩), k') ∧
            idle.isIdle = true) := by
  have hk := solvent_after (solvent_create hcreate hbank) havoids
  obtain ⟨-, rfl⟩ := beginBlock_done h
  constructor
  · intro b' hheight
    have hold : ¬ (some b.height).all (· < b'.height) = true := by
      rw [Option.all_some, decide_eq_true_eq]
      exact UInt64.not_lt.2 hheight
    exact run_beginBlock_of_old hold
  · intro htime hstarts b' hle hleap
    have hquiet := quiet_of_beginBlock hk (running_after hcreate steps) h htime hstarts
    exact ⟨.empty b'.height, run_beginBlock_of_quiet (hquiet.earlier hle hleap) rfl, rfl⟩

/-- Here the first hour of a lease is settled, and once more after a restart. -/
theorem first_hour_is_settled_once :
    let leased := Sample.keeper.after [.request (Sample.block 0) (.register Sample.registration),
      .request (Sample.block 0) (.lease (Sample.lease 3))]
    let settled := leased.next (.beginBlock .fresh (Sample.block 1))
    ∃ report idle : Report,
      (leased.run (Engine.fresh.beginBlock (Sample.block 1))).1 = .ok (report, ⟨some 1⟩) ∧
        report.leasesSettled = 1 ∧
        settled.run (Engine.fresh.beginBlock (Sample.block 1)) =
          (.ok (idle, ⟨some 1⟩), settled) ∧ idle.isIdle = true := by
  intro leased settled
  have howner : Sample.owner ≠ Sample.config.escrow := by decide
  have hlessee : Sample.lessee ≠ Sample.config.escrow := by decide
  have havoids : ∀ s ∈ [Step.request (Sample.block 0) (.register Sample.registration),
      .request (Sample.block 0) (.lease (Sample.lease 3))], s.Avoids Sample.config.escrow := by
    intro s hs
    simp only [List.mem_cons, List.not_mem_nil, or_false] at hs
    rcases hs with rfl | rfl
    · exact howner
    · exact hlessee
  have hreport : (leased.run (Engine.fresh.beginBlock (Sample.block 1))).1 =
      .ok (⟨1, 1, 0, 0, []⟩, ⟨some 1⟩) := by decide +kernel
  have hrun : leased.run (Engine.fresh.beginBlock (Sample.block 1)) =
      (.ok (⟨1, 1, 0, 0, []⟩, ⟨some 1⟩), settled) := run_of_fst hreport
  obtain ⟨-, hagain⟩ :=
    settling_again_is_harmless Sample.create_keeper Sample.reached_bank havoids hrun
  have hsound : settled.Sound := sound_next _ (sound_after Sample.create_keeper _)
  have hleases : ∀ l ∈ settled.registry.leaseList, l.startedAt.isLeap = false := by decide +kernel
  have hstarts : ∀ id l, settled.registry.lease id = .ok l → l.startedAt.isLeap = false := by
    intro id l hfound
    have hlease := (Registry.lease_eq_ok hsound.1).1 hfound
    obtain rfl := Registry.resourceId_of_market hsound.1 hlease
    exact hleases l (((Registry.isTable_leases hsound.1).mem_iff l).2 hlease)
  obtain ⟨idle, hidle, hnothing⟩ :=
    hagain (by decide) hstarts (Sample.block 1) (by decide) (.inr rfl)
  exact ⟨_, idle, hreport, rfl, hidle, hnothing⟩

/-- A lease that begins in a leap second is charged for an hour by a block a second short of two
hours later, and for another one by a fresh engine that begins a block at the same time. -/
theorem leap_second_is_settled_again :
    let leased := Sample.keeper.after [.request Sample.leapBlock (.register Sample.registration),
      .request Sample.leapBlock (.lease (Sample.lease 3))]
    let settled := leased.next (.beginBlock .fresh (Sample.afterLeap 1))
    let again := settled.next (.beginBlock .fresh (Sample.afterLeap 1))
    (leased.run (Engine.fresh.beginBlock (Sample.afterLeap 1))).1 =
        .ok (⟨1, 1, 0, 0, []⟩, ⟨some 1⟩) ∧
      (settled.run (Engine.fresh.beginBlock (Sample.afterLeap 1))).1 =
        .ok (⟨1, 1, 0, 0, []⟩, ⟨some 1⟩) ∧
      settled.ledger.amount ⟨Sample.owner, "umedia"⟩ = .ofUInt64 9 ∧
      again.ledger.amount ⟨Sample.owner, "umedia"⟩ = .ofUInt64 18 := by
  decide +kernel

end Keeper

end LeaseEscrow
