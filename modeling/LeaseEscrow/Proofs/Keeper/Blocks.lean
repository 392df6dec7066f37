import LeaseEscrow.Proofs.Keeper.Payouts
import LeaseEscrow.Proofs.Keeper.Standing

/-!
# Blocks of a solvent keeper

A block sweeps over the leases that are stored and then over the deposits that are due. In a
solvent keeper no record of either sweep fails (`exists_beginBlock`): what is done for one record
leaves the others as they are, and each of them can be paid.
-/

namespace LeaseEscrow.Keeper

variable {α : Type} {c : Config} {k k' : Keeper Bank} {b : Block} {id j : ResourceId}

/-! ## Sweeps -/

/-- An action that succeeds for each id of a list in its turn, in a branch. -/
inductive Sweep (step : ResourceId → Action Bank α) :
    List ResourceId → Keeper Bank → Keeper Bank → Prop where
  | nil (k : Keeper Bank) : Sweep step [] k k
  | cons {id : ResourceId} {ids : List ResourceId} {k k₁ k' : Keeper Bank} {a : α}
      (first : k.run (branch (step id)) = (.ok a, k₁)) (rest : Sweep step ids k₁ k') :
      Sweep step (id :: ids) k k'

variable {step : ResourceId → Action Bank α} {ids : List ResourceId} {P : Keeper Bank → Prop}

/-- What every action of a sweep keeps, the sweep keeps. -/
theorem Sweep.keeps (h : Sweep step ids k k') (hP : ∀ id ∈ ids, Keeps P (branch (step id)))
    (hk : P k) : P k' := by
  induction h with
  | nil => exact hk
  | @cons id ids k k₁ k' a first _ ih =>
    have hfirst := hP id List.mem_cons_self k hk
    rw [first] at hfirst
    exact ih (fun j hj => hP j (List.mem_cons_of_mem _ hj)) hfirst

/-- An action that succeeds, in keepers with the property `P`, for every id that `Q` holds of. It
leaves such a keeper one, and for other ids leaves `Q` alone. -/
structure Serves (P : Keeper Bank → Prop) (Q : ResourceId → Keeper Bank → Prop)
    (step : ResourceId → Action Bank α) : Prop where
  succeeds : ∀ {id} {k : Keeper Bank}, P k → Q id k → ∃ a k', k.run (branch (step id)) = (.ok a, k')
  keeps : ∀ id, Keeps P (branch (step id))
  others : ∀ {id j}, id ≠ j → Keeps (Q j) (branch (step id))

/-- A sweep over different ids that the action serves runs to its end without a failure. -/
theorem exists_sweep {one : Report → ResourceId → Action Bank Report}
    (count : Report → α → Report) {Q : ResourceId → Keeper Bank → Prop}
    (hone : ∀ {report id} {k k' : Keeper Bank} {a}, k.run (branch (step id)) = (.ok a, k') →
      k.run (one report id) = (.ok (count report a), k'))
    (hcount : ∀ report a, (count report a).failures = report.failures)
    (hstep : Serves P Q step) (hnodup : ids.Nodup) (hk : P k) (hids : ∀ id ∈ ids, Q id k)
    (report : Report) :
    ∃ report' k', k.run (ids.foldlM one report) = (.ok report', k') ∧
      report'.failures = report.failures ∧ Sweep step ids k k' := by
  induction ids generalizing k report with
  | nil => exact ⟨report, k, rfl, rfl, .nil k⟩
  | cons id ids ih =>
    rw [List.nodup_cons] at hnodup
    obtain ⟨a, k₁, hrun⟩ := hstep.succeeds hk (hids id List.mem_cons_self)
    have hk₁ := hstep.keeps id k hk
    have hids₁ : ∀ j ∈ ids, Q j (k.run (branch (step id))).2 := by
      intro j hj
      have hne : id ≠ j := fun h => hnodup.1 (h.symm ▸ hj)
      exact hstep.others hne k (hids j (List.mem_cons_of_mem _ hj))
    rw [hrun] at hk₁ hids₁
    obtain ⟨report', k', hrest, hclean, hsweep⟩ := ih hnodup.2 hk₁ hids₁ (count report a)
    refine ⟨report', k', ?_, hclean.trans (hcount report a), .cons hrun hsweep⟩
    rw [List.foldlM_cons, run_bind, hone hrun]
    exact hrest

theorem run_settleOne_of_ok {outcome : Outcome} {report : Report}
    (h : k.run (branch (settleLease b id)) = (.ok outcome, k')) :
    k.run (Engine.settleOne b report id) = (.ok (Engine.countOutcome report outcome), k') := by
  rw [Engine.settleOne, run_bind, run_attempt, h]
  rfl

theorem run_releaseOne_of_ok {refunds : List (Account × Coin)} {report : Report}
    (h : k.run (branch (releaseDeposits b id)) = (.ok refunds, k')) :
    k.run (Engine.releaseOne b report id) =
      (.ok { report with depositsReleased := report.depositsReleased + 1 }, k') := by
  rw [Engine.releaseOne, run_bind, run_attempt, h]
  rfl

theorem failures_countOutcome (report : Report) (outcome : Outcome) :
    (Engine.countOutcome report outcome).failures = report.failures := by
  cases outcome <;> rfl

/-! ## Solvent keepers -/

/-- Whatever a solvent keeper can do, it can do in a branch. -/
theorem Solvent.exists_branch {a : Action Bank α} (hk : k.Solvent c)
    (h : k.enter.Solvent c → ∃ x k', k.enter.run a = (.ok x, k')) :
    ∃ x k', k.run (branch a) = (.ok x, k') := by
  obtain ⟨x, k', hrun⟩ := h (ofContents_solvent.congr (enter_equiv k).symm hk)
  exact ⟨x, k'.keep, (run_branch_eq_ok).2 ⟨k', hrun, rfl⟩⟩

theorem keeps_solvent_settle (b : Block) (id : ResourceId) :
    Keeps (Solvent c) (branch (settleLease b id)) :=
  ofContents_solvent.recoverable.branch (built_settleLease b id) fun _ _ _ hk h =>
    hk.paidOut (accounted_settleLease hk.sound h)

theorem keeps_solvent_release (b : Block) (id : ResourceId) :
    Keeps (Solvent c) (branch (releaseDeposits b id)) :=
  ofContents_solvent.recoverable.branch (built_releaseDeposits b id) fun _ _ _ hk h =>
    hk.paidOut (accounted_releaseDeposits hk.sound h)

/-- A sound keeper where the resource of `id` is closed. -/
structure Closed (id : ResourceId) (k : Keeper Bank) : Prop where
  sound : k.Sound
  closed : ∃ x, k.registry.market.resource id = some x ∧ x.status = .closed

theorem ofContents_closed : OfContents (Closed id) where
  congr h hk := ⟨ofContents_sound.congr h hk.sound, Registry.market_congr h.registry ▸ hk.closed⟩
  events _ hk := ⟨hk.sound, hk.closed⟩

theorem keepsOk_closed_release (hne : j ≠ id) : KeepsOk (Closed id) (releaseDeposits b j) := by
  intro k refunds k' hk h
  have hsound := keepsOk_releaseDeposits b j k refunds k' hk.sound h
  obtain ⟨x, ledger, hx, -, -, -, hturned⟩ := releaseDeposits_done hk.sound.1 h
  obtain rfl := Registry.id_of_market hk.sound.1 hx
  obtain ⟨y, hy, hclosed⟩ := hk.closed
  refine ⟨hsound, y, ?_, hclosed⟩
  rw [hturned.market_eq]
  exact (Function.update_of_ne hne.symm _ _).trans hy

theorem serves_settleLease (c : Config) (b : Block) :
    Serves (Solvent c) (fun id k => ∃ l, Standing c id (some l) k) (settleLease b) where
  succeeds hk := by
    rintro ⟨l, hstands⟩
    exact hk.exists_branch fun hk' => exists_settleLease hk'
      (ofContents_standing.congr (enter_equiv _).symm hstands).lease_eq b
  keeps := keeps_solvent_settle b
  others {i j} hne := by
    rintro k ⟨l, hstands⟩
    exact ⟨l, ofContents_standing.recoverable.branch (built_settleLease b i)
      (standing_settleLease b hne) k hstands⟩

theorem serves_releaseDeposits (c : Config) (b : Block) :
    Serves (Solvent c) Closed (releaseDeposits b) where
  succeeds hk hclosed := hk.exists_branch fun hk' => by
    obtain ⟨x, hx, hstatus⟩ := (ofContents_closed.congr (enter_equiv _).symm hclosed).closed
    exact exists_releaseDeposits hk' hx hstatus b
  keeps := keeps_solvent_release b
  others {i j} hne := ofContents_closed.recoverable.branch (built_releaseDeposits b i)
    (keepsOk_closed_release hne)

theorem exists_settleSweep (hk : k.Solvent c) (b : Block) (report : Report) :
    ∃ report' k', k.run (Engine.settleLeases b report) = (.ok report', k') ∧
      report'.failures = report.failures ∧ k'.Solvent c ∧
      Sweep (settleLease b) (k.registry.leaseList.map Lease.resourceId) k k' := by
  have hl := hk.sound.1
  have htable := Registry.isTable_leases hl
  have hstanding : ∀ id ∈ k.registry.leaseList.map Lease.resourceId,
      ∃ l, Standing c id (some l) k := by
    intro id hid
    obtain ⟨l, hmem, rfl⟩ := List.mem_map.1 hid
    exact ⟨l, hk.sound, hk.config_eq, (htable.mem_iff l).1 hmem⟩
  obtain ⟨report', k', hrun, hclean, hsweep⟩ := exists_sweep Engine.countOutcome
    run_settleOne_of_ok failures_countOutcome (serves_settleLease c b) htable.nodup hk hstanding
    report
  refine ⟨report', k', ?_, hclean, hsweep.keeps (fun id _ => keeps_solvent_settle b id) hk, hsweep⟩
  rw [Engine.settleLeases, run_bind, run_read, Registry.leaseIds_eq hl]
  exact hrun

/-- The ids of the resources whose deposits are due. -/
def dueIds (k : Keeper Bank) (p : Params) (t : Instant) : List ResourceId :=
  (k.registry.resourceList.filter fun x => (DepositLock.ofParams p).isDue x t).map Resource.id

theorem closed_of_isDue {lock : DepositLock} {x : Resource} {t : Instant}
    (h : lock.isDue x t = true) : x.status = .closed := by
  rw [DepositLock.isDue, Bool.and_eq_true, DepositLock.unlocksAt?] at h
  by_contra hopen
  rw [if_neg hopen] at h
  cases h.2

theorem nodup_dueIds (hl : k.registry.Laid) (p : Params) (t : Instant) : (k.dueIds p t).Nodup :=
  (Registry.isTable_resources hl).nodup.sublist (List.filter_sublist.map Resource.id)

theorem closed_of_mem_dueIds (hk : k.Sound) {p : Params} {t : Instant} (hid : id ∈ k.dueIds p t) :
    k.Closed id := by
  obtain ⟨x, hmem, rfl⟩ := List.mem_map.1 hid
  obtain ⟨hmem, hdue⟩ := List.mem_filter.1 hmem
  exact ⟨hk, x, ((Registry.isTable_resources hk.1).mem_iff x).1 hmem, closed_of_isDue hdue⟩

theorem exists_releaseSweep (hk : k.Solvent c) {p : Params}
    (hp : k.registry.market.params = some p) (b : Block) (report : Report) :
    ∃ report' k', k.run (Engine.releaseDeposits b report) = (.ok report', k') ∧
      report'.failures = report.failures ∧ k'.Solvent c ∧
      Sweep (releaseDeposits b) (k.dueIds p b.time) k k' := by
  have hl := hk.sound.1
  obtain ⟨report', k', hrun, hclean, hsweep⟩ := exists_sweep
    (fun report _ => { report with depositsReleased := report.depositsReleased + 1 })
    run_releaseOne_of_ok (fun _ _ => rfl) (serves_releaseDeposits c b)
    (nodup_dueIds hl p b.time) hk (fun id hid => closed_of_mem_dueIds hk.sound hid) report
  refine ⟨report', k', ?_, hclean, hsweep.keeps (fun id _ => keeps_solvent_release b id) hk, hsweep⟩
  rw [Engine.releaseDeposits, run_bind, run_read, Registry.params_eq_ok.2 hp]
  show k.run (read Registry.resources >>= _) = _
  rw [run_bind, run_read, Registry.resources_eq hl]
  exact hrun

/-- A block at a new height is the two sweeps, one after the other. -/
theorem run_beginBlock_of_ok {e : Engine} {k₁ : Keeper Bank} {report₁ report : Report}
    (hnew : e.lastHeight.all (· < b.height) = true)
    (hsettle : k.run (Engine.settleLeases b (.empty b.height)) = (.ok report₁, k₁))
    (hrelease : k₁.run (Engine.releaseDeposits b report₁) = (.ok report, k')) :
    k.run (e.beginBlock b) = (.ok (report, ⟨some b.height⟩), k') := by
  rw [Engine.beginBlock]
  simp only [run_refusal_bind_eq_ok]
  refine ⟨(), require_eq_ok.2 hnew, ?_⟩
  rw [run_bind, hsettle]
  show k₁.run (Engine.releaseDeposits b report₁ >>= _) = _
  rw [run_bind, hrelease]
  rfl

/-- No block is settled twice, and none before an earlier one. -/
theorem run_beginBlock_of_old {e : Engine} (hold : ¬ e.lastHeight.all (· < b.height) = true) :
    k.run (e.beginBlock b) = (.error (.refused (.blockAlreadySettled b.height)), k) := by
  rw [Engine.beginBlock, run_bind, run_liftM_refusal, require, if_neg hold]
  rfl

/-- A block at a new height settles every lease and releases all deposits that are due. -/
theorem exists_beginBlock (hk : k.Solvent c) {e : Engine} (b : Block)
    (hnew : e.lastHeight.all (· < b.height) = true) :
    ∃ report k₁ k' p, k.run (e.beginBlock b) = (.ok (report, ⟨some b.height⟩), k') ∧
      report.failures = [] ∧ k'.Solvent c ∧
      Sweep (settleLease b) (k.registry.leaseList.map Lease.resourceId) k k₁ ∧
      k₁.registry.market.params = some p ∧ Sweep (releaseDeposits b) (k₁.dueIds p b.time) k₁ k' := by
  obtain ⟨report₁, k₁, hsettle, hclean₁, hk₁, hsweep₁⟩ :=
    exists_settleSweep hk b (.empty b.height)
  obtain ⟨p, hp⟩ := hk₁.sound.2
  obtain ⟨report, k', hrelease, hclean, hk', hsweep⟩ :=
    exists_releaseSweep hk₁ hp.params_eq b report₁
  exact ⟨report, k₁, k', p, run_beginBlock_of_ok hnew hsettle hrelease, hclean.trans hclean₁, hk',
    hsweep₁, hp.params_eq, hsweep⟩

end LeaseEscrow.Keeper
