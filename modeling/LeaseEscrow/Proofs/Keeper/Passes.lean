import LeaseEscrow.Proofs.Keeper.Custody
import LeaseEscrow.Proofs.Keeper.Faults
import LeaseEscrow.Proofs.Keeper.Log

/-!
# Records that fail in a block

A block tries each record in a branch of its own. Where a record fails, the branch goes back, and
what is left is an entry in the report and an event. No action reads the events, so all records
after it come out as they would without it (`Pass.without_failures`). This asks nothing of escrow:
which records fail, and how many, is arbitrary (`failed_records_leave_no_trace`).
-/

namespace LeaseEscrow

/-- What is told of a record that failed in a block. -/
def Failure.event (b : Block) (f : Failure) : Event :=
  ⟨.settlementFailed, b.height, some f.resourceId, .failure f.cause.message⟩

def Event.isFailure (ev : Event) : Bool := ev.kind = .settlementFailed

/-- The records that were tried, in order, and what came of each. -/
abbrev Attempts (α : Type) := List (ResourceId × Except Refusal α)

namespace Attempts

variable {α : Type}

def ids (tried : Attempts α) : List ResourceId := tried.map Prod.fst

/-- Those that succeeded. -/
def succeeded (tried : Attempts α) : Attempts α := tried.filter fun attempt => attempt.2.isOk

def failures (phase : Phase) : Attempts α → List Failure
  | [] => []
  | (_, .ok _) :: tried => failures phase tried
  | (id, .error cause) :: tried => ⟨phase, id, cause⟩ :: failures phase tried

end Attempts

namespace Keeper

variable {L α : Type}

/-! ## Events are not read -/

/-- What an action does, it does whatever was told before. -/
theorem Built.run_events [Ledger L] {a : Action L α} (ha : Built a) (k : Keeper L)
    (events : List Event) :
    ∃ events', run { k with events } a = ((k.run a).1, { (k.run a).2 with events := events' }) := by
  induction ha generalizing k events with
  | pure x => exact ⟨events, rfl⟩
  | lift x => exact ⟨events, by rw [run_liftM, run_liftM]⟩
  | lift_refusal x => exact ⟨events, by rw [run_liftM_refusal, run_liftM_refusal]⟩
  | configNow => exact ⟨events, rfl⟩
  | allocateId =>
    refine ⟨events, ?_⟩
    rw [run_allocateId, run_allocateId]
    cases k.registry.firstFree? k.registry.nextId <;> rfl
  | read hf => exact ⟨events, by rw [run_read, run_read]⟩
  | @change f hf =>
    refine ⟨events, ?_⟩
    rw [run_change, run_change]
    cases f k.registry <;> rfl
  | send source target amount =>
    refine ⟨events, ?_⟩
    rw [run_send, run_send]
    split
    · rfl
    · cases Ledger.transfer k.ledger source target amount <;> rfl
  | emit b kind id detail => exact ⟨_, rfl⟩
  | @bind _ _ a f _ _ ha hf =>
    obtain ⟨events₁, h₁⟩ := ha k events
    rw [run_bind, run_bind, h₁]
    rcases k.run a with ⟨e | x, k₁⟩
    · exact ⟨events₁, rfl⟩
    · exact hf x k₁ events₁
  | @branch _ a _ ha =>
    obtain ⟨events₁, h₁⟩ := ha k.enter events
    have hentered : run (enter { k with events }) a = run { k.enter with events } a := rfl
    rw [run_branch, run_branch, hentered, h₁]
    rcases k.enter.run a with ⟨e | x, k₁⟩
    · exact ⟨_, rfl⟩
    · exact ⟨_, rfl⟩
  | @attempt _ a _ ha =>
    obtain ⟨events₁, h₁⟩ := ha k events
    exact ⟨events₁, by rw [run_attempt, run_attempt, h₁]⟩

variable {k k' k₁ k₁' k₂ : Keeper Bank} {b : Block} {id : ResourceId}

/-- The same records, balances and configuration, whatever was told. -/
structure SameBooks (k k' : Keeper Bank) : Prop where
  registry : k.registry ≈ k'.registry
  book : k.ledger.current = k'.ledger.current
  config : k.config = k'.config

theorem SameContents.sameBooks (h : k ≈ k') : SameBooks k k' := ⟨h.registry, h.book, h.config⟩

theorem Built.sameBooks {a : Action Bank α} (ha : Built a) (h : SameBooks k k') :
    (k.run a).1 = (k'.run a).1 ∧ SameBooks (k.run a).2 (k'.run a).2 := by
  have hsame : k ≈ { k' with events := k.events } := ⟨h.registry, h.book, h.config, rfl⟩
  obtain ⟨hresult, hafter⟩ := ha.tame.agree hsame
  obtain ⟨events, hrun⟩ := ha.run_events k' k.events
  rw [hrun] at hresult hafter
  exact ⟨hresult, hafter.registry, hafter.book, hafter.config⟩

/-! ## Passes -/

/-- An action that is tried for each id of a list in its turn, in a branch. -/
inductive Pass (step : ResourceId → Action Bank α) (phase : Phase) (b : Block) :
    Attempts α → Keeper Bank → Keeper Bank → Prop where
  | nil (k : Keeper Bank) : Pass step phase b [] k k
  | done {id : ResourceId} {a : α} {tried : Attempts α} {k k₁ k' : Keeper Bank}
      (first : k.run (branch (step id)) = (.ok a, k₁)) (rest : Pass step phase b tried k₁ k') :
      Pass step phase b ((id, .ok a) :: tried) k k'
  | failed {id : ResourceId} {cause : Refusal} {tried : Attempts α} {k k₁ k' : Keeper Bank}
      (first : k.run (branch (step id)) = (.error (.refused cause), k₁))
      (rest : Pass step phase b tried
        { k₁ with events := k₁.events ++ [Failure.event b ⟨phase, id, cause⟩] } k') :
      Pass step phase b ((id, .error cause) :: tried) k k'

variable {step : ResourceId → Action Bank α} {phase : Phase} {tried : Attempts α}

/-- What a pass needs of the action that it tries. -/
structure Routine (step : ResourceId → Action Bank α) : Prop where
  built : ∀ id, Built (step id)
  orderly : ∀ id, KeepsOk Orderly (step id)
  inRange : ∀ {k : Keeper Bank}, k.Orderly → ∀ id, FailsOnly Fault.IsRefusal k (step id)
  /-- When it succeeds it tells of no failure. -/
  told : ∀ {k k' : Keeper Bank} {id a}, k.Sound → k.run (step id) = (.ok a, k') →
    ∃ new, k'.events = k.events ++ new ∧ ∀ ev ∈ new, ev.kind ≠ .settlementFailed

theorem routine_settleLease (b : Block) : Routine (settleLease b : _ → Action Bank Outcome) where
  built := built_settleLease b
  orderly := orderly_settleLease b
  inRange hk := inRange_settleLease hk b
  told {k k' _ _} hk h := by
    obtain ⟨new, hnew, -⟩ : ∃ new, Logs (fun _ => False) k k' new ∧ _ := logs_settleLease hk h
    exact ⟨new, hnew.events_eq, hnew.kind_ne⟩

theorem routine_releaseDeposits (b : Block) :
    Routine (releaseDeposits b : _ → Action Bank (List (Account × Coin))) where
  built := built_releaseDeposits b
  orderly := orderly_releaseDeposits b
  inRange hk id := (secure_releaseDeposits b id _ hk.balanced).1
  told {k k' _ _} hk h := by
    obtain ⟨new, hnew, -⟩ : ∃ new, Logs (fun _ => False) k k' new ∧ _ :=
      logs_releaseDeposits hk h
    exact ⟨new, hnew.events_eq, hnew.kind_ne⟩

/-- What a block does for one record: it counts a success, and reports a failure. -/
structure Tries (step : ResourceId → Action Bank α) (phase : Phase) (b : Block)
    (one : Report → ResourceId → Action Bank Report) (count : Report → α → Report) : Prop where
  done : ∀ {report id a} {k k' : Keeper Bank}, k.run (branch (step id)) = (.ok a, k') →
    k.run (one report id) = (.ok (count report a), k')
  failed : ∀ {report id cause} {k k' : Keeper Bank},
    k.run (branch (step id)) = (.error (.refused cause), k') →
    k.run (one report id) = k'.run (Engine.recordFailure b report phase id cause)
  failures_count : ∀ report a, (count report a).failures = report.failures

theorem tries_settleOne (b : Block) :
    Tries (settleLease b) .settleLeases b (Engine.settleOne b) Engine.countOutcome where
  done := run_settleOne_of_ok
  failed h := by
    rw [Engine.settleOne, run_bind, run_attempt, h]
    rfl
  failures_count := failures_countOutcome

theorem tries_releaseOne (b : Block) :
    Tries (releaseDeposits b) .releaseDeposits b (Engine.releaseOne b) fun report _ =>
      { report with depositsReleased := report.depositsReleased + 1 } where
  done := run_releaseOne_of_ok
  failed h := by
    rw [Engine.releaseOne, run_bind, run_attempt, h]
    rfl
  failures_count _ _ := rfl

/-- A block comes to the end of its list, whatever fails on the way. -/
theorem exists_pass {one : Report → ResourceId → Action Bank Report} {count : Report → α → Report}
    (hstep : Routine step) (hone : Tries step phase b one count) (hk : k.Orderly)
    (ids : List ResourceId) (report : Report) :
    ∃ tried report' k', k.run (ids.foldlM one report) = (.ok report', k') ∧ tried.ids = ids ∧
      Pass step phase b tried k k' ∧ k'.Orderly ∧
      report'.failures = report.failures ++ tried.failures phase := by
  induction ids generalizing k report with
  | nil => exact ⟨[], report, k, rfl, rfl, .nil k, hk, (List.append_nil _).symm⟩
  | cons id ids ih =>
    have hP := ofContents_orderly.recoverable
    have hbranch : (k.run (branch (step id))).2.Orderly :=
      hP.branch (hstep.built id) (hstep.orderly id) k hk
    have hrange := (hstep.inRange hk id).branch (hstep.built id).tame
    rcases hrun : k.run (branch (step id)) with ⟨e | a, k₁⟩
    · rw [FailsOnly, hrun] at hrange
      rw [hrun] at hbranch
      cases e with
      | outOfRange => exact absurd rfl (hrange _ rfl)
      | refused cause =>
        obtain ⟨tried, report', k', hrest, rfl, hpass, hk', hfailures⟩ :=
          ih (ofContents_orderly.events _ hbranch)
            { report with failures := report.failures ++ [⟨phase, id, cause⟩] }
        refine ⟨(id, .error cause) :: tried, report', k', ?_, rfl, .failed hrun hpass, hk', ?_⟩
        · rw [List.foldlM_cons, run_bind, hone.failed hrun]
          exact hrest
        · rw [hfailures, List.append_assoc]
          rfl
    · rw [hrun] at hbranch
      obtain ⟨tried, report', k', hrest, rfl, hpass, hk', hfailures⟩ := ih hbranch (count report a)
      refine ⟨(id, .ok a) :: tried, report', k', ?_, rfl, .done hrun hpass, hk', ?_⟩
      · rw [List.foldlM_cons, run_bind, hone.done hrun]
        exact hrest
      · rw [hfailures, hone.failures_count]
        rfl

/-- What each branch keeps and what the report of a failure keeps, a pass keeps. -/
theorem Pass.keeps {P : Keeper Bank → Prop} (h : Pass step phase b tried k k')
    (hP : OfContents P) (hstep : ∀ id, Keeps P (branch (step id))) (hk : P k) : P k' := by
  induction h with
  | nil => exact hk
  | @done id _ _ k _ _ first _ ih =>
    have hfirst := hstep id k hk
    rw [first] at hfirst
    exact ih hfirst
  | @failed id _ _ k _ _ first _ ih =>
    have hfirst := hstep id k hk
    rw [first] at hfirst
    exact ih (hP.events _ hfirst)

/-- Of a pass the events tell just the failures, in order. -/
theorem Pass.told (h : Pass step phase b tried k k') (hstep : Routine step) (hk : k.Orderly) :
    ∃ new, k'.events = k.events ++ new ∧
      new.filter Event.isFailure = (tried.failures phase).map (Failure.event b) := by
  have hP := ofContents_orderly.recoverable
  induction h with
  | nil k => exact ⟨[], (List.append_nil _).symm, rfl⟩
  | @done id a tried k k₁ k' first _ ih =>
    have hk₁ := hP.branch (hstep.built id) (hstep.orderly id) k hk
    rw [first] at hk₁
    obtain ⟨after, hrun, rfl⟩ := run_branch_eq_ok.1 first
    have hentered := ofContents_orderly.congr (enter_equiv k).symm hk
    obtain ⟨early, hearly, hquiet⟩ := hstep.told hentered.sound hrun
    obtain ⟨new, hnew, hfilter⟩ := ih hk₁
    refine ⟨early ++ new, ?_, ?_⟩
    · rw [hnew, (keep_equiv after).events, hearly, (enter_equiv k).events, List.append_assoc]
    · have hnone : early.filter Event.isFailure = [] :=
        List.filter_eq_nil_iff.2 fun ev hev => by
          rw [Event.isFailure, decide_eq_true_eq]
          exact hquiet ev hev
      rw [List.filter_append, hnone, hfilter]
      rfl
  | @failed id cause tried k k₁ k' first _ ih =>
    have hk₁ := hP.branch (hstep.built id) (hstep.orderly id) k hk
    have hback := equiv_of_branch_error (k := k) (hstep.built id).tame (congrArg Prod.fst first)
    rw [first] at hk₁ hback
    obtain ⟨new, hnew, hfilter⟩ := ih (ofContents_orderly.events _ hk₁)
    refine ⟨Failure.event b ⟨phase, id, cause⟩ :: new, ?_, ?_⟩
    · rw [hnew, hback.events, List.append_assoc]
      rfl
    · rw [List.filter_cons_of_pos rfl, hfilter]
      rfl

/-- As long as each record is in a state in which it fails for lack of funds only, and the others
leave it in such a state, nothing else fails in a pass. -/
theorem Pass.short {Q : ResourceId → Keeper Bank → Prop} (h : Pass step phase b tried k k')
    (hstep : ∀ id, Built (step id))
    (hshort : ∀ {id} {k : Keeper Bank}, Q id k → FailsOnly Fault.IsShortage k (step id))
    (hcontents : ∀ id, OfContents (Q id))
    (hQ : ∀ {id j}, id ≠ j → Keeps (Q j) (branch (step id))) (hnodup : tried.ids.Nodup)
    (hids : ∀ id ∈ tried.ids, Q id k) :
    ∀ f ∈ tried.failures phase, (Fault.refused f.cause).IsShortage := by
  have hrest : ∀ {id} {tried : Attempts α} {k k₁ : Keeper Bank} {result},
      k.run (branch (step id)) = (result, k₁) → id ∉ tried.ids → (∀ j ∈ id :: tried.ids, Q j k) →
      ∀ j ∈ tried.ids, Q j k₁ := by
    intro id tried k k₁ result first hnew hids j hj
    have hne : id ≠ j := by
      rintro rfl
      exact hnew hj
    have hafter := hQ hne k (hids j (List.mem_cons_of_mem _ hj))
    rw [first] at hafter
    exact hafter
  induction h with
  | nil => exact fun f hf => absurd hf List.not_mem_nil
  | done first _ ih =>
    obtain ⟨hnew, hnodup⟩ := List.nodup_cons.1 hnodup
    exact ih hnodup (hrest first hnew hids)
  | @failed id _ _ _ _ _ first _ ih =>
    obtain ⟨hnew, hnodup⟩ := List.nodup_cons.1 hnodup
    intro f hf
    rcases List.mem_cons.1 hf with rfl | hf
    · have hbranch := (hshort (hids id List.mem_cons_self)).branch (hstep id).tame
      exact hbranch _ (congrArg Prod.fst first)
    · exact ih hnodup (fun j hj => (hcontents j).events _ (hrest first hnew hids j hj)) f hf

/-- Without the records that failed, the others come out the same. -/
theorem Pass.without_failures (h : Pass step phase b tried k k') (hstep : ∀ id, Built (step id))
    (hsame : SameBooks k k₁) :
    ∃ k₁', Pass step phase b tried.succeeded k₁ k₁' ∧ SameBooks k' k₁' := by
  induction h generalizing k₁ with
  | nil k => exact ⟨k₁, .nil k₁, hsame⟩
  | @done id a tried k k₂ k' first _ ih =>
    obtain ⟨hresult, hafter⟩ := (Built.branch (hstep id)).sameBooks hsame
    rw [first] at hresult hafter
    obtain ⟨k₁', hpass, hsame'⟩ := ih hafter
    have hfirst := run_of_fst hresult.symm
    exact ⟨k₁', .done hfirst hpass, hsame'⟩
  | @failed id cause tried k k₂ k' first _ ih =>
    -- The branch went back, so that `k₁` is still the same but for the events.
    have hback := equiv_of_branch_error (k := k) (hstep id).tame (congrArg Prod.fst first)
    rw [first] at hback
    exact ih ⟨hback.registry.trans hsame.registry, hback.book.trans hsame.book,
      hback.config.trans hsame.config⟩

/-! ## Blocks -/

/-- The resource is closed, has deposits, and is past its lock. -/
def IsDue (k : Keeper Bank) (t : Instant) (id : ResourceId) : Prop :=
  ∃ p x, k.registry.params = .ok p ∧ k.registry.resource id = .ok x ∧
    (DepositLock.ofParams p).isDue x t = true

theorem ascending_dueIds (hl : k.registry.Laid) (p : Params) (t : Instant) :
    Registry.Ascending (k.dueIds p t) :=
  hl.ascending_resourceIds.sublist (List.filter_sublist.map Resource.id)

theorem mem_dueIds (hl : k.registry.Laid) {p : Params} (hp : k.registry.market.params = some p)
    {t : Instant} : id ∈ k.dueIds p t ↔ k.IsDue t id := by
  have htable := Registry.isTable_resources hl
  constructor
  · intro hid
    obtain ⟨x, hmem, rfl⟩ := List.mem_map.1 hid
    obtain ⟨hmem, hdue⟩ := List.mem_filter.1 hmem
    have hx := (htable.mem_iff x).1 hmem
    exact ⟨p, x, Registry.params_eq_ok.2 hp, (Registry.resource_eq_ok hl).2 hx, hdue⟩
  · rintro ⟨p', x, hp', hx, hdue⟩
    rw [Registry.params_eq_ok, hp] at hp'
    obtain rfl := Option.some.inj hp'
    have hx' := (Registry.resource_eq_ok hl).1 hx
    obtain rfl := Registry.id_of_market hl hx'
    exact List.mem_map_of_mem (List.mem_filter.2 ⟨(htable.mem_iff x).2 hx', hdue⟩)

/-- What is due depends on the custody of the deposits alone. -/
theorem IsDue.congr (hl : k.registry.Laid) (hl' : k'.registry.Laid)
    (hparams : k.registry.market.params = k'.registry.market.params)
    (hcustody : (k.registry.market.resource id).map Resource.custody =
      (k'.registry.market.resource id).map Resource.custody) {t : Instant} (h : k.IsDue t id) :
    k'.IsDue t id := by
  obtain ⟨p, x, hp, hx, hdue⟩ := h
  rw [Registry.params_eq_ok, hparams] at hp
  rw [(Registry.resource_eq_ok hl).1 hx] at hcustody
  obtain ⟨y, hy, hsame⟩ := Option.map_eq_some_iff.1 hcustody.symm
  refine ⟨p, y, Registry.params_eq_ok.2 hp, (Registry.resource_eq_ok hl').2 hy, ?_⟩
  obtain ⟨hdeposits, hstatus, hclosedAt⟩ := Custody.mk.inj hsame
  rw [DepositLock.isDue, DepositLock.unlocksAt?, hdeposits, hstatus, hclosedAt]
  exact hdue

/-- The settlement of leases makes no deposit due, and none undue. -/
theorem Pass.isDue_iff {tried : Attempts Outcome}
    (h : Pass (settleLease b) .settleLeases b tried k k') (hk : k.Sound) (t : Instant) :
    k'.IsDue t id ↔ k.IsDue t id := by
  have hkeeping : Keeping k.registry.market.params id
      ((k.registry.market.resource id).map Resource.custody) k' :=
    h.keeps ofContents_keeping (keeps_keeping_settle b) ⟨hk, rfl, rfl⟩
  have hl := hk.1
  have hl' := hkeeping.sound.1
  exact ⟨.congr hl' hl hkeeping.params_eq hkeeping.custody_eq,
    .congr hl hl' hkeeping.params_eq.symm hkeeping.custody_eq.symm⟩

/-- The leases that a block settled in a pass, and then the deposits that it released. -/
def Passes (b : Block) (settled : Attempts Outcome) (released : Attempts (List (Account × Coin)))
    (k k' : Keeper Bank) : Prop :=
  ∃ k₁, Pass (settleLease b) .settleLeases b settled k k₁ ∧
    Pass (releaseDeposits b) .releaseDeposits b released k₁ k'

/-- A block tries every lease that is stored, and then every deposit that is due, each once and in
the order of the ids. -/
structure Processed (b : Block) (settled : Attempts Outcome)
    (released : Attempts (List (Account × Coin))) (k k' : Keeper Bank) : Prop where
  leases : ∀ id, id ∈ settled.ids ↔ k.registry.hasLease id = true
  leases_ascending : Registry.Ascending settled.ids
  deposits : ∀ id, id ∈ released.ids ↔ k.IsDue b.time id
  deposits_ascending : Registry.Ascending released.ids
  passes : Passes b settled released k k'

variable {report : Report} {settled : Attempts Outcome}
  {released : Attempts (List (Account × Coin))}

theorem exists_settlePass (hk : k.Orderly) (b : Block) (report : Report) :
    ∃ settled report' k', k.run (Engine.settleLeases b report) = (.ok report', k') ∧
      settled.ids = k.registry.leaseList.map Lease.resourceId ∧
      Pass (settleLease b) .settleLeases b settled k k' ∧ k'.Orderly ∧
      report'.failures = report.failures ++ settled.failures .settleLeases := by
  obtain ⟨settled, report', k', hrun, hrest⟩ := exists_pass (routine_settleLease b)
    (tries_settleOne b) hk (k.registry.leaseList.map Lease.resourceId) report
  refine ⟨settled, report', k', ?_, hrest⟩
  rw [Engine.settleLeases, run_bind, run_read, Registry.leaseIds_eq hk.sound.1]
  exact hrun

theorem exists_releasePass (hk : k.Orderly) {p : Params} (hp : k.registry.market.params = some p)
    (b : Block) (report : Report) :
    ∃ released report' k', k.run (Engine.releaseDeposits b report) = (.ok report', k') ∧
      released.ids = k.dueIds p b.time ∧
      Pass (releaseDeposits b) .releaseDeposits b released k k' ∧ k'.Orderly ∧
      report'.failures = report.failures ++ released.failures .releaseDeposits := by
  obtain ⟨released, report', k', hrun, hrest⟩ := exists_pass (routine_releaseDeposits b)
    (tries_releaseOne b) hk (k.dueIds p b.time) report
  refine ⟨released, report', k', ?_, hrest⟩
  rw [Engine.releaseDeposits, run_bind, run_read, Registry.params_eq_ok.2 hp]
  show k.run (read Registry.resources >>= _) = _
  rw [run_bind, run_read, Registry.resources_eq hk.sound.1]
  exact hrun

/-- A block at a new height is settled, and reports each failure. -/
theorem exists_processed (hk : k.Orderly) {e : Engine} {b : Block}
    (hnew : e.lastHeight.all (· < b.height) = true) :
    ∃ report settled released k', k.run (e.beginBlock b) = (.ok (report, ⟨some b.height⟩), k') ∧
      Processed b settled released k k' ∧
      report.failures = settled.failures .settleLeases ++ released.failures .releaseDeposits := by
  have hl := hk.sound.1
  obtain ⟨settled, report₁, k₁, hsettle, hsettled, hpass₁, hk₁, hfailures₁⟩ :=
    exists_settlePass hk b (.empty b.height)
  obtain ⟨p, hp⟩ := hk₁.sound.2
  have hl₁ := hk₁.sound.1
  obtain ⟨released, report, k', hrelease, hreleased, hpass, -, hfailures⟩ :=
    exists_releasePass hk₁ hp.params_eq b report₁
  refine ⟨report, settled, released, k', run_beginBlock_of_ok hnew hsettle hrelease, ?_, ?_⟩
  · exact {
      leases id := by
        rw [hsettled, Registry.hasLease_eq hl,
          (Registry.isTable_leases hl).mem_map_key fun _ _ => Registry.resourceId_of_market hl]
      leases_ascending := hsettled ▸ hl.ascending_leaseIds
      deposits id := by
        rw [hreleased, mem_dueIds hl₁ hp.params_eq, hpass₁.isDue_iff hk.sound]
      deposits_ascending := hreleased ▸ ascending_dueIds hl₁ p b.time
      passes := ⟨k₁, hpass₁, hpass⟩ }
  · rw [hfailures, hfailures₁]
    rfl

/-- In all, the events tell just the failures, in order. -/
theorem Passes.told (h : Passes b settled released k k') (hk : k.Orderly) :
    ∃ new, k'.events = k.events ++ new ∧ new.filter Event.isFailure =
      (settled.failures .settleLeases ++ released.failures .releaseDeposits).map
        (Failure.event b) := by
  obtain ⟨k₁, hsettle, hrelease⟩ := h
  have hk₁ : k₁.Orderly := hsettle.keeps ofContents_orderly (fun id =>
    ofContents_orderly.recoverable.branch (built_settleLease b id) (orderly_settleLease b id)) hk
  obtain ⟨new₁, hnew₁, hfilter₁⟩ := hsettle.told (routine_settleLease b) hk
  obtain ⟨new₂, hnew₂, hfilter₂⟩ := hrelease.told (routine_releaseDeposits b) hk₁
  refine ⟨new₁ ++ new₂, ?_, ?_⟩
  · rw [hnew₂, hnew₁, List.append_assoc]
  · rw [List.filter_append, hfilter₁, hfilter₂, List.map_append]

theorem Passes.without_failures (h : Passes b settled released k k') :
    ∃ k'', Passes b settled.succeeded released.succeeded k k'' ∧ SameBooks k' k'' := by
  obtain ⟨k₁, hsettle, hrelease⟩ := h
  obtain ⟨k₂, hsettle', hsame⟩ :=
    hsettle.without_failures (built_settleLease b) (SameContents.refl k).sameBooks
  obtain ⟨k'', hrelease', hsame'⟩ := hrelease.without_failures (built_releaseDeposits b) hsame
  exact ⟨k'', ⟨k₂, hsettle', hrelease'⟩, hsame'⟩

/-- Whatever the host started from and ran, and whatever escrow holds, a block at a new height is
settled. It tries each lease and each deposit that is due, reports and tells each failure once, and
leaves the records and balances that it would leave if it tried only the records that succeed. -/
theorem failed_records_leave_no_trace {start : Keeper Bank} (hstart : start.Started)
    (hbank : start.ledger.Reached) (steps : List Step) {e : Engine} {b : Block}
    (hnew : e.lastHeight.all (· < b.height) = true) :
    ∃ report settled released k',
      (start.after steps).run (e.beginBlock b) = (.ok (report, ⟨some b.height⟩), k') ∧
      Processed b settled released (start.after steps) k' ∧
      report.failures = settled.failures .settleLeases ++ released.failures .releaseDeposits ∧
      (∃ new, k'.events = (start.after steps).events ++ new ∧
        new.filter Event.isFailure = report.failures.map (Failure.event b)) ∧
      ∃ k'', Passes b settled.succeeded released.succeeded (start.after steps) k'' ∧
        SameBooks k' k'' := by
  have hk := hstart.orderly_after hbank steps
  obtain ⟨report, settled, released, k', hrun, hprocessed, hfailures⟩ := exists_processed hk hnew
  refine ⟨report, settled, released, k', hrun, hprocessed, hfailures, ?_, ?_⟩
  · rw [hfailures]
    exact hprocessed.passes.told hk
  · exact hprocessed.passes.without_failures

end Keeper

namespace Sample

def node (id : ResourceId) (price : UInt64) : Resource where
  id
  owner
  url := "https://node.example"
  info := ⟨"node", "", ""⟩
  hardware := ⟨4, 16, 500⟩
  pricePerHour := coins price
  status := .active
  leased := true
  deposits := [⟨owner, coins 1000, (block 0).time⟩]
  registeredAt := (block 0).time
  closedAt := none

/-- A node that was closed when it was registered. -/
def closedNode : Resource :=
  { node ⟨"node3", by decide⟩ 10 with
    status := .closed, leased := false, closedAt := some (block 0).time }

/-- The lessee has taken the node for three hours. -/
def leaseOf (x : Resource) (total : UInt64) : Lease where
  resourceId := x.id
  lessee
  owner
  pricePerHour := x.pricePerHour
  hours := 3
  startedAt := (block 0).time
  total := coins total
  settled := coins 0
  settledAt := (block 0).time

/-- Two leased nodes, one for a hundred an hour and one for ten, and a closed one. -/
def threeNodes : Genesis where
  params := .default
  resources := [node nodeId 100, node ⟨"node2", by decide⟩ 10, closedNode]
  leases := [leaseOf (node nodeId 100) 300, leaseOf (node ⟨"node2", by decide⟩ 10) 30]
  nextId := 1

/-- Escrow holds fifty, far less than is owed. -/
def poorBank : Bank :=
  .ofValue {
    balances := .ofList [(⟨config.escrow, "umedia"⟩, .ofUInt64 50)]
    supply := { Supply.empty with minted := .ofList [("umedia", .ofUInt64 50)] } }

theorem reached_poorBank : poorBank.Reached :=
  .mint .empty (by decide +kernel : Bank.empty.mint config.escrow (coins 50) = .ok poorBank)

/-- The three nodes imported over this bank. -/
def poorKeeper : Keeper Bank := ((keeperOver poorBank).run (Keeper.initGenesis threeNodes)).2

theorem started_poorKeeper : poorKeeper.Started :=
  .imported (Prod.ext (by decide +kernel : ((keeperOver poorBank).run
    (Keeper.initGenesis threeNodes)).1 = .ok ()) rfl)

end Sample

namespace Keeper

/-- Here the first node costs more than escrow holds, and so do the deposits of the closed one. The
lease of the second node is completed between them, with or without them. -/
theorem poor_escrow_completes_one_lease :
    ∃ report, ∃ (settled : Attempts Outcome) (released : Attempts (List (Account × Coin))),
      ∃ k' k'',
      Sample.poorKeeper.run (Engine.fresh.beginBlock (Sample.block 1000)) =
        (.ok (report, ⟨some 1000⟩), k') ∧
      report.leasesCompleted = 1 ∧
      report.failures.map (fun f => (f.phase, f.resourceId.text)) =
        [(.settleLeases, "node1"), (.releaseDeposits, "node3")] ∧
      Passes (Sample.block 1000) settled.succeeded released.succeeded Sample.poorKeeper k'' ∧
      Ledger.balance k''.ledger Sample.config.escrow "umedia" = Sample.coins 20 := by
  obtain ⟨report, settled, released, k', hrun, -, -, -, k'', hpasses, hsame⟩ :=
    failed_records_leave_no_trace Sample.started_poorKeeper Sample.reached_poorBank []
      (e := .fresh) (b := Sample.block 1000) rfl
  have hreport : (Sample.poorKeeper.run (Engine.fresh.beginBlock (Sample.block 1000))).1.map
      (fun done => (done.1.leasesCompleted,
        done.1.failures.map fun f => (f.phase, f.resourceId.text))) =
      .ok (1, [(.settleLeases, "node1"), (.releaseDeposits, "node3")]) := by decide +kernel
  have hbalance : Ledger.balance
      (Sample.poorKeeper.run (Engine.fresh.beginBlock (Sample.block 1000))).2.ledger
      Sample.config.escrow "umedia" = Sample.coins 20 := by decide +kernel
  have hrun' : Sample.poorKeeper.run (Engine.fresh.beginBlock (Sample.block 1000)) =
    (.ok (report, ⟨some 1000⟩), k') := hrun
  rw [hrun'] at hreport hbalance
  obtain ⟨hcompleted, hfailures⟩ := Prod.mk.inj (Except.ok.inj hreport)
  refine ⟨report, settled, released, k', k'', hrun', hcompleted, hfailures, hpasses, ?_⟩
  rw [← hbalance]
  exact congrArg (fun book : Book => Ledger.balance (Journaled.ofValue book : Bank)
    Sample.config.escrow "umedia") hsame.book.symm

end Keeper

end LeaseEscrow
