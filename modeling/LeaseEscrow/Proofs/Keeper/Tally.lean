import Mathlib.Data.Set.Card
import LeaseEscrow.Proofs.Keeper.Custody
import LeaseEscrow.Proofs.Keeper.Log
import LeaseEscrow.Proofs.Keeper.Order
import LeaseEscrow.Proofs.Keeper.Pace

/-!
# What a block reports

A report counts results, one for each record that a block comes to. Main statement
(`report_matches_block`): what it counts is what the block did. The leases it has as settled are
those that were paid out, the ones it has as completed are gone, the resources it has as released
have no deposits any more; escrow paid what the events of the block tell; and a report without any
counts is that of a block that changed nothing.
-/

namespace LeaseEscrow

/-! ## What is told -/

namespace Event

/-- Of a settlement or of a release, the events that tell of coins that left escrow. -/
def isPayout (ev : Event) : Bool := ev.kind = .leasePaymentSettled ∨ ev.kind = .depositsReleased

variable {denom : String} {new : List Event}

theorem OfBlock.gained {ev : Event} (h : ev.OfBlock) :
    gained denom [ev] = -(([ev].filter isPayout).map (paidOut denom)).sum := by
  obtain ⟨kind, height, subject, detail⟩ := ev
  rw [gained_singleton]
  rcases h with rfl | rfl | rfl
  · show 0 - paidOut denom _ = -(paidOut denom _ + 0)
    ring
  · exact (sub_self 0).trans neg_zero.symm
  · show 0 - paidOut denom _ = -(paidOut denom _ + 0)
    ring

theorem gained_of_block (h : ∀ ev ∈ new, ev.OfBlock) :
    gained denom new = -((new.filter isPayout).map (paidOut denom)).sum := by
  induction new with
  | nil => exact (sub_self 0).trans neg_zero.symm
  | cons ev new ih =>
    obtain ⟨hev, hnew⟩ := List.forall_mem_cons.1 h
    have hfilter : (ev :: new).filter isPayout = [ev].filter isPayout ++ new.filter isPayout :=
      List.filter_append [ev] new
    rw [hfilter, List.map_append, List.sum_append, neg_add, ← hev.gained, ← ih hnew]
    exact gained_append denom [ev] new

theorem gained_flatMap {α : Type} (f : α → List Event) (l : List α) :
    gained denom (l.flatMap f) = (l.map fun x => gained denom (f x)).sum := by
  induction l with
  | nil => exact sub_self 0
  | cons x l ih => rw [List.flatMap_cons, gained_append, ih, List.map_cons, List.sum_cons]

end Event

namespace Keeper

variable {α : Type} {c : Config} {k k₁ k' : Keeper Bank} {b : Block} {id : ResourceId}
  {ids : List ResourceId} {step : ResourceId → Action Bank α} {a : α} {new : List Event}
  {l : Lease} {outcome : Outcome} {denom : String}

/-- What the action tells when it succeeds is what it pays out of escrow. -/
def Tells (step : ResourceId → Action Bank α) : Prop :=
  ∀ {id a k k'}, k.Sound → k.run (step id) = (.ok a, k') →
    ∃ new, Logs (fun _ => False) k k' new ∧ ∀ ev ∈ new, ev.OfBlock

theorem tells_settleLease (b : Block) : Tells (settleLease b) := by
  intro id outcome k k' hk h
  obtain ⟨new, hlogs, hkinds, -⟩ := logs_settleLease hk h
  exact ⟨new, hlogs, hkinds⟩

theorem tells_releaseDeposits (b : Block) : Tells (releaseDeposits b) :=
  fun hk h => logs_releaseDeposits hk h

/-! ## What leaves escrow -/

/-- A sound keeper that pays nothing to its own escrow account. -/
structure Guarded (c : Config) (k : Keeper Bank) : Prop where
  sound : k.Sound
  config_eq : k.config = c
  payee_ne : ∀ {a}, k.Payee a → a ≠ c.escrow

theorem ofContents_guarded : OfContents (Guarded c) where
  congr h hk :=
    { sound := ofContents_sound.congr h hk.sound
      config_eq := h.config ▸ hk.config_eq
      payee_ne := fun ha =>
        hk.payee_ne (ha.congr (Registry.market_congr h.registry).symm h.config.symm) }
  events _ hk := ⟨hk.sound, hk.config_eq, fun ha => hk.payee_ne (ha.congr rfl rfl)⟩

theorem Guarded.accounted (hk : k.Guarded c) {sender : Account → Prop}
    (hsender : ∀ s, sender s → s ≠ c.escrow) (h : Accounted sender k k') : k'.Guarded c where
  sound := h.sound
  config_eq := h.config_eq.trans hk.config_eq
  payee_ne ha := (h.payee ha).elim hk.payee_ne (hsender _)

theorem guarded_create {ledger : Bank} {params : Params} (h : create c ledger params = .ok k) :
    k.Guarded c := by
  have hsound := sound_create h
  obtain ⟨hresource, hlease⟩ := market_create h
  obtain ⟨hconfig, -, rfl⟩ := create_eq_ok.1 h
  rw [Config.validate, check_bind_eq_ok, require_eq_ok] at hconfig
  refine ⟨hsound, rfl, fun ha => ?_⟩
  cases ha with
  | named hx => cases (hresource _).symm.trans hx
  | lessee hl => cases (hlease _).symm.trans hl
  | feeCollector => exact hconfig.1.1.symm
  | communityPool => exact hconfig.1.2.symm

theorem guarded_after {steps : List Step} (hk : k.Guarded c)
    (havoids : ∀ s ∈ steps, s.Avoids c.escrow) : (k.after steps).Guarded c :=
  invariant_after hk fun s hs _ hk =>
    next_of_accounted ofContents_guarded (fun hk => hk.sound)
      (fun _ _ _ hsender hk h => hk.accounted hsender h)
      (fun hk _ => ⟨hk.sound, hk.config_eq, fun ha => hk.payee_ne (ha.congr rfl rfl)⟩)
      s (havoids s hs) hk

theorem keeps_guarded_settle (b : Block) (id : ResourceId) :
    Keeps (Guarded c) (branch (settleLease b id)) := by
  refine ofContents_guarded.recoverable.branch (built_settleLease b id) fun k _ k' hk h => ?_
  have haccounted : Accounted (fun _ => False) k k' := accounted_settleLease hk.sound h
  exact hk.accounted (fun _ hnone => hnone.elim) haccounted

/-- What escrow gains is what the events tell. -/
theorem Logs.gain_eq (h : Logs (fun _ => False) k k' new) (hk : k.Guarded c)
    (hb : k.ledger.current.Balanced) (denom : String) :
    gain k k' ⟨c.escrow, denom⟩ = Event.gained denom new := by
  have hflow := h.flow
  rw [hk.config_eq] at hflow
  have hheld := hflow.holds (Bank.holds_of_balanced hb c.escrow)
    (fun ha => hk.payee_ne (ha.resolve_right id)) False.elim
  rw [gain, (hheld denom).2, add_sub_cancel_left]

theorem Logs.toldAlone_eq {sender : Account → Prop} (h : Logs sender k.enter k₁ new)
    (hkeep : k₁.keep = alone step k id) : toldAlone step k id = new := by
  rw [toldAlone, ← hkeep]
  exact (congrArg (List.drop _) h.events_eq).trans List.drop_left

theorem Tells.alone (hstep : Tells step) (hk : k.Guarded c) (hb : k.ledger.current.Balanced)
    (h : k.run (branch (step id)) = (.ok a, alone step k id)) :
    (∀ denom, gain k (Keeper.alone step k id) ⟨c.escrow, denom⟩ =
      Event.gained denom (toldAlone step k id)) ∧ ∀ ev ∈ toldAlone step k id, ev.OfBlock := by
  obtain ⟨k₁, hrun, hkeep⟩ := run_branch_eq_ok.1 h
  have hentered := ofContents_guarded.congr (enter_equiv k).symm hk
  obtain ⟨new, hlogs, hkinds⟩ := hstep hentered.sound hrun
  rw [hlogs.toldAlone_eq hkeep]
  refine ⟨fun denom => ?_, hkinds⟩
  rw [← hlogs.gain_eq hentered hb denom, ← hkeep, gain, gain,
    Bank.amount_congr (keep_equiv k₁).book, Bank.amount_congr (enter_equiv k).book]

/-- What escrow gains in all is what all events tell. -/
theorem DoneEach.gain_escrow (h : DoneEach step k ids k') (hstep : Tells step) (hk : k.Guarded c)
    (hb : k.ledger.current.Balanced)
    (halone : ∀ id ∈ ids, ∃ a, k.run (branch (step id)) = (.ok a, alone step k id)) :
    (∀ denom, gain k k' ⟨c.escrow, denom⟩ =
      Event.gained denom (ids.flatMap (toldAlone step k))) ∧
    ∀ ev ∈ ids.flatMap (toldAlone step k), ev.OfBlock := by
  have htells : ∀ id ∈ ids, _ := fun id hid => hstep.alone hk hb (halone id hid).choose_spec
  constructor
  · intro denom
    rw [h.gains, Event.gained_flatMap]
    exact congrArg List.sum (List.map_congr_left fun id hid => (htells id hid).1 denom)
  · intro ev hev
    obtain ⟨id, hid, hev⟩ := List.mem_flatMap.1 hev
    exact (htells id hid).2 ev hev

/-! ## What becomes of a lease -/

/-- What is stored of a lease after it was settled with this outcome. -/
inductive Became (l : Lease) : Outcome → Option Lease → Prop where
  | idle : Became l .idle (some l)
  | settled {l' : Lease} {amount : Coin}
      (settled_eq : l'.settled.value = l.settled.value + amount.value) (pos : 0 < amount.value) :
      Became l (.settled amount) (some l')
  | completed {amount : Coin} (denom_eq : amount.denom = l.total.denom) (pos : 0 < amount.value) :
      Became l (.completed amount) none

section Became

variable {after : Option Lease}

/-- A lease that is gone was completed, and not without a payment. -/
theorem Became.completed_of_none (h : Became l outcome none) :
    ∃ amount, outcome = .completed amount ∧ amount.denom = l.total.denom ∧ 0 < amount.value := by
  cases h with
  | completed hdenom hpos => exact ⟨_, rfl, hdenom, hpos⟩

theorem Became.idle_of_same (h : Became l outcome (some l)) : outcome = .idle := by
  cases h with
  | idle => rfl
  | settled hsettled hpos => exact absurd (left_eq_add.1 hsettled) hpos.ne'

theorem Became.completes_iff (h : Became l outcome after) :
    outcome.completes = true ↔ after = none := by
  cases h with
  | idle => exact iff_of_false Bool.false_ne_true (Option.some_ne_none _)
  | settled => exact iff_of_false Bool.false_ne_true (Option.some_ne_none _)
  | completed => exact iff_of_true rfl rfl

theorem Became.pays_iff (h : Became l outcome after) :
    outcome.pays = true ↔
      (∃ l', after = some l' ∧ l.settled.value < l'.settled.value) ∨ after = none := by
  cases h with
  | idle =>
    refine iff_of_false Bool.false_ne_true ?_
    rintro (⟨l', hl', hgrown⟩ | hnone)
    · obtain rfl := Option.some.inj hl'
      exact lt_irrefl _ hgrown
    · exact Option.some_ne_none _ hnone
  | settled hsettled hpos =>
    refine iff_of_true rfl (.inl ⟨_, rfl, ?_⟩)
    rw [hsettled]
    exact lt_add_of_pos_right _ hpos
  | completed _ hpos => exact iff_of_true (Decimal.isPositive_iff.2 hpos) (.inr rfl)

end Became

theorem Settled.became (h : Settled b id k outcome k') (hk : k.LeaseHas Lease.Running id)
    (hl : k.registry.market.lease id = some l) :
    Became l outcome (k'.registry.market.lease id) := by
  obtain ⟨hlaid, p, hp⟩ := hk.sound
  have hvalid := (hp.lease hl).valid
  have hrunning := hk.lease l hl
  cases h with
  | idle => exact hl ▸ .idle
  | spent hlease _ hfully =>
    obtain rfl := Option.some.inj (hl.symm.trans hlease)
    cases (hrunning.not_fullySettled hvalid).symm.trans hfully
  | paid hlease _ hsome _ _ hsettle _ hturned =>
    obtain rfl := Option.some.inj (hl.symm.trans hlease)
    have hpos := hrunning.accrual_pos hvalid hsome
    obtain ⟨-, hwhole, -⟩ := Lease.accrual_of_accrualAt hvalid hsome
    have hplace := Registry.resourceId_of_market hlaid hl
    obtain ⟨settled, settledAt, hadd, -, -, rfl⟩ := Lease.settle_eq_ok.1 hsettle
    rw [hturned.market_eq, ← hplace]
    refine (Market.lease_withLease _ (Lease.plain _)).symm ▸ .settled ?_ hpos
    exact (Coin.value_plain _).trans (Coin.value_add hvalid.settled_whole hwhole hadd)
  | last hlease _ hsome _ _ _ _ hx hturned =>
    obtain rfl := Option.some.inj (hl.symm.trans hlease)
    obtain ⟨hdenom, -, -⟩ := Lease.accrual_of_accrualAt hvalid hsome
    obtain rfl := Registry.id_of_market hlaid hx
    rw [hturned.market_eq, Market.lease_ended]
    exact .completed hdenom (hrunning.accrual_pos hvalid hsome)

theorem became_alone (hk : k.LeaseHas Lease.Running id) (hl : k.registry.market.lease id = some l)
    (h : k.run (branch (settleLease b id)) = (.ok outcome, alone (settleLease b) k id)) :
    Became l outcome ((alone (settleLease b) k id).registry.market.lease id) := by
  obtain ⟨k₁, hrun, hkeep⟩ := run_branch_eq_ok.1 h
  have hentered := ofContents_leaseHas.congr (enter_equiv k).symm hk
  have hl' : k.enter.registry.market.lease id = some l :=
    Registry.market_congr (enter_equiv k).registry ▸ hl
  rw [← hkeep, Registry.market_congr (keep_equiv k₁).registry]
  exact (settleLease_done hentered.sound.1 hrun).became hentered hl'

theorem tellPayment_alone (hk : k.Sound)
    (h : k.run (branch (settleLease b id)) = (.ok outcome, alone (settleLease b) k id)) :
    Event.TellPayment id outcome (toldAlone (settleLease b) k id) := by
  obtain ⟨k₁, hrun, hkeep⟩ := run_branch_eq_ok.1 h
  have hentered := ofContents_sound.congr (enter_equiv k).symm hk
  obtain ⟨new, hlogs, -, htold⟩ : ∃ new, Logs (fun _ => False) k.enter k₁ new ∧ _ :=
    logs_settleLease hentered hrun
  rw [hlogs.toldAlone_eq hkeep]
  exact htold

theorem DoneEach.lease_eq (h : DoneEach step k ids k') (hid : id ∈ ids) :
    k'.registry.market.lease id = (alone step k id).registry.market.lease id := by
  simp only [Registry.market, h.about id hid _ (Key.about_lease id)]

/-! ## Blocks -/

/-- Leases that are all idle leave everything as it was. -/
theorem equiv_of_idle {outcomes : List Outcome} (hl : k.registry.Laid)
    (h : k.run (inTurn (settleLease b) ids) = (.ok outcomes, k'))
    (hidle : ∀ o ∈ outcomes, o = .idle) : k' ≈ k := by
  induction ids generalizing k outcomes with
  | nil =>
    obtain ⟨-, rfl⟩ := run_pure_eq_ok.1 h
    exact .refl k
  | cons id ids ih =>
    obtain ⟨o, rest, k₁, hfirst, hrest, rfl⟩ := run_inTurn_cons_eq_ok.1 h
    obtain ⟨rfl, hothers⟩ := List.forall_mem_cons.1 hidle
    obtain ⟨k₃, hrun, rfl⟩ := run_branch_eq_ok.1 hfirst
    have hlaid := (Registry.laid_congr (enter_equiv k).registry).2 hl
    have hsame : k₃.keep ≈ k := by
      cases settleLease_done hlaid hrun with
      | idle => exact (keep_equiv _).trans (enter_equiv k)
    exact (ih ((Registry.laid_congr hsame.registry).2 hl) hrest hothers).trans hsame

/-- A block of a solvent keeper: the leases that are stored in their turn, and then the deposits
that are due. -/
structure Ran (c : Config) (b : Block) (outcome : ResourceId → Outcome) (due : List ResourceId)
    (k k₁ k' : Keeper Bank) : Prop where
  settling : k.run (inTurn (settleLease b) (k.registry.leaseList.map Lease.resourceId)) =
    (.ok ((k.registry.leaseList.map Lease.resourceId).map outcome), k₁)
  settled : DoneEach (settleLease b) k (k.registry.leaseList.map Lease.resourceId) k₁
  outcomes : ∀ id ∈ k.registry.leaseList.map Lease.resourceId,
    k.run (branch (settleLease b id)) = (.ok (outcome id), alone (settleLease b) k id)
  between : k₁.Solvent c
  due_eq : ∃ p, k₁.registry.market.params = some p ∧ due = k₁.dueIds p b.time
  releasing : Sweep (releaseDeposits b) due k₁ k'
  released : DoneEach (releaseDeposits b) k₁ due k'
  refunds : ∀ id ∈ due,
    ∃ refunds, k₁.run (branch (releaseDeposits b id)) = (.ok refunds, alone (releaseDeposits b) k₁ id)
  solvent : k'.Solvent c

/-- What the engine reports of a block that ran so. -/
def reportOf (b : Block) (outcomes : List Outcome) (released : ℕ) : Report where
  height := b.height
  leasesSettled := outcomes.countP Outcome.pays
  leasesCompleted := outcomes.countP Outcome.completes
  depositsReleased := released
  failures := []

theorem run_releases_of_inTurn (hl : k.registry.Laid) {p : Params}
    (hp : k.registry.market.params = some p) {results : List (List (Account × Coin))}
    (h : k.run (inTurn (releaseDeposits b) (k.dueIds p b.time)) = (.ok results, k'))
    (report : Report) :
    k.run (Engine.releaseDeposits b report) =
      (.ok { report with depositsReleased := report.depositsReleased + results.length }, k') := by
  have hcount : ∀ report : Report,
      results.foldl (fun report _ => { report with depositsReleased := report.depositsReleased + 1 })
        report = { report with depositsReleased := report.depositsReleased + results.length } := by
    clear h
    induction results with
    | nil => exact fun _ => rfl
    | cons refunds results ih =>
      intro report
      rw [List.foldl_cons, ih, List.length_cons, Nat.add_right_comm, Nat.add_assoc]
  rw [Engine.releaseDeposits, run_bind, run_read, Registry.params_eq_ok.2 hp]
  show k.run (read Registry.resources >>= _) = _
  rw [run_bind, run_read, Registry.resources_eq hl, ← hcount]
  exact run_foldlM_of_inTurn
    (fun report _ => { report with depositsReleased := report.depositsReleased + 1 })
    run_releaseOne_of_ok h report

/-- A block at a new height runs, and its report counts what came of it. -/
theorem exists_ran (hk : k.Solvent c) {e : Engine} (hnew : e.lastHeight.all (· < b.height) = true) :
    ∃ outcome due k₁ k', Ran c b outcome due k k₁ k' ∧
      k.run (e.beginBlock b) = (.ok (reportOf b
        ((k.registry.leaseList.map Lease.resourceId).map outcome) due.length,
        ⟨some b.height⟩), k') := by
  obtain ⟨outcome, houtcomes, hany⟩ := hk.exists_outcomes b
  obtain ⟨k₁, hsettling, hk₁, hsettled⟩ := hany _ (.refl _)
  have hl₁ := hk₁.sound.1
  obtain ⟨p, hp⟩ := hk₁.sound.2
  obtain ⟨refunds, hrefunds, hdue⟩ := (separate_releaseDeposits c b).exists_results hk₁
    (nodup_dueIds hl₁ p b.time) fun id hid => closed_of_mem_dueIds hk₁.sound hid
  obtain ⟨k', hreleasing, hk', hreleased⟩ := hdue _ (.refl _)
  refine ⟨outcome, k₁.dueIds p b.time, k₁, k', ?_, ?_⟩
  · exact {
      settling := hsettling, settled := hsettled, outcomes := houtcomes, between := hk₁
      due_eq := ⟨p, hp.params_eq, rfl⟩, releasing := sweep_of_inTurn hreleasing
      released := hreleased, refunds := fun id hid => ⟨_, hrefunds id hid⟩, solvent := hk' }
  · have hsettle := run_settleLeases_of_inTurn hk.sound.1 hsettling (.empty b.height)
    have hrelease := run_releases_of_inTurn hl₁ hp.params_eq hreleasing
    rw [run_beginBlock_of_ok hnew hsettle (hrelease _), foldl_countOutcome]
    simp only [reportOf, Report.empty, Nat.zero_add, List.length_map]

/-! ## What is counted -/

/-- The lease of `id` was paid out: of what is settled there is more than before, or it is gone, and
the events tell of its payment. -/
def PaidLease (k k' : Keeper Bank) (new : List Event) (id : ResourceId) : Prop :=
  ∃ l, k.registry.lease id = .ok l ∧
    ((∃ l', k'.registry.lease id = .ok l' ∧ l.settled.value < l'.settled.value) ∨
      k'.registry.lease id = .error (.leaseNotFound id) ∧
        ∃ ev ∈ new, ev.kind = .leasePaymentSettled ∧ ev.resourceId = some id ∧
          0 < ev.paidOut l.total.denom)

/-- A lease of `id` was stored, and none is any more. -/
def EndedLease (k k' : Keeper Bank) (id : ResourceId) : Prop :=
  (∃ l, k.registry.lease id = .ok l) ∧ k'.registry.lease id = .error (.leaseNotFound id)

/-- There were deposits on the resource of `id`, and there are none any more. -/
def FreedDeposits (k k' : Keeper Bank) (id : ResourceId) : Prop :=
  ∃ x x', k.registry.resource id = .ok x ∧ x.deposits ≠ [] ∧
    k'.registry.resource id = .ok x' ∧ x'.deposits = []

theorem encard_eq_length {P : ResourceId → Prop} (hnodup : ids.Nodup)
    (hP : ∀ id, P id ↔ id ∈ ids) : Set.encard {id | P id} = ids.length := by
  have hset : {id | P id} = (ids.toFinset : Set ResourceId) := by
    ext id
    rw [Set.mem_ofPred_eq, hP, Finset.mem_coe, List.mem_toFinset]
  rw [hset, Set.encard_coe_eq_coe_finsetCard, List.toFinset_card_of_nodup hnodup]

theorem countP_outcomes (f : Outcome → Bool) (outcome : ResourceId → Outcome)
    (ids : List ResourceId) :
    (ids.map outcome).countP f = (ids.filter fun id => f (outcome id)).length := by
  rw [List.countP_map, List.countP_eq_length_filter]
  rfl

theorem isIdle_reportOf {outcomes : List Outcome} {released : ℕ} :
    (reportOf b outcomes released).isIdle = true ↔
      (∀ o ∈ outcomes, o = .idle) ∧ released = 0 := by
  simp only [Report.isIdle, Report.isClean, reportOf, List.isEmpty_nil, Bool.and_true,
    Bool.and_eq_true, beq_iff_eq, List.countP_eq_zero]
  refine and_congr_left fun _ => ⟨fun ⟨hpays, hcompletes⟩ o ho => ?_, fun hidle => ⟨?_, ?_⟩⟩
  · cases o with
    | idle => rfl
    | settled amount => exact absurd rfl (hpays _ ho)
    | completed amount => exact absurd rfl (hcompletes _ ho)
  · intro o ho
    rw [hidle o ho]
    exact Bool.false_ne_true
  · intro o ho
    rw [hidle o ho]
    exact Bool.false_ne_true

/-- The events of a block, settlements first. -/
def toldInBlock (b : Block) (due : List ResourceId) (k k₁ : Keeper Bank) : List Event :=
  (k.registry.leaseList.map Lease.resourceId).flatMap (toldAlone (settleLease b) k) ++
    due.flatMap (toldAlone (releaseDeposits b) k₁)

theorem mem_stored_iff (hl : k.registry.Laid) :
    id ∈ k.registry.leaseList.map Lease.resourceId ↔ ∃ l, k.registry.market.lease id = some l := by
  rw [(Registry.isTable_leases hl).mem_map_key (fun _ _ => Registry.resourceId_of_market hl) id]
  exact Option.isSome_iff_exists

namespace Ran

variable {outcome : ResourceId → Outcome} {due : List ResourceId}

theorem events_eq (h : Ran c b outcome due k k₁ k') :
    k'.events = k.events ++ toldInBlock b due k k₁ := by
  rw [toldInBlock, h.released.told, h.settled.told, List.append_assoc]

theorem became (h : Ran c b outcome due k k₁ k') (hk : k.LeaseHas Lease.Running id)
    (hl : k.registry.market.lease id = some l) :
    Became l (outcome id) (k'.registry.market.lease id) := by
  have hid := (mem_stored_iff hk.sound.1).2 ⟨l, hl⟩
  have halone := became_alone hk hl (h.outcomes id hid)
  rw [← h.settled.lease_eq hid] at halone
  -- Releases leave the lease alone.
  have hstands : Standing c id (k₁.registry.market.lease id) k₁ :=
    ⟨h.between.sound, h.between.config_eq, rfl⟩
  have hkept := h.releasing.keeps (fun j _ => ofContents_standing.recoverable.branch
    (built_releaseDeposits b j) (standing_releaseDeposits b j)) hstands
  rw [hkept.lease_eq]
  exact halone

theorem paidLease_iff (h : Ran c b outcome due k k₁ k') (hk : k.LeaseHas Lease.Running id) :
    PaidLease k k' (toldInBlock b due k k₁) id ↔
      id ∈ (k.registry.leaseList.map Lease.resourceId).filter fun id => (outcome id).pays := by
  have hl := hk.sound.1
  have hl' := h.solvent.sound.1
  rw [List.mem_filter, mem_stored_iff hl]
  simp only [PaidLease, Registry.lease_eq_ok hl, Registry.lease_eq_ok hl',
    Registry.lease_eq_notFound hl']
  constructor
  · rintro ⟨l, hlease, hpaid⟩
    refine ⟨⟨l, hlease⟩, (h.became hk hlease).pays_iff.2 ?_⟩
    exact hpaid.imp_right And.left
  · rintro ⟨⟨l, hlease⟩, hpays⟩
    have hid := (mem_stored_iff hl).2 ⟨l, hlease⟩
    have hbecame := h.became hk hlease
    refine ⟨l, hlease, (hbecame.pays_iff.1 hpays).imp_right fun hgone => ⟨hgone, ?_⟩⟩
    rw [hgone] at hbecame
    obtain ⟨amount, hcompleted, hdenom, hpos⟩ := hbecame.completed_of_none
    obtain ⟨ev, hev, hkind, hsubject, hpaidOut⟩ := tellPayment_alone hk.sound
      (h.outcomes id hid) amount (congrArg Outcome.amount? hcompleted) hpos
    refine ⟨ev, List.mem_append_left _ (List.mem_flatMap.2 ⟨id, hid, hev⟩), hkind, hsubject, ?_⟩
    rw [hpaidOut, Coin.valueIn, if_pos hdenom]
    exact hpos

theorem endedLease_iff (h : Ran c b outcome due k k₁ k') (hk : k.LeaseHas Lease.Running id) :
    EndedLease k k' id ↔
      id ∈ (k.registry.leaseList.map Lease.resourceId).filter fun id => (outcome id).completes := by
  have hl := hk.sound.1
  rw [List.mem_filter, mem_stored_iff hl, EndedLease,
    Registry.lease_eq_notFound h.solvent.sound.1]
  simp only [Registry.lease_eq_ok hl]
  refine and_congr_right fun ⟨l, hlease⟩ => ?_
  exact (h.became hk hlease).completes_iff.symm

theorem freedDeposits_iff (h : Ran c b outcome due k k₁ k') (hk : k.Sound) :
    FreedDeposits k k' id ↔ id ∈ due := by
  have hl := hk.1
  have hl₁ := h.between.sound.1
  have hl' := h.solvent.sound.1
  obtain ⟨p, hp, rfl⟩ := h.due_eq
  -- The settlements leave the deposits alone.
  have hkeeping : Keeping k.registry.market.params id
      ((k.registry.market.resource id).map Resource.custody) k₁ :=
    (sweep_of_inTurn h.settling).keeps (fun j _ => keeps_keeping_settle b j) ⟨hk, rfl, rfl⟩
  constructor
  · rintro ⟨x, x', hx, hdeposits, hx', hempty⟩
    by_contra hid
    have hkept := h.releasing.keeps (fun j hj => keeps_keeping_release b ?_) hkeeping
    · have hcustody := hkept.custody_eq
      rw [(Registry.resource_eq_ok hl).1 hx, (Registry.resource_eq_ok hl').1 hx'] at hcustody
      have hsame : x'.deposits = x.deposits :=
        congrArg Custody.deposits (Option.some.inj hcustody)
      exact hdeposits (hsame ▸ hempty)
    · rintro rfl
      exact hid hj
  · intro hid
    obtain ⟨y, hmem, rfl⟩ := List.mem_map.1 hid
    obtain ⟨hmem, hdue⟩ := List.mem_filter.1 hmem
    have hcustody := hkeeping.custody_eq
    rw [((Registry.isTable_resources hl₁).mem_iff y).1 hmem] at hcustody
    obtain ⟨x, hx, hsame⟩ := Option.map_eq_some_iff.1 hcustody.symm
    rw [hx] at hkeeping
    obtain ⟨_, -, -, -, hafter⟩ := h.releasing.releasing hid (nodup_dueIds hl₁ p b.time) hkeeping
      h.between.config_eq (.empty b.height)
    obtain ⟨x', hx', hempty⟩ := Option.map_eq_some_iff.1 hafter.custody_eq
    refine ⟨x, x', (Registry.resource_eq_ok hl).2 hx, ?_, (Registry.resource_eq_ok hl').2 hx',
      congrArg Custody.deposits hempty⟩
    have hdeposits : x.deposits = y.deposits := congrArg Custody.deposits hsame
    rw [hdeposits]
    exact (DepositLock.isDue_iff.1 hdue).1

theorem escrow_paid (h : Ran c b outcome due k k₁ k') (hk : k.Solvent c) (hguarded : k.Guarded c)
    (denom : String) :
    (Ledger.balance k.ledger c.escrow denom).value -
        (Ledger.balance k'.ledger c.escrow denom).value =
      (((toldInBlock b due k k₁).filter Event.isPayout).map (Event.paidOut denom)).sum := by
  have hguarded₁ : k₁.Guarded c :=
    (sweep_of_inTurn h.settling).keeps (fun j _ => keeps_guarded_settle b j) hguarded
  obtain ⟨hgain, hkinds⟩ := h.settled.gain_escrow (tells_settleLease b) hguarded hk.balanced
    fun id hid => ⟨_, h.outcomes id hid⟩
  obtain ⟨hgain', hkinds'⟩ := h.released.gain_escrow (tells_releaseDeposits b) hguarded₁
    h.between.balanced h.refunds
  have hall : ∀ ev ∈ toldInBlock b due k k₁, ev.OfBlock := fun ev hev =>
    (List.mem_append.1 hev).elim (hkinds ev) (hkinds' ev)
  have htotal : gain k k' ⟨c.escrow, denom⟩ = Event.gained denom (toldInBlock b due k k₁) := by
    rw [gain_trans k k₁, hgain, hgain', toldInBlock, Event.gained_append]
  rw [Event.gained_of_block hall, gain] at htotal
  rw [← neg_eq_iff_eq_neg.2 htotal, neg_sub]
  rfl

/-- A block leaves all records as they are only when nothing came of it; then it changed nothing. -/
theorem idle_iff (h : Ran c b outcome due k k₁ k') (hk : ∀ id, k.LeaseHas Lease.Running id) :
    (∀ o ∈ (k.registry.leaseList.map Lease.resourceId).map outcome, o = .idle) ∧ due.length = 0 ↔
      k'.registry.store.entries = k.registry.store.entries ∧
        ∀ a denom, Ledger.balance k'.ledger a denom = Ledger.balance k.ledger a denom := by
  have hsound : k.Sound := (hk (.ofCounter 0)).sound
  constructor
  · rintro ⟨hidle, hnone⟩
    obtain rfl := List.length_eq_zero_iff.1 hnone
    have hsame : k' ≈ k := by
      cases h.releasing with
      | nil => exact equiv_of_idle hsound.1 h.settling hidle
    refine ⟨congrArg OrderedMap.entries (Registry.equiv_def.1 hsame.registry), fun a denom => ?_⟩
    exact congrArg (Coin.mk denom) (Bank.amount_congr hsame.book ⟨a, denom⟩)
  · rintro ⟨hentries, -⟩
    have hmarket : k'.registry.market = k.registry.market :=
      Registry.market_congr (Registry.equiv_def.2 (OrderedMap.ext hentries))
    constructor
    · intro o ho
      obtain ⟨id, hid, rfl⟩ := List.mem_map.1 ho
      obtain ⟨l, hlease⟩ := (mem_stored_iff hsound.1).1 hid
      have hbecame := h.became (hk id) hlease
      rw [hmarket, hlease] at hbecame
      exact hbecame.idle_of_same
    · rw [List.length_eq_zero_iff, List.eq_nil_iff_forall_not_mem]
      intro id hid
      obtain ⟨x, x', hx, hdeposits, hx', hempty⟩ := (h.freedDeposits_iff hsound).2 hid
      rw [Registry.resource_eq_ok hsound.1] at hx
      rw [Registry.resource_eq_ok h.solvent.sound.1, hmarket, hx] at hx'
      obtain rfl := Option.some.inj hx'
      exact hdeposits hempty

end Ran

/-- After any steps of a host that leave escrow alone, the report of a block at a new height matches
what the block did. The leases it counts as settled are those that were paid out, the ones it counts
as completed are gone, and it counts as released the resources that lost their deposits. Escrow paid
what the payments and releases of the block tell. The report is idle just when no record and no
balance changed. -/
theorem report_matches_block {config : Config} {bank : Bank} {params : Params}
    {start : Keeper Bank} (hcreate : create config bank params = .ok start)
    (hbank : bank.Reached) (steps : List Step) (havoids : ∀ s ∈ steps, s.Avoids config.escrow)
    {e : Engine} {b : Block} (hnew : e.lastHeight.all (· < b.height) = true) :
    let k := start.after steps
    ∃ (report : Report) (k' : Keeper Bank) (new : List Event),
      k.run (e.beginBlock b) = (.ok (report, ⟨some b.height⟩), k') ∧
      k'.events = k.events ++ new ∧
      Set.encard {id | PaidLease k k' new id} = report.leasesSettled ∧
      Set.encard {id | EndedLease k k' id} = report.leasesCompleted ∧
      Set.encard {id | FreedDeposits k k' id} = report.depositsReleased ∧
      (∀ denom, (Ledger.balance k.ledger config.escrow denom).value -
          (Ledger.balance k'.ledger config.escrow denom).value =
        ((new.filter Event.isPayout).map (Event.paidOut denom)).sum) ∧
      (report.isIdle = true ↔ k'.registry.store.entries = k.registry.store.entries ∧
        ∀ a denom, Ledger.balance k'.ledger a denom = Ledger.balance k.ledger a denom) := by
  intro k
  have hk : k.Solvent config := solvent_after (solvent_create hcreate hbank) havoids
  have hguarded : k.Guarded config := guarded_after (guarded_create hcreate) havoids
  have hrunning : ∀ id, k.LeaseHas Lease.Running id := running_after hcreate steps
  obtain ⟨outcome, due, k₁, k', hran, hrun⟩ := exists_ran hk hnew
  have hnodup := (Registry.isTable_leases hk.sound.1).nodup
  refine ⟨_, k', toldInBlock b due k k₁, hrun, hran.events_eq, ?_, ?_, ?_,
    hran.escrow_paid hk hguarded, ?_⟩
  · exact (encard_eq_length (hnodup.filter _) fun id => hran.paidLease_iff (hrunning id)).trans
      (congrArg Nat.cast (countP_outcomes Outcome.pays outcome _).symm)
  · exact (encard_eq_length (hnodup.filter _) fun id => hran.endedLease_iff (hrunning id)).trans
      (congrArg Nat.cast (countP_outcomes Outcome.completes outcome _).symm)
  · obtain ⟨p, -, hdue⟩ := hran.due_eq
    have hnodup' : due.Nodup := hdue ▸ nodup_dueIds hran.between.sound.1 p b.time
    exact encard_eq_length hnodup' fun id => hran.freedDeposits_iff hk.sound
  · rw [isIdle_reportOf]
    exact hran.idle_iff hrunning

/-- The two nodes are settled after an hour, which is all that the second one was leased for, and
then its owner closes it. -/
def closedLater : List Step :=
  Sample.twoNodes ++ [.beginBlock .fresh (Sample.block 1),
    .request (Sample.block 1) (.close ⟨Sample.laterId, Sample.owner⟩)]

/-- Here the lease of one node ends in the block that releases the deposit of the other. -/
theorem report_of_last_hours :
    let k := Sample.keeper.after closedLater
    ∃ (report : Report) (k' : Keeper Bank) (new : List Event),
      k.run (Engine.beginBlock ⟨some 1⟩ (Sample.block 200)) = (.ok (report, ⟨some 200⟩), k') ∧
      report = ⟨200, 1, 1, 1, []⟩ ∧ k'.events = k.events ++ new ∧
      Set.encard {id | PaidLease k k' new id} = 1 ∧ Set.encard {id | EndedLease k k' id} = 1 ∧
      Set.encard {id | FreedDeposits k k' id} = 1 ∧
      ((new.filter Event.isPayout).map (Event.paidOut "umedia")).sum = 1020 ∧
      ¬ (k'.registry.store.entries = k.registry.store.entries ∧
        ∀ a denom, Ledger.balance k'.ledger a denom = Ledger.balance k.ledger a denom) := by
  have hlast : ∀ s ∈ ([.beginBlock .fresh (Sample.block 1),
      .request (Sample.block 1) (.close ⟨Sample.laterId, Sample.owner⟩)] : List Step),
      s.Avoids Sample.config.escrow := by
    simp only [List.forall_mem_cons]
    exact ⟨trivial, show Sample.owner ≠ Sample.config.escrow by decide,
      fun _ hnone => absurd hnone List.not_mem_nil⟩
  have havoids : ∀ s ∈ closedLater, s.Avoids Sample.config.escrow := fun s hs =>
    (List.mem_append.1 hs).elim (Sample.avoids_twoNodes s) (hlast s)
  obtain ⟨report, k', new, hrun, hevents, hpaid, hended, hfreed, hescrow, hidle⟩ :=
    report_matches_block Sample.create_keeper Sample.reached_bank closedLater havoids
      (e := ⟨some 1⟩) (b := Sample.block 200) (by decide)
  have hreport : ((Sample.keeper.after closedLater).run
      (Engine.beginBlock ⟨some 1⟩ (Sample.block 200))).1.map Prod.fst =
      .ok ⟨200, 1, 1, 1, []⟩ := by decide +kernel
  have hbefore : Ledger.balance (Sample.keeper.after closedLater).ledger Sample.config.escrow
      "umedia" = Sample.coins 2020 := by decide +kernel
  have hafter : Ledger.balance ((Sample.keeper.after closedLater).run
      (Engine.beginBlock ⟨some 1⟩ (Sample.block 200))).2.ledger Sample.config.escrow
      "umedia" = Sample.coins 1000 := by decide +kernel
  rw [hrun] at hreport hafter
  obtain rfl : report = ⟨200, 1, 1, 1, []⟩ := Except.ok.inj hreport
  refine ⟨_, k', new, hrun, rfl, hevents, hpaid, hended, hfreed, ?_, hidle.not.1 (by decide)⟩
  have hcoins : ∀ n, (Sample.coins n).value = n.toNat := fun n => Decimal.value_ofUInt64 n
  rw [← hescrow "umedia", hbefore, hafter, hcoins, hcoins]
  show ((2020 : ℕ) : ℚ) - (1000 : ℕ) = 1020
  norm_num

end Keeper

end LeaseEscrow
