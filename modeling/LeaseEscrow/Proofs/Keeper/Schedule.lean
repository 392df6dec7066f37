import LeaseEscrow.Proofs.Keeper.Progress
import LeaseEscrow.Proofs.Sample

/-!
# Charges do not depend on the schedule

A lease may be settled at any times, in any order and any number of times, and be extended in
between. Each settlement charges the hours that have passed since those charged before, and pays
their price. Unless the lease begins in a leap second, or is settled in one that does not end a day,
what it is charged depends on the latest of these times only (`charge_of_lease`): the price of the
whole hours from its start, up to all its hours. A lease that begins in a leap second can be charged
an hour more when it is settled more often (`leap_second_is_charged_twice`).
-/

namespace LeaseEscrow

namespace Keeper

variable {k k' : Keeper Bank} {b : Block} {id j : ResourceId} {report report' : Report}

/-! ## Reports -/

theorem recordFailure_eq_ok {phase : Phase} {cause : Refusal}
    (h : k.run (Engine.recordFailure b report phase j cause) = (.ok report', k')) :
    report' = { report with failures := report.failures ++ [⟨phase, j, cause⟩] } := by
  rw [Engine.recordFailure, emitFailure, run_emit_bind_eq_ok] at h
  exact (run_pure_eq_ok.1 h).1.symm

/-- A lease that a block comes to is settled or reported as a failure. -/
theorem settleOne_eq_ok (h : k.run (Engine.settleOne b report j) = (.ok report', k')) :
    report.failures <+: report'.failures ∧
      ((∃ outcome, (k.run (branch (settleLease b j))).1 = .ok outcome) ∨
        ∃ cause, (⟨.settleLeases, j, cause⟩ : Failure) ∈ report'.failures) := by
  rw [Engine.settleOne, run_bind, run_attempt] at h
  cases hresult : (k.run (branch (settleLease b j))).1 with
  | ok outcome =>
    rw [hresult] at h
    obtain ⟨rfl, -⟩ := run_pure_eq_ok.1 h
    refine ⟨?_, .inl ⟨outcome, rfl⟩⟩
    cases outcome <;> exact List.prefix_rfl
  | error fault =>
    rw [hresult] at h
    cases fault with
    | outOfRange => cases h
    | refused cause =>
      obtain rfl := recordFailure_eq_ok h
      exact ⟨List.prefix_append _ _, .inr ⟨cause, List.mem_append_right _ List.mem_cons_self⟩⟩

theorem releaseOne_eq_ok (h : k.run (Engine.releaseOne b report j) = (.ok report', k')) :
    report.failures <+: report'.failures := by
  rw [Engine.releaseOne, run_bind, run_attempt] at h
  cases hresult : (k.run (branch (releaseDeposits b j))).1 with
  | ok refunds =>
    rw [hresult] at h
    obtain ⟨rfl, -⟩ := run_pure_eq_ok.1 h
    exact List.prefix_rfl
  | error fault =>
    rw [hresult] at h
    cases fault with
    | outOfRange => cases h
    | refused cause =>
      obtain rfl := recordFailure_eq_ok h
      exact List.prefix_append _ _

/-- No failure is taken back. -/
theorem failures_of_foldlM {f : Report → ResourceId → Action Bank Report}
    (hf : ∀ {k k' : Keeper Bank} {report report' : Report} {j : ResourceId},
      k.run (f report j) = (.ok report', k') → report.failures <+: report'.failures) {ids : List ResourceId}
    (h : k.run (ids.foldlM f report) = (.ok report', k')) :
    report.failures <+: report'.failures := by
  induction ids generalizing k report with
  | nil =>
    obtain ⟨rfl, -⟩ := run_pure_eq_ok.1 h
    exact List.prefix_rfl
  | cons j ids ih =>
    obtain ⟨report₁, k₁, hone, hrest⟩ := run_bind_eq_ok.1 h
    exact (hf hone).trans (ih hrest)

theorem mem_settlingEach {ids : List ResourceId} (hid : id ∈ ids)
    (h : k.run (ids.foldlM (Engine.settleOne b) report) = (.ok report', k'))
    (hclean : ∀ f ∈ report'.failures, f.phase = .settleLeases → f.resourceId ≠ id) :
    b.time ∈ (settlingEach b id ids report k).map Settlement.time := by
  induction ids generalizing k report with
  | nil => cases hid
  | cons j ids ih =>
    obtain ⟨report₁, k₁, hone, hrest⟩ := run_bind_eq_ok.1 h
    obtain ⟨-, hsettled⟩ := settleOne_eq_ok hone
    rw [settlingEach, hone, List.map_append, List.mem_append]
    by_cases hj : j = id
    · subst hj
      left
      -- A failure here would still be in the report in the end.
      rcases hsettled with ⟨outcome, hok⟩ | ⟨cause, hfailure⟩
      · rw [if_pos rfl, settling_of_ok (run_of_fst hok)]
        exact List.mem_cons_self
      · have hgrown := failures_of_foldlM (fun h => (settleOne_eq_ok h).1) hrest
        exact absurd rfl (hclean _ (hgrown.subset hfailure) rfl)
    · right
      exact ih ((List.mem_cons.1 hid).resolve_left (Ne.symm hj)) hrest

/-- A block that reports no failure of a lease that is stored settled it at its time. -/
theorem mem_settlements_beginBlock {e e' : Engine} {l : Lease}
    (hlease : k.registry.market.lease id = some l)
    (h : (k.run (e.beginBlock b)).1 = .ok (report, e'))
    (hclean : ∀ f ∈ report.failures, f.phase = .settleLeases → f.resourceId ≠ id) :
    b.time ∈ (k.settlements id (.beginBlock e b)).map Settlement.time := by
  have hrun := run_of_fst h
  obtain ⟨_, hheight, hrun⟩ := run_refusal_bind_eq_ok.1 hrun
  obtain ⟨report₁, k₁, hsettle, hrun⟩ := run_bind_eq_ok.1 hrun
  obtain ⟨report₂, k₂, hrelease, hrun⟩ := run_bind_eq_ok.1 hrun
  obtain ⟨hreport, -⟩ := run_pure_eq_ok.1 hrun
  cases hreport
  obtain ⟨ids, hids, hsettle⟩ := run_read_bind_eq_ok.1 hsettle
  obtain ⟨_, -, hrelease⟩ := run_read_bind_eq_ok.1 hrelease
  obtain ⟨_, -, hrelease⟩ := run_read_bind_eq_ok.1 hrelease
  have hgrown := failures_of_foldlM releaseOne_eq_ok hrelease
  rw [settlements, if_pos (require_eq_ok.1 hheight), hids]
  exact mem_settlingEach (Registry.mem_leaseIds hlease hids) hsettle
    fun f hf => hclean f (hgrown.subset hf)

/-! ## Runs -/

/-- A lease that has been settled so, and what it will be charged whichever way it ends next. -/
structure Billed (c : Config) (t : Terms) (ss : List Settlement) (k : Keeper Bank) (l : Lease) :
    Prop where
  stored : k.registry.lease t.id = .ok l
  /-- The price, the total, what is settled and until when, and what was paid so far. -/
  course : l.Course c t ss
  /-- A block settles the lease at its time, unless it reports a failure of this lease. -/
  block : ∀ {e b report e'}, (k.run (Engine.beginBlock e b)).1 = .ok (report, e') →
    (∀ f ∈ report.failures, f.phase = .settleLeases → f.resourceId ≠ t.id) →
      b.time ∈ (k.settlements t.id (.beginBlock e b)).map Settlement.time
  /-- Settling the lease directly, when it succeeds, does what settling it in a branch does. -/
  direct : ∀ {b outcome k'}, k.run (settleLease b t.id) = (.ok outcome, k') →
    (k.run (branch (settleLease b t.id))).1 = .ok outcome ∧ k.next (.settle b t.id) ≈ k'
  /-- When a step other than a cancellation ends the lease, all its hours have been paid out. -/
  completed : ∀ {s : Step}, ¬ s.Cancels t.id →
    (k.next s).registry.lease t.id = .error (.leaseNotFound t.id) →
      PaidInAll c t.owner t.price.denom (ss ++ k.settlements t.id s)
        (t.price.value * l.hours.toNat)
  /-- The schedule does not matter outside of leap seconds. -/
  schedule : t.start.isLeap = false → (∀ s ∈ ss, s.time.isStray = false) →
    t.hours ss = hoursPassed t.start (ss.map Settlement.time)
  /-- A cancellation charges up to its own time and refunds all other hours, and then the lease
  is gone. -/
  cancelled : ∀ {b : Block} {m : Message.CancelLease} {reply k'}, m.id = t.id →
    k.run (cancelLease b m) = (.ok reply, k') →
      ∃ (book : Book) (charged : ℕ),
        charged = min l.hours.toNat (t.hours (ss ++ [⟨b.time, k.ledger.current, book⟩])) ∧
        (t.start.isLeap = false → (∀ s ∈ ss, s.time.isStray = false) → b.time.isStray = false →
          charged = min l.hours.toNat (max (hoursPassed t.start (ss.map Settlement.time))
            (b.time.hoursSince t.start).toNat)) ∧
        PaidInAll c t.owner t.price.denom (ss ++ [⟨b.time, k.ledger.current, book⟩])
          (t.price.value * charged) ∧
        Moved c.escrow l.lessee reply.refunded book k'.ledger.current ∧
        reply.refunded.denom = t.price.denom ∧
        reply.refunded.value = t.price.value * (l.hours.toNat - charged) ∧
        k'.registry.lease t.id = .error (.leaseNotFound t.id)

/-- What settlements charge, if the lease begins outside of leap seconds. -/
theorem hours_eq_hoursPassed {t : Terms} {ss : List Settlement} (hstart : t.start.isLeap = false)
    (hss : ∀ s ∈ ss, s.time.isStray = false) :
    t.hours ss = hoursPassed t.start (ss.map Settlement.time) := by
  refine hoursCharged_eq_hoursPassed hstart fun time htime => ?_
  obtain ⟨s, hs, rfl⟩ := List.mem_map.1 htime
  exact hss s hs

theorem billed_of_course {c : Config} {t : Terms} {ss : List Settlement} {l : Lease}
    (hs : Standing c t.id (some l) k) (hc : l.Course c t ss) : Billed c t ss k l where
  stored := (Registry.lease_eq_ok hs.sound.1).2 hs.lease_eq
  course := hc
  block := fun h hclean => mem_settlements_beginBlock hs.lease_eq h hclean
  direct := branch_of_ok (tame_settleLease _ _)
  completed := by
    intro s hs' hgone
    rcases course_next hs hc s with ⟨l', hs₁, -⟩ | ⟨-, hpaid⟩
    · cases ((Registry.lease_eq_notFound hs₁.sound.1).1 hgone).symm.trans hs₁.lease_eq
    · exact hpaid hs'
  schedule := hours_eq_hoursPassed
  cancelled := by
    intro b m reply k' hid h
    obtain ⟨book, charged, hcharged, hpaid, hmoved, hdenom, hvalue, hgone⟩ :=
      course_cancelled hs hc hid h
    refine ⟨book, charged, hcharged, fun hstart hss hb => ?_, hpaid, hmoved, hdenom, hvalue,
      (Registry.lease_eq_notFound hgone.sound.1).2 hgone.lease_eq⟩
    have hall : ∀ s ∈ ss ++ [⟨b.time, k.ledger.current, book⟩], s.time.isStray = false := by
      intro s hs
      rcases List.mem_append.1 hs with hs | hs
      · exact hss s hs
      · rwa [List.mem_singleton.1 hs]
    rw [hcharged, hours_eq_hoursPassed hstart hall, List.map_append]
    exact congrArg _ (hoursPassed_append_singleton _ _ _)

/-- A lease that stays stored keeps its course. -/
theorem course_after {c : Config} {t : Terms} {ss : List Settlement} {l : Lease}
    (hs : Standing c t.id (some l) k) (hc : l.Course c t ss) (steps : List Step)
    (hstored : ∀ run, run <+: steps → ∃ l, (k.after run).registry.lease t.id = .ok l) :
    ∃ l', Standing c t.id (some l') (k.after steps) ∧
      l'.Course c t (ss ++ settlementsOf t.id k steps) := by
  induction steps generalizing k ss l with
  | nil => exact ⟨l, hs, (List.append_nil ss).symm ▸ hc⟩
  | cons s steps ih =>
    rcases course_next hs hc s with ⟨l₁, hs₁, hc₁⟩ | ⟨hgone, -⟩
    · have hrest : ∀ run, run <+: steps →
          ∃ l, ((k.next s).after run).registry.lease t.id = .ok l := fun run hrun =>
        hstored (s :: run) (List.cons_prefix_cons.2 ⟨rfl, hrun⟩)
      obtain ⟨l', hs', hc'⟩ := ih hs₁ hc₁ hrest
      rw [List.append_assoc] at hc'
      exact ⟨l', hs', hc'⟩
    · obtain ⟨l', hl'⟩ := hstored [s] (List.cons_prefix_cons.2 ⟨rfl, List.nil_prefix⟩)
      cases hgone.lease_eq.symm.trans ((Registry.lease_eq_ok hgone.sound.1).1 hl')

/-- Whatever the host runs after a lease was taken, and as long as the lease is stored: it is
charged at its own price for the hours that its settlements have charged one after the other. Outside
of leap seconds these are the whole hours from its start to the latest settlement. -/
theorem charge_of_lease {config : Config} {ledger : Bank} {params : Params} {k₀ : Keeper Bank}
    (hcreate : create config ledger params = .ok k₀) (before : List Step)
    {m : Message.TakeLease} {reply : Reply.Leased}
    (htake : (k₀.after before).run (takeLease b m) = (.ok reply, k)) (steps : List Step)
    (hstored : ∀ run, run <+: steps → ∃ l, (k.after run).registry.lease m.id = .ok l) :
    ∃ l, Billed config ⟨m.id, reply.lease.owner, reply.lease.pricePerHour, b.time⟩
      (settlementsOf m.id k steps) (k.after steps) l := by
  obtain ⟨hs, hc⟩ := course_of_taken (sound_after hcreate before) htake
  obtain ⟨-, -, rfl⟩ := create_eq_ok.1 hcreate
  rw [config_after] at hs hc
  obtain ⟨l, hs', hc'⟩ := course_after hs hc steps hstored
  exact ⟨l, billed_of_course hs' hc'⟩

/-- Here the first of three hours of a node has been settled by a block. -/
theorem charge_of_first_hour :
    ∃ reply l, Sample.taking.1 = .ok reply ∧
      Billed Sample.config
        ⟨Sample.nodeId, reply.lease.owner, reply.lease.pricePerHour, (Sample.block 0).time⟩
        (settlementsOf Sample.nodeId Sample.taking.2 [.beginBlock .fresh (Sample.block 1)])
        (Sample.taking.2.after [.beginBlock .fresh (Sample.block 1)]) l ∧
      l.settled = Sample.coins 10 := by
  have hcreate : create Sample.config Sample.bank .default = .ok Sample.keeper :=
    create_eq_ok.2 ⟨by decide +kernel, by decide +kernel, rfl⟩
  have htaken : Sample.taking.1.toOption.isSome = true := by decide +kernel
  have hfirst : (Sample.taking.2.registry.lease Sample.nodeId).toOption.isSome = true := by
    decide +kernel
  have hsecond : ((Sample.taking.2.after [.beginBlock .fresh (Sample.block 1)]).registry.lease
      Sample.nodeId).map Lease.settled = .ok (Sample.coins 10) := by decide +kernel
  cases htake : Sample.taking.1 with
  | error e =>
    rw [htake] at htaken
    cases htaken
  | ok reply =>
    obtain ⟨settled, hsettled, heq⟩ := map_eq_ok.1 hsecond
    have hstored : ∀ run, run <+: [.beginBlock .fresh (Sample.block 1)] →
        ∃ l, (Sample.taking.2.after run).registry.lease Sample.nodeId = .ok l := by
      intro run hrun
      rcases List.prefix_cons_iff.1 hrun with rfl | ⟨rest, rfl, hrest⟩
      · cases hlease : Sample.taking.2.registry.lease Sample.nodeId with
        | error e =>
          rw [hlease] at hfirst
          cases hfirst
        | ok l => exact ⟨l, hlease⟩
      · obtain rfl := List.prefix_nil.1 hrest
        exact ⟨settled, hsettled⟩
    obtain ⟨l, hbilled⟩ := charge_of_lease hcreate _ (run_of_fst htake) _ hstored
    refine ⟨reply, l, rfl, hbilled, ?_⟩
    obtain rfl := Except.ok.inj (hbilled.stored.symm.trans hsettled)
    exact heq

/-- A lease that begins in a leap second is settled a second short of two hours later, and is charged
for one hour; settled once more at the same time, it is charged for a second one. -/
theorem leap_second_is_charged_twice :
    let leased := Sample.keeper.after [.request Sample.leapBlock (.register Sample.registration),
      .request Sample.leapBlock (.lease (Sample.lease 3))]
    let settled := leased.after [.beginBlock .fresh (Sample.afterLeap 1),
      .beginBlock ⟨some 1⟩ (Sample.afterLeap 2)]
    hoursPassed Sample.leapBlock.time [(Sample.afterLeap 1).time, (Sample.afterLeap 2).time] = 1 ∧
      (settled.registry.lease Sample.nodeId).map (fun l => (l.startedAt, l.settled)) =
        .ok (Sample.leapBlock.time, Sample.coins 20) := by
  decide +kernel

end Keeper

end LeaseEscrow
