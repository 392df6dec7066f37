import LeaseEscrow.Proofs.Keeper.Turns

/-!
# The order of settlement

Any two settlements commute, so that the leases can be settled in any order
(`order_does_not_matter`): all of them succeed, and the records, the balances, the outcome of each
lease and the counts of the report are those of a block, which takes the leases by their ids.
-/

namespace LeaseEscrow

namespace Outcome

/-- Whether a report counts the lease as settled; a completion without payment it does not. -/
def pays : Outcome → Bool
  | .idle => false
  | .settled _ => true
  | .completed amount => amount.isPositive

def completes : Outcome → Bool
  | .completed _ => true
  | _ => false

end Outcome

/-- What outcomes add to a report depends on how many there are of each kind. -/
theorem foldl_countOutcome (outcomes : List Outcome) (report : Report) :
    outcomes.foldl Engine.countOutcome report =
      { report with
        leasesSettled := report.leasesSettled + outcomes.countP Outcome.pays
        leasesCompleted := report.leasesCompleted + outcomes.countP Outcome.completes } := by
  induction outcomes generalizing report with
  | nil => rfl
  | cons o outcomes ih =>
    rw [List.foldl_cons, ih, List.countP_cons, List.countP_cons]
    cases o with
    | idle => rfl
    | settled amount => simp only [Engine.countOutcome, Outcome.pays, Outcome.completes]; grind
    | completed amount => simp only [Engine.countOutcome, Outcome.pays, Outcome.completes]; grind

theorem foldl_countOutcome_perm {outcomes outcomes' : List Outcome} (h : outcomes.Perm outcomes')
    (report : Report) :
    outcomes.foldl Engine.countOutcome report = outcomes'.foldl Engine.countOutcome report := by
  rw [foldl_countOutcome, foldl_countOutcome, h.countP_eq, h.countP_eq]

namespace Keeper

variable {c : Config} {k k' : Keeper Bank} {b : Block}

/-- A block settles the stored leases in the order of their ids. -/
theorem run_settleLeases_of_inTurn (hl : k.registry.Laid) {outcomes : List Outcome}
    (h : k.run (inTurn (settleLease b) (k.registry.leaseList.map Lease.resourceId)) =
      (.ok outcomes, k')) (report : Report) :
    k.run (Engine.settleLeases b report) =
      (.ok (outcomes.foldl Engine.countOutcome report), k') := by
  rw [Engine.settleLeases, run_bind, run_read, Registry.leaseIds_eq hl]
  exact run_foldlM_of_inTurn Engine.countOutcome run_settleOne_of_ok h report

/-- The outcomes of all leases that are stored, in whatever order they are settled. -/
theorem Solvent.exists_outcomes (hk : k.Solvent c) (b : Block) :
    let stored := k.registry.leaseList.map Lease.resourceId
    ∃ outcome : ResourceId → Outcome,
      (∀ id ∈ stored,
        k.run (branch (settleLease b id)) = (.ok (outcome id), alone (settleLease b) k id)) ∧
      ∀ ids : List ResourceId, ids.Perm stored →
        ∃ k', k.run (inTurn (settleLease b) ids) = (.ok (ids.map outcome), k') ∧ k'.Solvent c ∧
          DoneEach (settleLease b) k ids k' := by
  intro stored
  have htable := Registry.isTable_leases hk.sound.1
  have : Nonempty Outcome := ⟨.idle⟩
  refine (separate_settleLease c b).exists_results hk htable.nodup fun id hid => ?_
  obtain ⟨l, hmem, rfl⟩ := List.mem_map.1 hid
  exact ⟨l, hk.sound, hk.config_eq, (htable.mem_iff l).1 hmem⟩

/-- After any steps of a host that leave escrow alone, all leases can be settled in any order: the
records, the balances, the outcomes and the counts are those of a block, which takes them by id. -/
theorem order_does_not_matter {config : Config} {bank : Bank} {params : Params}
    {start : Keeper Bank} (hcreate : create config bank params = .ok start)
    (hbank : bank.Reached) (steps : List Step) (havoids : ∀ s ∈ steps, s.Avoids config.escrow)
    (b : Block) (report : Report) :
    let k := start.after steps
    ∃ (stored : List ResourceId) (outcome : ResourceId → Outcome) (report' : Report)
      (last : Keeper Bank), k.registry.leaseIds = .ok stored ∧
      k.run (Engine.settleLeases b report) = (.ok report', last) ∧
      ∀ ids : List ResourceId, ids.Perm stored →
        ∃ k', k.run (inTurn (settleLease b) ids) = (.ok (ids.map outcome), k') ∧
          k'.registry.store.entries = last.registry.store.entries ∧
          (∀ h, (k'.ledger.amount h).value = (last.ledger.amount h).value) ∧
          (ids.map outcome).foldl Engine.countOutcome report = report' := by
  intro k
  have hk : k.Solvent config := solvent_after (solvent_create hcreate hbank) havoids
  have hl := hk.sound.1
  obtain ⟨outcome, -, hany⟩ := hk.exists_outcomes b
  obtain ⟨last, hrun, -, hlast⟩ := hany _ (.refl _)
  refine ⟨_, outcome, _, last, Registry.leaseIds_eq hl, run_settleLeases_of_inTurn hl hrun report,
    fun ids hperm => ?_⟩
  obtain ⟨k', hrun', -, hk'⟩ := hany ids hperm
  refine ⟨k', hrun', ?_, hk'.amount_eq hlast hperm, ?_⟩
  · exact congrArg OrderedMap.entries (hk'.records_eq hlast hperm)
  · exact foldl_countOutcome_perm (hperm.map outcome) report

/-- Here two nodes of one owner are leased, and the one that comes later is settled first. -/
theorem later_node_settled_first :
    let k := Sample.keeper.after Sample.twoNodes
    let b := Sample.block 1
    ∃ (report : Report) (last : Keeper Bank) (outcomes : List Outcome) (k' : Keeper Bank),
      k.run (Engine.settleLeases b (.empty 1)) = (.ok report, last) ∧
      k.run (inTurn (settleLease b) [Sample.laterId, Sample.nodeId]) = (.ok outcomes, k') ∧
      k'.registry.store.entries = last.registry.store.entries ∧
      (k'.ledger.amount ⟨Sample.owner, "umedia"⟩).value =
        (last.ledger.amount ⟨Sample.owner, "umedia"⟩).value ∧
      outcomes.foldl Engine.countOutcome (.empty 1) = report := by
  intro k b
  have hids : k.registry.leaseIds = .ok [Sample.nodeId, Sample.laterId] := by decide +kernel
  obtain ⟨stored, outcome, report, last, hstored, hrun, hany⟩ := order_does_not_matter
    Sample.create_keeper Sample.reached_bank Sample.twoNodes Sample.avoids_twoNodes b (.empty 1)
  obtain rfl := Except.ok.inj (hids.symm.trans hstored)
  obtain ⟨k', hrun', hentries, hamounts, hcount⟩ := hany _ (.swap Sample.nodeId Sample.laterId [])
  exact ⟨report, last, _, k', hrun, hrun', hentries, hamounts _, hcount⟩

end Keeper

end LeaseEscrow
