import LeaseEscrow.Proofs.Keeper.Blocks
import LeaseEscrow.Proofs.Keeper.Origin
import LeaseEscrow.Proofs.Keeper.Settlements

/-!
# Obligations

A keeper that starts out solvent meets its obligations, whatever the host runs
(`obligations_met_after`): its invariants go on to pass, no record fails when a block is settled,
lessees can cancel and get back what is not settled by then, and owners can close what is not
leased.
-/

namespace LeaseEscrow.Keeper

variable {α : Type} {c : Config} {k k' : Keeper Bank} {id : ResourceId}

theorem exists_handle_of_perform {m : Request α} {b : Block} (hcheck : m.check = .ok ())
    (h : ∃ reply k₁, k.enter.run (m.perform b) = (.ok reply, k₁)) :
    ∃ reply, (k.run (m.handle b)).1 = .ok reply := by
  obtain ⟨reply, k₁, hperform⟩ := h
  have hrun := (run_handle_eq_ok b).2 ⟨hcheck, k₁, hperform, rfl⟩
  exact ⟨reply, congrArg Prod.fst hrun⟩

/-- The owner can close a resource exactly when it is neither closed nor leased. -/
theorem closeResource_eq_ok (hk : k.Sound) {x : Resource}
    (hx : k.registry.market.resource id = some x) (b : Block) :
    (k.run (closeResource b ⟨id, x.owner⟩)).1 = .ok () ↔ x.status ≠ .closed ∧ x.leased = false := by
  have hentered := ofContents_sound.congr (enter_equiv k).symm hk
  constructor
  · intro hok
    obtain ⟨-, k₁, hperform, -⟩ :=
      (run_handle_eq_ok b (m := .close ⟨id, x.owner⟩)).1 (run_of_fst hok)
    obtain ⟨old, hold, -, hopen, hfree, -⟩ := performClosing_done hentered.1 hperform
    obtain rfl := Option.some.inj (hx.symm.trans hold)
    exact ⟨hopen, hfree⟩
  · rintro ⟨hopen, hfree⟩
    obtain ⟨k₁, hperform⟩ := exists_closing hentered hx hopen hfree b
    obtain ⟨_, hok⟩ := exists_handle_of_perform (m := .close ⟨id, x.owner⟩) rfl ⟨(), k₁, hperform⟩
    exact hok

theorem exists_cancelLease (hk : k.Solvent c) {l : Lease} (hlease : k.registry.lease id = .ok l)
    (b : Block) :
    ∃ reply k', k.run (cancelLease b ⟨id, l.lessee⟩) = (.ok reply, k') ∧
      Cancelled b l reply k k' := by
  have hentered := ofContents_solvent.congr (enter_equiv k).symm hk
  have hstored := (Registry.lease_eq_ok hk.sound.1).1 hlease
  obtain ⟨reply, hok⟩ := exists_handle_of_perform (m := .cancel ⟨id, l.lessee⟩) rfl
    (exists_cancellation hentered hstored b)
  obtain ⟨l', hlease', hcancelled⟩ := cancelLease_cancelled hk.sound (run_of_fst hok)
  obtain rfl := Except.ok.inj (hlease.symm.trans hlease')
  exact ⟨reply, _, run_of_fst hok, hcancelled⟩

/-- A keeper that passes its check meets its obligations after every run in which nobody acts for
escrow. -/
theorem obligations_met_after (hstarted : k.Started) (hbank : k.ledger.Reached)
    (hcheck : k.checkInvariants = .ok ()) (steps : List Step)
    (havoids : ∀ s ∈ steps, s.Avoids k.config.escrow) :
    (k.after steps).checkInvariants = .ok () ∧
    (∀ (e : Engine) (b : Block), e.lastHeight.all (· < b.height) = true →
      ∃ report, ((k.after steps).run (e.beginBlock b)).1 = .ok (report, ⟨some b.height⟩) ∧
        report.failures = []) ∧
    (∀ (b : Block) id l, (k.after steps).registry.lease id = .ok l →
      ∃ reply k', (k.after steps).run (cancelLease b ⟨id, l.lessee⟩) = (.ok reply, k') ∧
        Cancelled b l reply (k.after steps) k') ∧
    ∀ (b : Block) id x, (k.after steps).registry.resource id = .ok x →
      (((k.after steps).run (closeResource b ⟨id, x.owner⟩)).1 = .ok () ↔
        x.status ≠ .closed ∧ x.leased = false) := by
  have hk := solvent_after (hstarted.solvent hbank hcheck) havoids
  have hl := hk.sound.1
  refine ⟨?_, ?_, ?_, ?_⟩
  · rw [checkInvariants_eq_ok hk.sound hk.balanced, hk.config_eq]
    exact hk.covered
  · intro e b hnew
    obtain ⟨report, _, _, _, hrun, hclean, -⟩ := exists_beginBlock hk b hnew
    exact ⟨report, congrArg Prod.fst hrun, hclean⟩
  · intro b id l hlease
    exact exists_cancelLease hk hlease b
  · intro b id x hx
    exact closeResource_eq_ok hk.sound ((Registry.resource_eq_ok hl).1 hx) b

/-- Here the lessee cancels after the first of three hours has been settled. -/
theorem leased_node_can_be_cancelled :
    (Sample.keeper.after Sample.firstHour).checkInvariants = .ok () ∧
      ∃ reply k', (Sample.keeper.after Sample.firstHour).run
          (cancelLease (Sample.block 2) Sample.cancellation) = (.ok reply, k') ∧
        k'.registry.lease Sample.nodeId = .error (.leaseNotFound Sample.nodeId) := by
  have hcheck : Sample.keeper.checkInvariants = .ok () := by decide +kernel
  obtain ⟨hinvariants, -, hcancel, -⟩ := obligations_met_after (.created Sample.create_keeper)
    Sample.reached_bank hcheck Sample.firstHour Sample.avoids_firstHour
  have hleased : ((Sample.keeper.after Sample.firstHour).registry.lease Sample.nodeId).map
      (fun l => (l.resourceId, l.lessee)) = .ok (Sample.nodeId, Sample.lessee) := by
    decide +kernel
  obtain ⟨l, hlease, hl⟩ := map_eq_ok.1 hleased
  obtain ⟨hid, hlessee⟩ := Prod.mk.inj hl
  obtain ⟨reply, k', hok, hcancelled⟩ := hcancel (Sample.block 2) Sample.nodeId l hlease
  rw [hlessee] at hok
  exact ⟨hinvariants, reply, k', hok, hid ▸ hcancelled.gone⟩

end LeaseEscrow.Keeper
