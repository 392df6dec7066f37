import LeaseEscrow.Proofs.Keeper.Blocks
import LeaseEscrow.Proofs.Keeper.Releases
import LeaseEscrow.Proofs.Lock

/-!
# What blocks do to deposits

Settling leases leaves the deposits of all resources alone. A block that finds the lock of a
closed resource expired releases all its deposits, once, and leaves those of other resources
alone (`releasingDue_of_keeping`).
-/

namespace LeaseEscrow

/-- What of a resource its deposits and their release depend on. -/
structure Custody where
  deposits : List Deposit
  status : Status
  closedAt : Option Instant

def Resource.custody (x : Resource) : Custody := ⟨x.deposits, x.status, x.closedAt⟩

namespace Keeper

variable {α : Type} {c : Config} {k k' : Keeper Bank} {b : Block} {id j : ResourceId}
  {ids : List ResourceId} {p? : Option Params} {v : Option Custody} {market : Market}
  {ledger : Bank}

/-! ## What settlement leaves alone -/

/-- A sound keeper with these parameters, which has the deposits on `id` in this custody. -/
structure Keeping (p? : Option Params) (id : ResourceId) (v : Option Custody) (k : Keeper Bank) :
    Prop where
  sound : k.Sound
  params_eq : k.registry.market.params = p?
  custody_eq : (k.registry.market.resource id).map Resource.custody = v

theorem ofContents_keeping : OfContents (Keeping p? id v) where
  congr h hk :=
    { sound := ofContents_sound.congr h hk.sound
      params_eq := Registry.market_congr h.registry ▸ hk.params_eq
      custody_eq := Registry.market_congr h.registry ▸ hk.custody_eq }
  events _ hk := ⟨hk.sound, hk.params_eq, hk.custody_eq⟩

theorem Keeping.turned (hk : Keeping p? id v k) (hsound : k'.Sound)
    (ht : Turned k k' market ledger) (hparams : market.params = k.registry.market.params)
    {v' : Option Custody} (hcustody : (market.resource id).map Resource.custody = v') :
    Keeping p? id v' k' where
  sound := hsound
  params_eq := ht.market_eq ▸ hparams.trans hk.params_eq
  custody_eq := ht.market_eq ▸ hcustody

/-- The end of a lease changes its flag only. -/
theorem Keeping.ended (hk : Keeping p? id v k) (hsound : k'.Sound) {x : Resource}
    (hx : k.registry.market.resource j = some x)
    (ht : Turned k k' (k.registry.market.ended x) ledger) : Keeping p? id v k' := by
  obtain rfl := Registry.id_of_market hk.sound.1 hx
  refine hk.turned hsound ht rfl ?_
  by_cases hid : id = x.id
  · subst hid
    rw [Market.resource_ended, ← hk.custody_eq, hx]
    rfl
  · rw [((Market.sameOff_ended _ x) id hid).1]
    exact hk.custody_eq

theorem keepsOk_keeping_settle (b : Block) (j : ResourceId) :
    KeepsOk (Keeping p? id v) (settleLease b j) := by
  intro k outcome k' hk h
  have hsettled := settleLease_done hk.sound.1 h
  have hsound := hsettled.sound hk.sound
  cases hsettled with
  | idle => exact hk
  | spent _ _ _ hx hturned => exact hk.ended hsound hx hturned
  | last _ _ _ _ _ _ _ hx hturned => exact hk.ended hsound hx hturned
  | paid _ _ _ _ _ _ _ hturned => exact hk.turned hsound hturned rfl hk.custody_eq

theorem keepsOk_keeping_release (hne : j ≠ id) :
    KeepsOk (Keeping p? id v) (releaseDeposits b j) := by
  intro k refunds k' hk h
  have hsound := keepsOk_releaseDeposits b j k refunds k' hk.sound h
  obtain ⟨x, ledger, hx, -, -, -, hturned⟩ := releaseDeposits_done hk.sound.1 h
  obtain rfl := Registry.id_of_market hk.sound.1 hx
  refine hk.turned hsound hturned rfl ?_
  exact (congrArg _ (Function.update_of_ne hne.symm _ _)).trans hk.custody_eq

theorem keeps_keeping_settle (b : Block) (j : ResourceId) :
    Keeps (Keeping p? id v) (branch (settleLease b j)) :=
  ofContents_keeping.recoverable.branch (built_settleLease b j) (keepsOk_keeping_settle b j)

theorem keeps_keeping_release (b : Block) (hne : j ≠ id) :
    Keeps (Keeping p? id v) (branch (releaseDeposits b j)) :=
  ofContents_keeping.recoverable.branch (built_releaseDeposits b j) (keepsOk_keeping_release hne)

/-! ## Releases -/

/-- A release refunds all deposits of its resource. -/
theorem releasing_of_ok {refunds : List (Account × Coin)} {a : Custody}
    (hk : Keeping p? id (some a) k) (h : k.run (branch (releaseDeposits b id)) = (.ok refunds, k')) :
    ∃ r, k.releasing b id = [r] ∧ r.time = b.time ∧ r.Refunds k.config a.deposits ∧
      Keeping p? id (some { a with deposits := [] }) k' := by
  have hreleasing : k.releasing b id =
      [⟨b.time, refunds, k.ledger.current, k'.ledger.current⟩] := by
    rw [releasing, h]
  obtain ⟨k₁, hrelease, rfl⟩ := run_branch_eq_ok.1 h
  have hentered := ofContents_keeping.congr (enter_equiv k).symm hk
  have hsound := keepsOk_releaseDeposits b id _ refunds k₁ hentered.sound hrelease
  obtain ⟨x, ledger, hx, -, rfl, hrefunded, hturned⟩ :=
    releaseDeposits_done hentered.sound.1 hrelease
  obtain rfl := Registry.id_of_market hentered.sound.1 hx
  have hcustody : x.custody = a := by
    have hsome := hentered.custody_eq
    rw [hx] at hsome
    exact Option.some.inj hsome
  subst hcustody
  have hkept := keep_equiv k₁
  refine ⟨_, hreleasing, rfl, ?_, ?_⟩
  · rw [hkept.book, hturned.ledger_eq]
    exact hrefunded.refunds b.time
  · refine ofContents_keeping.congr hkept.symm (hentered.turned hsound hturned rfl ?_)
    exact congrArg _ (Market.resource_withResource _ { x with deposits := [] })

theorem Sweep.not_releasing (h : Sweep (releaseDeposits b) ids k k') (hid : id ∉ ids)
    (report : Report) : releasingEach b id ids report k = [] := by
  induction h generalizing report with
  | nil => rfl
  | @cons j ids k k₁ k' refunds first _ ih =>
    rw [List.mem_cons, not_or] at hid
    rw [releasingEach, if_neg (Ne.symm hid.1), run_releaseOne_of_ok first]
    exact ih hid.2 _

/-- A sweep that comes by a resource releases its deposits once. -/
theorem Sweep.releasing (h : Sweep (releaseDeposits b) ids k k') (hid : id ∈ ids)
    (hnodup : ids.Nodup) {a : Custody} (hk : Keeping p? id (some a) k) (hconfig : k.config = c)
    (report : Report) :
    ∃ r, releasingEach b id ids report k = [r] ∧ r.time = b.time ∧ r.Refunds c a.deposits ∧
      Keeping p? id (some { a with deposits := [] }) k' := by
  induction h generalizing report with
  | nil => cases hid
  | @cons j ids k k₁ k' refunds first rest ih =>
    rw [List.nodup_cons] at hnodup
    rw [releasingEach, run_releaseOne_of_ok first]
    by_cases hj : j = id
    · -- The rest of the sweep does not come by again.
      subst hj
      obtain ⟨r, hreleasing, htime, hrefunds, hk₁⟩ := releasing_of_ok hk first
      refine ⟨r, ?_, htime, hconfig ▸ hrefunds, rest.keeps (fun i hi => ?_) hk₁⟩
      · rw [if_pos rfl, hreleasing]
        exact congrArg _ (rest.not_releasing hnodup.1 _)
      · refine keeps_keeping_release b ?_
        rintro rfl
        exact hnodup.1 hi
    · have hfirst := keeps_keeping_release b hj k hk
      have hconfig' := (ofContents_config c).recoverable.branch (built_releaseDeposits b j)
        (keepsOk_config (tame_releaseDeposits b j) c) k hconfig
      rw [first] at hfirst hconfig'
      rw [if_neg hj]
      exact ih ((List.mem_cons.1 hid).resolve_left (Ne.symm hj)) hnodup.2 hfirst hconfig' _

/-! ## Blocks -/

/-- What a block makes of the deposits on `id`, once it has settled the leases. -/
theorem releasingDue_of_keeping (hk : k.Solvent c) {p : Params} (hkeeping : Keeping (some p) id v k)
    {report report' : Report} (hrelease : k.run (Engine.releaseDeposits b report) = (.ok report', k')) :
    (∃ a, v = some a ∧ a.deposits ≠ [] ∧ a.status = .closed ∧ (∃ closed, a.closedAt = some closed ∧
        p.Unlocked closed b.time) ∧
      ∃ r, k.releasingDue b report id = [r] ∧ r.time = b.time ∧ r.Refunds c a.deposits ∧
        Keeping (some p) id (some { a with deposits := [] }) k') ∨
    ((∀ a, v = some a → a.deposits ≠ [] → a.status = .closed → ∀ closed, a.closedAt = some closed →
        ¬ p.Unlocked closed b.time) ∧
      k.releasingDue b report id = [] ∧ Keeping (some p) id v k') := by
  have hl := hk.sound.1
  have htable := Registry.isTable_resources hl
  obtain ⟨_, k'', hrun, -, -, hsweep⟩ := exists_releaseSweep hk hkeeping.params_eq b report
  obtain rfl : k'' = k' := congrArg Prod.snd (hrun.symm.trans hrelease)
  have hdue : k.releasingDue b report id =
      releasingEach b id (k.dueIds p b.time) report k := by
    rw [releasingDue, Registry.params_eq_ok.2 hkeeping.params_eq, Registry.resources_eq hl]
    rfl
  rw [hdue]
  by_cases hid : id ∈ k.dueIds p b.time
  · left
    obtain ⟨x, hmem, rfl⟩ := List.mem_map.1 hid
    obtain ⟨hmem, hisDue⟩ := List.mem_filter.1 hmem
    have hv := hkeeping.custody_eq
    rw [(htable.mem_iff x).1 hmem] at hv
    obtain ⟨hdeposits, hclosed, hpassed⟩ := DepositLock.isDue_iff.1 hisDue
    obtain rfl : some x.custody = v := hv
    exact ⟨x.custody, rfl, hdeposits, hclosed, hpassed,
      hsweep.releasing hid (nodup_dueIds hl p b.time) hkeeping hk.config_eq report⟩
  · right
    refine ⟨?_, hsweep.not_releasing hid report, hsweep.keeps (fun i hi => ?_) hkeeping⟩
    · rintro a rfl hdeposits hclosed closed hclosedAt hpassed
      obtain ⟨x, hx, rfl⟩ := Option.map_eq_some_iff.1 hkeeping.custody_eq
      obtain rfl := Registry.id_of_market hl hx
      have hisDue := DepositLock.isDue_iff.2 ⟨hdeposits, hclosed, closed, hclosedAt, hpassed⟩
      exact hid (List.mem_map_of_mem (List.mem_filter.2 ⟨(htable.mem_iff x).2 hx, hisDue⟩))
    · refine keeps_keeping_release b ?_
      rintro rfl
      exact hid hi

end Keeper

end LeaseEscrow
