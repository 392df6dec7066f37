import LeaseEscrow.Proofs.Charge
import LeaseEscrow.Proofs.Keeper.Settlements
import LeaseEscrow.Proofs.Keeper.Standing

/-!
# The progress of a lease

What each step of a host makes of a running lease: it goes on, charged for the hours that its
settlements have charged one after the other, or its settlements have come to the price of all its
hours and ended it, or it was cancelled.
-/

namespace LeaseEscrow

/-- What stays the same of a lease as long as it is stored. -/
structure Terms where
  id : ResourceId
  owner : Account
  price : Coin
  start : Instant

/-- The hours that a lease is charged for once it has been settled so. -/
def Terms.hours (t : Terms) (ss : List Settlement) : ℕ :=
  hoursCharged t.start (ss.map Settlement.time)

/-- These settlements have charged the lease for part of its hours and paid their price. -/
structure Lease.Course (c : Config) (t : Terms) (ss : List Settlement) (l : Lease) : Prop where
  owner_eq : l.owner = t.owner
  charged : l.Charged t.price t.start (t.hours ss)
  hours_lt : t.hours ss < l.hours.toNat
  paid : PaidInAll c t.owner t.price.denom ss (t.price.value * t.hours ss)

variable {c : Config} {t : Terms} {ss : List Settlement} {l l' : Lease}

theorem Lease.Course.extend {extra : UInt64} (hc : l.Course c t ss) (hl : l.Valid)
    (h : l.extend extra = .ok l') : l'.Course c t ss := by
  have hcharged := hc.charged.extend hl h
  obtain ⟨hbound, _, _, -, -, rfl⟩ := Lease.extend_eq_ok.1 h
  refine ⟨hc.owner_eq, hcharged, ?_, hc.paid⟩
  have hhours := Lease.toNat_hours_extended hbound
  have hlt := hc.hours_lt
  show t.hours ss < (l.hours + extra).toNat
  omega

theorem Lease.Course.plain (hc : l.Course c t ss) (hprice : t.price.plain = t.price) :
    l.plain.Course c t ss :=
  ⟨hc.owner_eq, hc.charged.plain hprice, hc.hours_lt, hc.paid⟩

/-- A settlement charges the whole hours that have passed since the last one that charged any. -/
theorem Lease.Course.hours_append_singleton (hc : l.Course c t ss) (s : Settlement) :
    t.hours (ss ++ [s]) = t.hours ss + (s.time.hoursSince l.settledAt).toNat := by
  rw [Terms.hours, List.map_append, List.map_singleton]
  exact hoursCharged_append_singleton hc.charged.settledAt_eq s.time

namespace Keeper

variable {hours : ℕ} {k k' : Keeper Bank} {b : Block}

/-- A lease of so many hours goes on, or its settlements have ended it. -/
inductive Progress (c : Config) (t : Terms) (hours : ℕ) (ss : List Settlement) (k : Keeper Bank) :
    Prop where
  | running {l : Lease} (standing : Standing c t.id (some l) k) (course : l.Course c t ss)
      (hours_eq : l.hours.toNat = hours)
  | ended (standing : Standing c t.id none k) (hours_le : hours ≤ t.hours ss)
      (paid : PaidInAll c t.owner t.price.denom ss (t.price.value * hours))

theorem ofContents_progress : OfContents (Progress c t hours ss) where
  congr h hk := by
    cases hk with
    | running hs hc hh => exact .running (ofContents_standing.congr h hs) hc hh
    | ended hs hle hp => exact .ended (ofContents_standing.congr h hs) hle hp
  events _ hk := by
    cases hk with
    | running hs hc hh => exact .running (ofContents_standing.events _ hs) hc hh
    | ended hs hle hp => exact .ended (ofContents_standing.events _ hs) hle hp

/-- What keeps the record of the lease, or that there is none, keeps its progress. -/
theorem KeepsOk.progress {α : Type} {a : Action Bank α}
    (h : ∀ l?, KeepsOk (Standing c t.id l?) a) : KeepsOk (Progress c t hours ss) a := by
  intro k x k' hk hrun
  cases hk with
  | running hs hc hh => exact .running (h _ k x k' hs hrun) hc hh
  | ended hs hle hp => exact .ended (h _ k x k' hs hrun) hle hp

/-! ## Settlement -/

/-- One more payment adds its amount to what was paid. -/
theorem PaidOut.paidInAll {ledger ledger' : Bank} {parts : Split} {amount : Coin} {total : ℚ}
    (h : PaidOut c t.owner parts ledger ledger') (hparts : parts.PartsOf amount)
    (hdenom : amount.denom = t.price.denom)
    (hpaid : PaidInAll c t.owner t.price.denom ss total) (now : Instant) :
    PaidInAll c t.owner t.price.denom (ss ++ [⟨now, ledger.current, ledger'.current⟩])
      (total + amount.value) := hpaid.snoc (h.pays hparts now) hdenom

/-- An accrual that has been paid out and recorded charges the lease up to the time of the
settlement, or for all its hours. -/
theorem PaidOut.charged {params : Params} {a : Accrual} {parts : Split} {ledger ledger' : Bank}
    {now : Instant} (hpaid : PaidOut c l.owner parts ledger ledger') (hc : l.Course c t ss)
    (hl : l.Valid) (hsome : l.accrualAt now = .ok (some a))
    (hparts : params.split a.amount = .ok parts) (hsettle : l.settle a = .ok l') :
    l'.Charged t.price t.start (t.hours ss + a.hours.toNat) ∧
      t.hours ss + a.hours.toNat =
        min l.hours.toNat (t.hours (ss ++ [⟨now, ledger.current, ledger'.current⟩])) ∧
      PaidInAll c t.owner t.price.denom (ss ++ [⟨now, ledger.current, ledger'.current⟩])
        (t.price.value * (t.hours ss + a.hours.toNat : ℕ)) := by
  have hafter := hc.hours_append_singleton ⟨now, ledger.current, ledger'.current⟩
  obtain ⟨howner, hcharged, hlt, hbefore⟩ := hc
  obtain ⟨-, hwhole, -⟩ := Lease.accrual_of_accrualAt hl hsome
  obtain ⟨-, hdenom, hvalue, hsum⟩ := hcharged.accrual hl hlt hsome
  have hsnoc := PaidOut.paidInAll (howner ▸ hpaid) (Params.partsOf_split hwhole hparts) hdenom
    hbefore now
  refine ⟨hcharged.settle hl hwhole hvalue hsettle, ?_, ?_⟩
  · rw [hsum, hafter]
  · rwa [Nat.cast_add, mul_add, ← hvalue]

/-- A settlement charges a running lease up to its own time, or for all hours and ends it. -/
theorem Settled.progress {outcome : Outcome} (hk : Standing c t.id (some l) k)
    (hc : l.Course c t ss) (h : Settled b t.id k outcome k') :
    (∃ l', Standing c t.id (some l') k' ∧
        l'.Course c t (ss ++ [⟨b.time, k.ledger.current, k'.ledger.current⟩]) ∧
        l'.hours = l.hours ∧ l'.lessee = l.lessee ∧ ∀ paid, outcome ≠ .completed paid) ∨
      (Standing c t.id none k' ∧
        l.hours.toNat ≤ t.hours (ss ++ [⟨b.time, k.ledger.current, k'.ledger.current⟩]) ∧
        PaidInAll c t.owner t.price.denom
          (ss ++ [⟨b.time, k.ledger.current, k'.ledger.current⟩])
          (t.price.value * l.hours.toNat) ∧
        ∃ paid, outcome = .completed paid) := by
  have hsound := h.sound hk.sound
  obtain ⟨hl, p, hp⟩ := hk.sound
  have hvalid := (hp.lease hk.lease_eq).valid
  have hpos : 0 < t.price.value := hc.charged.price_eq ▸ hvalid.price_pos
  have hplain : t.price.plain = t.price := by
    rw [← hc.charged.price_eq]
    exact congrArg Lease.pricePerHour (Registry.plain_of_market_lease hk.lease_eq)
  obtain rfl := hk.config_eq
  cases h with
  | idle hlease hnone =>
    obtain rfl := Option.some.inj (hk.lease_eq.symm.trans hlease)
    have hsame : t.hours (ss ++ [⟨b.time, k.ledger.current, k.ledger.current⟩]) = t.hours ss := by
      rw [hc.hours_append_singleton, hc.charged.hoursSince_eq_zero hvalid hc.hours_lt hnone,
        Nat.add_zero]
    have hsnoc := hc.paid.snoc
      (pays_zero k.config t.owner t.price.denom b.time k.ledger.current) rfl
    rw [Coin.value_zero, add_zero, ← hsame] at hsnoc
    exact .inl ⟨l, hk, ⟨hc.owner_eq, hsame ▸ hc.charged, hsame ▸ hc.hours_lt, hsnoc⟩, rfl, rfl,
      nofun⟩
  | spent hlease _ hfully =>
    -- A running lease is not charged for all its hours.
    obtain rfl := Option.some.inj (hk.lease_eq.symm.trans hlease)
    exact absurd hc.hours_lt (not_lt.2 ((hc.charged.isFullySettled_iff hpos).1 hfully))
  | @paid lease lease' _ a parts ledger _ hlease _ hsome hparts hpaid hsettle hopen hturned =>
    obtain rfl := Option.some.inj (hk.lease_eq.symm.trans hlease)
    obtain ⟨hcharged, hhours, hsnoc⟩ := hpaid.charged hc hvalid hsome hparts hsettle
    rw [← hturned.ledger_eq] at hhours hsnoc
    have hid := Registry.resourceId_of_market hl hlease
    obtain ⟨settled, settledAt, -, -, -, rfl⟩ := Lease.settle_eq_ok.1 hsettle
    -- The lease goes on, so that the hours were not cut to those that are left.
    have hgoes : t.hours ss + a.hours.toNat < l.hours.toNat :=
      not_le.1 fun hle => Bool.eq_false_iff.1 hopen ((hcharged.isFullySettled_iff hpos).2 hle)
    have hsame : t.hours (ss ++ [⟨b.time, k.ledger.current, k'.ledger.current⟩]) =
        t.hours ss + a.hours.toNat := by omega
    rw [← hsame] at hcharged hgoes hsnoc
    exact .inl ⟨({ l with settled, settledAt } : Lease).plain,
      hk.turned hsound hturned (hid ▸ Market.lease_withLease _ _),
      ⟨hc.owner_eq, hcharged.plain hplain, hgoes, hsnoc⟩, rfl, rfl, nofun⟩
  | @last lease lease' _ a parts ledger x _ hlease _ hsome hparts hpaid hsettle hfully hx
      hturned =>
    obtain rfl := Option.some.inj (hk.lease_eq.symm.trans hlease)
    obtain ⟨hcharged, hhours, hsnoc⟩ := hpaid.charged hc hvalid hsome hparts hsettle
    rw [← hturned.ledger_eq] at hhours hsnoc
    have hid := Registry.id_of_market hl hx
    obtain ⟨_, _, -, -, -, rfl⟩ := Lease.settle_eq_ok.1 hsettle
    -- All hours are charged, and no more than all of them.
    have hall : l.hours.toNat ≤ t.hours ss + a.hours.toNat :=
      (hcharged.isFullySettled_iff hpos).1 hfully
    have heq : t.hours ss + a.hours.toNat = l.hours.toNat := by omega
    rw [heq] at hhours hsnoc
    exact .inr ⟨hk.turned hsound hturned (hid ▸ Market.lease_ended _ x),
      min_eq_left_iff.1 hhours.symm, hsnoc, _, rfl⟩

theorem settling_of_ok {id : ResourceId} {outcome : Outcome}
    (h : k.run (branch (settleLease b id)) = (.ok outcome, k')) :
    k.settling b id = [⟨b.time, k.ledger.current, k'.ledger.current⟩] := by
  rw [settling, h]

theorem settling_of_error {id : ResourceId} {e : Fault}
    (h : (k.run (branch (settleLease b id))).1 = .error e) : k.settling b id = [] := by
  rw [settling]
  generalize k.run (branch (settleLease b id)) = p at h
  obtain ⟨result, k'⟩ := p
  cases h
  rfl

theorem Progress.branch (hk : Progress c t hours ss k) (b : Block) :
    Progress c t hours (ss ++ k.settling b t.id) (k.run (branch (settleLease b t.id))).2 := by
  cases hresult : (k.run (Keeper.branch (settleLease b t.id))).1 with
  | error e =>
    rw [settling_of_error hresult, List.append_nil]
    exact ofContents_progress.congr (equiv_of_branch_error (tame_settleLease b t.id) hresult).symm hk
  | ok outcome =>
    have hrun := run_of_fst hresult
    obtain ⟨k₁, hsettle, hkeep⟩ := run_branch_eq_ok.1 hrun
    have hkept := keep_equiv k₁
    rw [hkeep] at hkept
    refine ofContents_progress.congr hkept.symm ?_
    rw [settling_of_ok hrun, hkept.book]
    cases hk with
    | running hs hc hh =>
      have hentered := ofContents_standing.congr (enter_equiv k).symm hs
      rcases (settleLease_done hentered.sound.1 hsettle).progress hentered hc with
        ⟨l', hs', hc', hsame, -⟩ | ⟨hs', hle, hpaid, -⟩
      · exact .running hs' hc' (hsame ▸ hh)
      · exact .ended hs' (hh ▸ hle) (hh ▸ hpaid)
    | ended hs =>
      -- There is no lease to settle.
      have hentered := ofContents_standing.congr (enter_equiv k).symm hs
      have hnone := hentered.lease_eq
      cases settleLease_done hentered.sound.1 hsettle with
      | idle hlease => cases hnone.symm.trans hlease
      | spent hlease => cases hnone.symm.trans hlease
      | paid hlease => cases hnone.symm.trans hlease
      | last hlease => cases hnone.symm.trans hlease

/-! ## Blocks -/

theorem Progress.settleOne (hk : Progress c t hours ss k) (b : Block) (report : Report)
    (j : ResourceId) :
    Progress c t hours (ss ++ if j = t.id then k.settling b t.id else [])
      (k.run (Engine.settleOne b report j)).2 := by
  by_cases hj : j = t.id
  · subst hj
    rw [if_pos rfl, Engine.settleOne, run_bind, run_attempt]
    have hbranch := hk.branch b
    cases Fault.caught (k.run (Keeper.branch (settleLease b t.id))).1 with
    | error e => exact hbranch
    | ok result =>
      cases result with
      | ok outcome => exact hbranch
      | error cause =>
        exact ofContents_progress.recoverable.recordFailure b report _ _ cause _ hbranch
  · rw [if_neg hj, List.append_nil]
    exact ofContents_progress.recoverable.settleOne
      (.progress fun _ => standing_settleLease b hj) report k hk

theorem Progress.settlingEach (b : Block) (ids : List ResourceId) (report : Report)
    (hk : Progress c t hours ss k) :
    Progress c t hours (ss ++ settlingEach b t.id ids report k)
      (k.run (ids.foldlM (Engine.settleOne b) report)).2 := by
  induction ids generalizing ss report k with
  | nil =>
    rw [Keeper.settlingEach, List.append_nil]
    exact hk
  | cons j ids ih =>
    have hone := hk.settleOne b report j
    rw [Keeper.settlingEach, List.foldlM_cons, run_bind, ← List.append_assoc]
    generalize k.run (Engine.settleOne b report j) = p at hone
    obtain ⟨result, k₁⟩ := p
    cases result with
    | error e =>
      rw [List.append_nil]
      exact hone
    | ok report' => exact ih report' hone

/-- A block settles the lease at most when it comes to it, and never takes it up again. -/
theorem Progress.beginBlock (hk : Progress c t hours ss k) (e : Engine) (b : Block) :
    Progress c t hours (ss ++ k.settlements t.id (.beginBlock e b))
      (k.run (e.beginBlock b)).2 := by
  rw [settlements, Engine.beginBlock, run_bind, run_liftM_refusal]
  cases hheight : e.lastHeight.all (· < b.height) with
  | false =>
    rw [if_neg Bool.false_ne_true, List.append_nil]
    exact hk
  | true =>
    rw [if_pos rfl]
    -- What a block does after it has settled the leases leaves them alone.
    refine Keeps.after_bind ?_ fun report => .bind (ofContents_progress.recoverable.releaseDeposits
      (fun j => .progress fun _ => standing_releaseDeposits b j) report) fun _ => .pure _
    rw [Engine.settleLeases, run_bind, run_read]
    cases hids : k.registry.leaseIds with
    | error e =>
      rw [List.append_nil]
      exact hk
    | ok ids => exact hk.settlingEach b ids (.empty b.height)

/-! ## Requests -/

/-- A lease as it was taken is charged for none of its hours. -/
theorem course_of_taken {m : Message.TakeLease} {reply : Reply.Leased} (hk : k.Sound)
    (h : k.run (takeLease b m) = (.ok reply, k')) :
    Standing k.config m.id (some reply.lease.plain) k' ∧
      reply.lease.plain.Course k.config
        ⟨m.id, reply.lease.owner, reply.lease.pricePerHour, b.time⟩ [] := by
  obtain ⟨hcheck, k₁, hperform, rfl⟩ := (run_handle_eq_ok b (m := .lease m)).1 h
  have hsound := ofContents_sound.congr (enter_equiv k).symm hk
  have hsound₁ := sound_lease hsound (liftM_eq_ok.1 hcheck) hperform
  obtain ⟨hl, p, hp⟩ := hsound
  obtain ⟨_, x, _, _, -, hx, -, -, -, -, -, hstart, hturned⟩ := performLease_done hl hperform
  obtain ⟨total, htotal, hlease⟩ := Lease.start_eq_ok.1 hstart
  have hprice := (hp.resource hx).valid.price
  have hplain : reply.lease.pricePerHour.plain = reply.lease.pricePerHour := by
    rw [hlease]
    exact congrArg Resource.pricePerHour (Registry.plain_of_market_resource hx)
  have hid : reply.lease.plain.resourceId = m.id := Lease.resourceId_start hstart
  have hstored : k₁.registry.market.lease m.id = some reply.lease.plain := by
    rw [hturned.market_eq]
    exact hid ▸ Market.lease_withLease _ _
  have hsame : x.pricePerHour = reply.lease.pricePerHour := by rw [hlease]
  have hcharged := Lease.charged_start (hsame ▸ hprice) (hsame ▸ hstart)
  obtain ⟨hl₁, p₁, hp₁⟩ := hsound₁
  have hvalid := (hp₁.lease hstored).valid
  refine ⟨ofContents_standing.congr (keep_equiv k₁).symm
    ⟨⟨hl₁, p₁, hp₁⟩, hturned.config_eq, hstored⟩, rfl, hcharged.plain hplain, ?_, ?_⟩
  · refine Nat.pos_of_ne_zero fun hzero => hvalid.hours_ne ?_
    exact UInt64.toNat_inj.1 hzero
  · show PaidInAll _ _ _ [] (_ * ((0 : ℕ) : ℚ))
    rw [Nat.cast_zero, mul_zero]
    exact .nil

/-- A refund returns the price of all hours that a running lease is not charged for. -/
theorem course_refunded {refund : Coin} (hs : Standing c t.id (some l) k) (hc : l.Course c t ss)
    (h : k.run (refundLease t.id) = (.ok refund, k')) :
    Moved c.escrow l.lessee refund k.ledger.current k'.ledger.current ∧
      refund.denom = t.price.denom ∧
      refund.value = t.price.value * (l.hours.toNat - t.hours ss) ∧
      Standing c t.id none k' := by
  obtain ⟨hl, p, hp⟩ := hs.sound
  obtain ⟨lease, x, ledger, hlease, hunsettled, hsent, hx, hturned⟩ := refundLease_done hl h
  obtain rfl := Option.some.inj (hs.lease_eq.symm.trans hlease)
  have hvalid := (hp.lease hlease).valid
  have hid := Registry.id_of_market hl hx
  refine ⟨?_, ?_, ?_, ?_⟩
  · rw [hturned.ledger_eq, ← hs.config_eq]
    exact hsent.moved
  · exact (Lease.unsettled_eq_ok.1 hunsettled).1.trans hc.charged.total_denom
  · rw [Lease.value_unsettled hvalid hunsettled, hc.charged.total_eq, hc.charged.settled_eq, mul_sub]
  · exact hs.turned (sound_refund hs.sound h) hturned
      (hid ▸ Market.lease_ended k.registry.market x)

/-- A cancellation is a last settlement up to its own time, and a refund of all other hours. -/
theorem course_cancelled {m : Message.CancelLease} {reply : Reply.Cancelled}
    (hs : Standing c t.id (some l) k) (hc : l.Course c t ss) (hid : m.id = t.id)
    (h : k.run (cancelLease b m) = (.ok reply, k')) :
    ∃ (book : Book) (charged : ℕ),
      charged = min l.hours.toNat (t.hours (ss ++ [⟨b.time, k.ledger.current, book⟩])) ∧
      PaidInAll c t.owner t.price.denom (ss ++ [⟨b.time, k.ledger.current, book⟩])
        (t.price.value * charged) ∧
      Moved c.escrow l.lessee reply.refunded book k'.ledger.current ∧
      reply.refunded.denom = t.price.denom ∧
      reply.refunded.value = t.price.value * (l.hours.toNat - charged) ∧
      Standing c t.id none k' := by
  obtain ⟨-, k₂, hperform, rfl⟩ := (run_handle_eq_ok b (m := .cancel m)).1 h
  have hentered := ofContents_standing.congr (enter_equiv k).symm hs
  obtain ⟨lease, outcome, k₁, hlease, -, hsettled, -, -, hend⟩ :=
    performCancellation_done hentered.sound.1 hperform
  rw [hid] at hlease hsettled hend
  obtain rfl := Option.some.inj (hentered.lease_eq.symm.trans hlease)
  have hprogress := hsettled.progress hentered hc
  have hkept := keep_equiv k₂
  rw [(enter_equiv k).book] at hprogress
  refine ⟨k₁.ledger.current, _, rfl, ?_⟩
  rw [hkept.book]
  -- Either hours are left to refund, or the settlement was the last one.
  rcases hprogress with
    ⟨l', hs₁, hc₁, hhours, hlessee, hopen⟩ | ⟨hs₁, hle, hpaid, _, hdone⟩
  · rcases hend with ⟨⟨paid, hdone⟩, -⟩ | ⟨-, k₃, hrefund, hturned⟩
    · exact absurd hdone (hopen paid)
    obtain ⟨hmoved, hdenom, hvalue, hs₃⟩ := course_refunded hs₁ hc₁ hrefund
    have hlt := hc₁.hours_lt
    rw [hhours] at hlt hvalue
    rw [min_eq_right hlt.le]
    refine ⟨hc₁.paid, ?_, hdenom, hvalue, ?_⟩
    · rwa [← hlessee, hturned.ledger_eq]
    · exact ofContents_standing.congr hkept.symm
        (hs₃.turned (.of_same hturned hs₃.sound) hturned hs₃.lease_eq)
  · rcases hend with ⟨-, hnothing, hturned⟩ | ⟨hopen, -⟩
    · rw [min_eq_left hle, hturned.ledger_eq, hnothing]
      refine ⟨hpaid, moved_zero _ ?_, hc.charged.total_denom, ?_, ?_⟩
      · exact Coin.isZero_iff.2 (Coin.value_zero _)
      · rw [Coin.value_zero, sub_self, mul_zero]
      · exact ofContents_standing.congr hkept.symm
          (hs₁.turned (.of_same hturned hs₁.sound) hturned hs₁.lease_eq)
    · exact absurd hdone (hopen _)

/-- A request that does not cancel a running lease leaves its course, also when it extends it. -/
theorem course_uncancelled {α : Type} {m : Request α} {reply : α}
    (hs : Standing c t.id (some l) k) (hc : l.Course c t ss) (hm : ¬ m.Cancels t.id)
    (h : k.run (m.handle b) = (.ok reply, k')) :
    ∃ l', Standing c t.id (some l') k' ∧ l'.Course c t ss := by
  obtain ⟨hcheck, k₁, hperform, rfl⟩ := (run_handle_eq_ok b).1 h
  have hentered := ofContents_standing.congr (enter_equiv k).symm hs
  have hkept := keep_equiv k₁
  obtain ⟨p, hp⟩ := hs.sound.2
  have hvalid := (hp.lease hs.lease_eq).valid
  rcases standing_perform hentered hcheck hm hperform with hs' | ⟨extra, l', hextend, hs'⟩
  · exact ⟨l, ofContents_standing.congr hkept.symm hs', hc⟩
  · have hc' := hc.extend hvalid hextend
    have hplain : l.pricePerHour.plain = l.pricePerHour :=
      congrArg Lease.pricePerHour (Registry.plain_of_market_lease hs.lease_eq)
    rw [hc.charged.price_eq] at hplain
    exact ⟨l'.plain, ofContents_standing.congr hkept.symm hs', hc'.plain hplain⟩

/-! ## Steps -/

/-- After a step a running lease goes on, or its settlements have ended it, or it was
cancelled. -/
theorem course_next (hs : Standing c t.id (some l) k) (hc : l.Course c t ss) (s : Step) :
    (∃ l', Standing c t.id (some l') (k.next s) ∧ l'.Course c t (ss ++ k.settlements t.id s)) ∨
      (Standing c t.id none (k.next s) ∧ (¬ s.Cancels t.id →
        PaidInAll c t.owner t.price.denom (ss ++ k.settlements t.id s)
          (t.price.value * l.hours.toNat))) := by
  have hledger : ∀ f : Bank → Except Fault Bank,
      Standing c t.id (some l) (k.run (onLedger f)).2 := fun f =>
    Keeps.onLedger (fun _ _ hk _ => ⟨hk.sound, hk.config_eq, hk.lease_eq⟩) k hs
  have hprogress : Progress c t l.hours.toNat ss k := .running hs hc rfl
  have hdone : Progress c t l.hours.toNat (ss ++ k.settlements t.id s) (k.next s) →
      (∃ l', Standing c t.id (some l') (k.next s) ∧
        l'.Course c t (ss ++ k.settlements t.id s)) ∨
      (Standing c t.id none (k.next s) ∧ (¬ s.Cancels t.id →
        PaidInAll c t.owner t.price.denom (ss ++ k.settlements t.id s)
          (t.price.value * l.hours.toNat))) := by
    intro h
    cases h with
    | running hs' hc' => exact .inl ⟨_, hs', hc'⟩
    | ended hs' _ hpaid => exact .inr ⟨hs', fun _ => hpaid⟩
  cases s with
  | beginBlock e b => exact hdone (hprogress.beginBlock e b)
  | settle b j =>
    refine hdone ?_
    by_cases hj : j = t.id
    · subst hj
      rw [settlements, if_pos rfl]
      exact hprogress.branch b
    · rw [settlements, if_neg hj, List.append_nil]
      exact ofContents_progress.recoverable.branch (built_settleLease b j)
        (.progress fun _ => standing_settleLease b hj) k hprogress
  | mint account coin => exact .inl ⟨l, hledger _, (List.append_nil ss).symm ▸ hc⟩
  | burn account coin => exact .inl ⟨l, hledger _, (List.append_nil ss).symm ▸ hc⟩
  | transfer source target coin => exact .inl ⟨l, hledger _, (List.append_nil ss).symm ▸ hc⟩
  | @request α b m =>
    rw [show k.settlements t.id (.request b m) = [] from rfl, List.append_nil]
    cases hresult : (k.run (m.handle b)).1 with
    | error e =>
      exact .inl ⟨l, ofContents_standing.congr (equiv_of_handle_error b hresult).symm hs, hc⟩
    | ok reply =>
      have hrun : k.run (m.handle b) = (.ok reply, k.next (.request b m)) := run_of_fst hresult
      by_cases hm : m.Cancels t.id
      · cases m with
        | cancel m =>
          obtain ⟨_, _, -, -, -, -, -, hgone⟩ := course_cancelled hs hc hm hrun
          exact .inr ⟨hgone, fun h => absurd hm h⟩
        | _ => cases hm
      · exact .inl (course_uncancelled hs hc hm hrun)

end Keeper

end LeaseEscrow
