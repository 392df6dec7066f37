import LeaseEscrow.Proofs.Keeper.Origin
import LeaseEscrow.Proofs.Keeper.Pace
import LeaseEscrow.Proofs.Keeper.Settlements

/-!
# Chains

A chain begins each block before it delivers anything in it, at rising heights and at times that
do not go back. Then every lease that is stored is up to date whenever something is delivered.
Main statement (`leases_keep_pace`): unless it began in a leap second, no lease is past its end or
has anything to settle, a lessee can only buy hours to come, and one who cancels gets at least one
hour back. A lease that began in a leap second can be stored at its end, with an hour to settle
(`leap_second_outlives_lease`).
-/

namespace LeaseEscrow

/-- What a host may do once a block has begun. -/
def Step.Within (b : Block) : Step → Prop
  | .request b' _ => b' = b
  | .settle b' _ => b' = b
  | .beginBlock _ _ => False
  | .mint _ _ => True
  | .burn _ _ => True
  | .transfer _ _ _ => True

/-- What the engine remembers after it was asked to begin a block. -/
def Engine.after (e : Engine) (k : Keeper Bank) (b : Block) : Engine :=
  match (k.run (e.beginBlock b)).1 with
  | .ok (_, e') => e'
  | .error _ => e

namespace Keeper

/-- The keeper of a chain, and its engine, at a point of a block that has begun. -/
inductive InBlock (start : Keeper Bank) : Block → Engine → Keeper Bank → Prop where
  | first (b : Block) :
      InBlock start b (Engine.fresh.after start b) (start.next (.beginBlock .fresh b))
  | begin {b : Block} {e : Engine} {k : Keeper Bank} (before : InBlock start b e k) (b' : Block)
      (height : b.height < b'.height) (time : b.time ≤ b'.time) :
      InBlock start b' (e.after k b') (k.next (.beginBlock e b'))
  | deliver {b : Block} {e : Engine} {k : Keeper Bank} (before : InBlock start b e k) (s : Step)
      (within : s.Within b) (avoids : s.Avoids start.config.escrow) : InBlock start b e (k.next s)

/-- The block has been settled, and every lease is up to date. -/
structure Paced (c : Config) (b : Block) (e : Engine) (k : Keeper Bank) : Prop where
  solvent : k.Solvent c
  settled : e.lastHeight = some b.height
  leases : ∀ id, k.LeaseHas (Lease.UpToDate b.time) id

variable {c : Config} {k k' : Keeper Bank} {e : Engine} {b : Block} {id : ResourceId}

/-- Beginning a block brings every lease up to date. -/
theorem paced_begin (hk : k.Solvent c) (hleases : ∀ id, k.LeaseHas Lease.Running id)
    (hnew : e.lastHeight.all (· < b.height) = true) :
    Paced c b (e.after k b) (k.next (.beginBlock e b)) := by
  obtain ⟨report, k₁, k', p, hrun, -, hk', hsettles, -, hreleases⟩ := exists_beginBlock hk b hnew
  have hl := hk.sound.1
  have htable := Registry.isTable_leases hl
  have hafter : e.after k b = ⟨some b.height⟩ := by rw [Engine.after, hrun]
  have hnext : k.next (.beginBlock e b) = k' := by rw [next, hrun]
  rw [hafter, hnext]
  refine ⟨hk', rfl, fun id => ?_⟩
  refine hreleases.keeps (fun j _ => keeps_leaseHas_release b j) ?_
  by_cases hid : id ∈ k.registry.leaseList.map Lease.resourceId
  · exact hsettles.upToDate hid htable.nodup (hleases id)
  · -- Where there is no lease, the sweep does not make one.
    have hnone : k.LeaseHas (Lease.UpToDate b.time) id := by
      refine ⟨hk.sound, fun l hlease => absurd ?_ hid⟩
      have hplace := Registry.resourceId_of_market hl hlease
      exact List.mem_map.2 ⟨l, (htable.mem_iff l).2 (hplace.symm ▸ hlease), hplace⟩
    refine hsettles.keeps (fun j hj => keeps_leaseHas_settle ?_ b) hnone
    rintro rfl
    exact hid hj

theorem paced_deliver (hk : Paced c b e k) (s : Step) (hwithin : s.Within b)
    (havoids : s.Avoids c.escrow) : Paced c b e (k.next s) := by
  refine ⟨solvent_next s havoids hk.solvent, hk.settled,
    leaseHas_next (Lease.kept_upToDate b.time) s ?_ hk.leases⟩
  cases s with
  | request b' m => exact congrArg Block.time hwithin
  | settle b' id => exact congrArg Block.time hwithin
  | beginBlock e b => exact hwithin.elim
  | mint account coin => trivial
  | burn account coin => trivial
  | transfer source target coin => trivial

/-- A chain that starts out new and owing nothing keeps every lease up to date. -/
theorem InBlock.paced {ledger : Bank} {params : Params} {start : Keeper Bank}
    (hcreate : create c ledger params = .ok start) (hbank : ledger.Reached)
    (h : InBlock start b e k) : Paced c b e k := by
  have hstart := solvent_create hcreate hbank
  have hconfig : start.config = c := hstart.config_eq
  induction h with
  | first b => exact paced_begin hstart (leaseHas_create hcreate) rfl
  | @begin b e k _ b' height _ ih =>
    refine paced_begin ih.solvent (fun id => (ih.leases id).mono fun l hl => hl.running) ?_
    rw [ih.settled]
    exact decide_eq_true height
  | deliver _ s within avoids ih => exact paced_deliver ih s within (hconfig ▸ avoids)

theorem InBlock.engine_eq {ledger : Bank} {params : Params} {start : Keeper Bank}
    (hcreate : create c ledger params = .ok start) (hbank : ledger.Reached)
    (h : InBlock start b e k) : e = ⟨some b.height⟩ :=
  congrArg Engine.mk (h.paced hcreate hbank).settled

/-! ## What lessees can do -/

/-- Where nothing accrues on a lease that is not settled in full, a cancellation settles nothing and
refunds all that is left. -/
theorem cancellation_of_idle {m : Message.CancelLease} {reply : Reply.Cancelled} {l : Lease}
    (hl : k.registry.Laid) (hlease : k.registry.market.lease m.id = some l)
    (hnone : l.accrualAt b.time = .ok none) (hopen : l.isFullySettled = false)
    (h : k.run (performCancellation b m) = (.ok reply, k')) :
    reply.settled = .zero l.total.denom ∧ l.unsettled = .ok reply.refunded ∧
      Moved k.config.escrow l.lessee reply.refunded k.ledger.current k'.ledger.current := by
  obtain ⟨l₁, outcome, k₁, hlease₁, -, hsettled, hreply, -, hend⟩ := performCancellation_done hl h
  obtain rfl := Option.some.inj (hlease.symm.trans hlease₁)
  cases hsettled with
  | idle =>
    obtain ⟨-, k₂, hrefund, hturned⟩ := hend.resolve_left (fun ⟨⟨_, hdone⟩, _⟩ => nomatch hdone)
    obtain ⟨l₂, _, _, hlease₂, hunsettled, hsent, -, hended⟩ := refundLease_done hl hrefund
    obtain rfl := Option.some.inj (hlease.symm.trans hlease₂)
    refine ⟨hreply, hunsettled, ?_⟩
    rw [hturned.ledger_eq, hended.ledger_eq]
    exact hsent.moved
  | spent hstored _ hfully =>
    obtain rfl := Option.some.inj (hlease.symm.trans hstored)
    cases hopen.symm.trans hfully
  | paid hstored _ hsome =>
    obtain rfl := Option.some.inj (hlease.symm.trans hstored)
    cases hnone.symm.trans hsome
  | last hstored _ hsome =>
    obtain rfl := Option.some.inj (hlease.symm.trans hstored)
    cases hnone.symm.trans hsome

/-- Whenever something is delivered on a chain, at a time in no leap second or in one that ends its
day: a lease that did not begin in a leap second is not past its end and has nothing to settle, the
hours of its extension begin later, and its cancellation settles nothing, returns at least one hour
to the lessee and ends it. -/
theorem leases_keep_pace {config : Config} {ledger : Bank} {params : Params}
    {start : Keeper Bank} (hcreate : create config ledger params = .ok start)
    (hbank : ledger.Reached) (h : InBlock start b e k) (htime : b.time.isStray = false) :
    (∀ id l, k.registry.lease id = .ok l → l.startedAt.isLeap = false →
      b.time.nanos < l.startedAt.nanos + l.hours.toNat * nanosPerHour ∧
        l.accrualAt b.time = .ok none) ∧
    (∀ m reply, (k.run (extendLease b m)).1 = .ok reply →
      ∃ old, k.registry.lease m.id = .ok old ∧ reply.lease.startedAt = old.startedAt ∧
        reply.lease.hours.toNat = old.hours.toNat + m.hours.toNat ∧
        (old.startedAt.isLeap = false →
          b.time.nanos < old.startedAt.nanos + old.hours.toNat * nanosPerHour)) ∧
    ∀ m reply k', k.run (cancelLease b m) = (.ok reply, k') →
      ∃ old, k.registry.lease m.id = .ok old ∧
        k'.registry.lease old.resourceId = .error (.leaseNotFound old.resourceId) ∧
        (old.startedAt.isLeap = false → reply.settled = .zero old.pricePerHour.denom ∧
          reply.refunded.denom = old.pricePerHour.denom ∧
          old.pricePerHour.value ≤ reply.refunded.value ∧
          Moved config.escrow old.lessee reply.refunded k.ledger.current k'.ledger.current) := by
  have hpaced := h.paced hcreate hbank
  obtain ⟨hl, p, hp⟩ := hpaced.solvent.sound
  have hentered := ofContents_leasesHave.congr (enter_equiv k).symm hpaced.leases
  have hmarket : k.enter.registry.market = k.registry.market :=
    Registry.market_congr (enter_equiv k).registry
  refine ⟨fun id l hfound hstart => ?_, fun m reply hok => ?_, fun m reply k' hrun => ?_⟩
  · have hupToDate := (hpaced.leases id).lease l ((Registry.lease_eq_ok hl).1 hfound)
    exact ⟨hupToDate.lt_end hstart htime, hupToDate.accrualAt hstart htime⟩
  · obtain ⟨-, k₁, hperform, -⟩ := (run_handle_eq_ok b (m := .extend m)).1 (run_of_fst hok)
    obtain ⟨_, old, _, _, -, hold, -, -, -, hextend, -⟩ :=
      performExtension_done (hentered m.id).sound.1 hperform
    have hupToDate := (hentered m.id).lease old hold
    obtain ⟨hbound, _, _, -, -, hlease⟩ := Lease.extend_eq_ok.1 hextend
    rw [hmarket] at hold
    refine ⟨old, (Registry.lease_eq_ok hl).2 hold, ?_, ?_, fun hstart => hupToDate.lt_end hstart htime⟩
    · rw [hlease]
    · rw [hlease]
      exact Lease.toNat_hours_extended hbound
  · obtain ⟨old, hfound, hcancelled⟩ := cancelLease_cancelled hpaced.solvent.sound hrun
    refine ⟨old, hfound, hcancelled.gone, fun hstart => ?_⟩
    obtain ⟨-, k₁, hperform, rfl⟩ := (run_handle_eq_ok b (m := .cancel m)).1 hrun
    have hold := (Registry.lease_eq_ok hl).1 hfound
    have hvalid := (hp.lease hold).valid
    rw [← hmarket] at hold
    have hupToDate := (hentered m.id).lease old hold
    obtain ⟨hsettled, hrefunded, hmoved⟩ := cancellation_of_idle (hentered m.id).sound.1 hold
      (hupToDate.accrualAt hstart htime) (hupToDate.running.not_fullySettled hvalid) hperform
    refine ⟨?_, ?_, ?_, ?_⟩
    · rw [hsettled, hvalid.total_denom]
    · rw [(Lease.unsettled_eq_ok.1 hrefunded).1, hvalid.total_denom]
    · rw [Lease.value_unsettled hvalid hrefunded]
      exact hupToDate.running.price_le hvalid
    · rw [(keep_equiv k₁).book, ← hpaced.solvent.config_eq, ← (enter_equiv k).book]
      exact hmoved

/-- A keeper that has begun a first block, in which a node is registered and leased. -/
def leasedIn (b : Block) (hours : UInt64) : Keeper Bank :=
  Sample.keeper.after [.beginBlock .fresh b, .request b (.register Sample.registration),
    .request b (.lease (Sample.lease hours))]

theorem inBlock_leasedIn (b : Block) (hours : UInt64) :
    InBlock Sample.keeper b ⟨some b.height⟩ (leasedIn b hours) := by
  have howner : Sample.owner ≠ Sample.config.escrow := by decide
  have hlessee : Sample.lessee ≠ Sample.config.escrow := by decide
  have hfirst : InBlock Sample.keeper b _ _ := .first b
  rw [hfirst.engine_eq Sample.create_keeper Sample.reached_bank] at hfirst
  exact (hfirst.deliver (.request b (.register Sample.registration)) rfl howner).deliver
    (.request b (.lease (Sample.lease hours))) rfl hlessee

/-- Here a node is leased for three hours in the first block, and cancelled in a block that begins
an hour later. -/
theorem cancelled_node_keeps_pace :
    let k := (leasedIn (Sample.block 0) 3).next (.beginBlock ⟨some 0⟩ (Sample.block 1))
    ∃ reply k', k.run (cancelLease (Sample.block 1) Sample.cancellation) = (.ok reply, k') ∧
      reply.settled = .zero "umedia" ∧ 10 ≤ reply.refunded.value ∧
      Moved Sample.config.escrow Sample.lessee reply.refunded k.ledger.current
        k'.ledger.current := by
  intro k
  have hchain : InBlock Sample.keeper (Sample.block 1) _ k :=
    .begin (inBlock_leasedIn (Sample.block 0) 3) (Sample.block 1) (by decide) (by decide)
  have hcancelled : ((k.run (cancelLease (Sample.block 1) Sample.cancellation)).1.map
      fun _ => ()) = .ok () := by decide +kernel
  have hstored : (k.registry.lease Sample.nodeId).map
      (fun l => (l.lessee, l.pricePerHour, l.startedAt)) =
        .ok (Sample.lessee, Sample.coins 10, (Sample.block 0).time) := by decide +kernel
  obtain ⟨reply, hok, -⟩ := map_eq_ok.1 hcancelled
  have hrun := run_of_fst hok
  obtain ⟨old, hold, -, hdone⟩ :=
    (leases_keep_pace Sample.create_keeper Sample.reached_bank hchain (by decide)).2.2 _ reply _
      hrun
  obtain ⟨l, hl, hterms⟩ := map_eq_ok.1 hstored
  obtain rfl := Except.ok.inj (hl.symm.trans hold)
  obtain ⟨hpayer, hterms'⟩ := Prod.mk.inj hterms
  obtain ⟨hprice, hstart⟩ := Prod.mk.inj hterms'
  obtain ⟨hsettled, -, hrefunded, hmoved⟩ := hdone (hstart ▸ rfl)
  rw [hprice] at hsettled hrefunded
  rw [hpayer] at hmoved
  exact ⟨reply, _, hrun, hsettled,
    (Decimal.value_ofUInt64 10).symm.trans_le hrefunded, hmoved⟩

/-- A lease of two hours that begins in a leap second is still stored once the block at its end has
begun. Its second hour has not been settled yet, so that who cancels it gets nothing back. -/
theorem leap_second_outlives_lease :
    let leased := leasedIn Sample.leapBlock 2
    let t := (Sample.afterLeap 1).time
    let k := leased.next (.beginBlock ⟨some 0⟩ (Sample.afterLeap 1))
    InBlock Sample.keeper (Sample.afterLeap 1) ⟨some 1⟩ k ∧
      (k.registry.lease Sample.nodeId).map (fun l => (l.expectedEnd?, l.accrualAt t)) =
        .ok (some t, .ok (some ⟨1, Sample.coins 10⟩)) ∧
      (k.run (cancelLease (Sample.afterLeap 1) Sample.cancellation)).1 =
        .ok ⟨Sample.coins 10, .zero "umedia"⟩ := by
  intro leased t k
  have hchain : InBlock Sample.keeper (Sample.afterLeap 1) _ k :=
    .begin (inBlock_leasedIn Sample.leapBlock 2) (Sample.afterLeap 1) (by decide) (by decide)
  rw [hchain.engine_eq Sample.create_keeper Sample.reached_bank] at hchain
  refine ⟨hchain, ?_, ?_⟩
  · decide +kernel
  · decide +kernel

end Keeper

end LeaseEscrow
