import LeaseEscrow.Proofs.Charge
import LeaseEscrow.Proofs.Keeper.Blocks

/-!
# Leases that are up to date

A lease is running when it is charged for whole hours, and not for all that it has: so every lease
of every run is. A lease is up to date when besides no whole hour has passed since those that it is
charged for: then nothing accrues. A sweep over the leases brings each of them up to the time of its
block, if the lease did not begin in a leap second, and what is done at that time leaves them there.
What steps keep of leases is said for any property that making, extending and settling a lease keep
(`leaseHas_next`).
-/

namespace LeaseEscrow

namespace Lease

variable {l l' : Lease} {t : Instant}

/-- Charged for whole hours, and not for all that it has. -/
def Running (l : Lease) : Prop :=
  ∃ n, l.Charged l.pricePerHour l.startedAt n ∧ n < l.hours.toNat

/-- Running, and charged for all whole hours up to `t`. Nothing is said of the latter when the lease
began in a leap second, or when `t` lies in one that does not end its day. -/
structure UpToDate (t : Instant) (l : Lease) : Prop where
  running : l.Running
  charged : l.startedAt.isLeap = false → t.isStray = false → t.hoursSince l.settledAt < 1

/-- A property that leases have from the start and keep when they are extended or settled, if that
happens at such times. -/
structure Kept (A : Instant → Prop) (P : Lease → Prop) : Prop where
  start {id : ResourceId} {lessee owner : Account} {price : Coin} {hours : UInt64} {now : Instant}
    {l : Lease} : A now → price.Valid → hours ≠ 0 →
      Lease.start id lessee owner price hours now = .ok l → P l
  extend {l l' : Lease} {extra : UInt64} : P l → l.Valid → l.extend extra = .ok l' → P l'
  settle {l l' : Lease} {now : Instant} {a : Accrual} : A now → P l → l.Valid →
    l.accrualAt now = .ok (some a) → l.settle a = .ok l' → l'.isFullySettled = false → P l'
  plain {l : Lease} : P l → l.pricePerHour.plain = l.pricePerHour → P l.plain

/-! ## Running leases -/

/-- At least the last hour has not been settled. -/
theorem Running.price_le (h : l.Running) (hl : l.Valid) :
    l.pricePerHour.value ≤ l.total.value - l.settled.value := by
  obtain ⟨n, hcharged, hlt⟩ := h
  have hone : (1 : ℚ) ≤ (l.hours.toNat : ℚ) - n := by
    have hcast : ((n + 1 : ℕ) : ℚ) ≤ (l.hours.toNat : ℚ) := Nat.cast_le.2 hlt
    push_cast at hcast
    linarith
  rw [hcharged.total_eq, hcharged.settled_eq, ← mul_sub]
  exact le_mul_of_one_le_right hl.price_pos.le hone

theorem Running.not_fullySettled (h : l.Running) (hl : l.Valid) : l.isFullySettled = false := by
  have hle := h.price_le hl
  have hpos := hl.price_pos
  rw [Bool.eq_false_iff, ne_eq, isFullySettled_iff, not_le]
  linarith

/-- Whatever accrues is worth something. -/
theorem Running.accrual_pos (h : l.Running) (hl : l.Valid) {a : Accrual}
    (hsome : l.accrualAt t = .ok (some a)) : 0 < a.amount.value := by
  obtain ⟨n, hcharged, hlt⟩ := h
  obtain ⟨hpos, -, hvalue, -⟩ := hcharged.accrual hl hlt hsome
  rw [hvalue]
  exact mul_pos hl.price_pos (Nat.cast_pos.2 hpos)

/-- A settlement that was not the last one leaves hours to charge, and has charged all that have
passed. -/
theorem Running.settle (h : l.Running) (hl : l.Valid) {a : Accrual}
    (hsome : l.accrualAt t = .ok (some a)) (hsettle : l.settle a = .ok l')
    (hopen : l'.isFullySettled = false) : l'.UpToDate t := by
  obtain ⟨n, hcharged, hlt⟩ := h
  obtain ⟨-, hwhole, hnonneg⟩ := accrual_of_accrualAt hl hsome
  obtain ⟨hpos, -, hvalue, hsum⟩ := hcharged.accrual hl hlt hsome
  have hcharged' := hcharged.settle hl hwhole hvalue hsettle
  have hnotall := mt (hcharged'.isFullySettled_iff hl.price_pos).2 (Bool.eq_false_iff.1 hopen)
  obtain ⟨settled, settledAt, -, -, hlater, rfl⟩ := settle_eq_ok.1 hsettle
  have hnotall' : n + a.hours.toNat < l.hours.toNat := not_le.1 hnotall
  refine ⟨⟨n + a.hours.toNat, hcharged', hnotall'⟩, fun hstart ht => ?_⟩
  have hleap := Instant.isLeap_of_addHours? hcharged.settledAt_eq hstart
  have hsince := Instant.hoursSince_addHours? hlater hleap ht
  show t.hoursSince settledAt < 1
  omega

/-- Where nothing accrues, all hours that have passed are charged already. -/
theorem Running.idle (h : l.Running) (hl : l.Valid) (hnone : l.accrualAt t = .ok none) :
    l.UpToDate t := by
  obtain ⟨n, hcharged, hlt⟩ := h
  have hzero := hcharged.hoursSince_eq_zero hl hlt hnone
  exact ⟨⟨n, hcharged, hlt⟩, fun _ _ => by omega⟩

theorem kept_running : Kept (fun _ => True) Running where
  start := by
    intro id lessee owner price hours now l _ hprice hhours h
    have hcharged := charged_start hprice h
    obtain ⟨total, -, rfl⟩ := start_eq_ok.1 h
    exact ⟨0, hcharged, Nat.pos_of_ne_zero fun hzero => hhours (UInt64.toNat_inj.1 hzero)⟩
  extend := by
    rintro l l' extra ⟨n, hcharged, hlt⟩ hl hextend
    have hcharged' := hcharged.extend hl hextend
    obtain ⟨hbound, _, _, -, -, rfl⟩ := extend_eq_ok.1 hextend
    have hhours := toNat_hours_extended hbound
    refine ⟨n, hcharged', ?_⟩
    show n < (l.hours + extra).toNat
    omega
  settle _ h hl hsome hsettle hopen := (Running.settle h hl hsome hsettle hopen).running
  plain := by
    rintro l ⟨n, hcharged, hlt⟩ hprice
    have hplain := hcharged.plain hprice
    rw [← hprice] at hplain
    exact ⟨n, hplain, hlt⟩

/-! ## Leases that are up to date -/

/-- What happens at `t` keeps leases up to date. -/
theorem kept_upToDate (t : Instant) : Kept (· = t) (UpToDate t) where
  start := by
    rintro id lessee owner price hours now l rfl hprice hhours h
    refine ⟨kept_running.start trivial hprice hhours h, fun _ _ => ?_⟩
    obtain ⟨total, -, rfl⟩ := start_eq_ok.1 h
    show now.nanosSince now / nanosPerHour < 1
    rw [Instant.nanosSince_self]
    decide
  extend := by
    intro l l' extra h hl hextend
    refine ⟨kept_running.extend h.running hl hextend, fun hstart ht => ?_⟩
    obtain ⟨-, _, _, -, -, rfl⟩ := extend_eq_ok.1 hextend
    exact h.charged hstart ht
  settle := by
    rintro l l' now a rfl h hl hsome hsettle hopen
    exact h.running.settle hl hsome hsettle hopen
  plain h hprice := ⟨kept_running.plain h.running hprice, h.charged⟩

/-- A leap second can come before the next second and count for more. -/
theorem UpToDate.earlier {t' : Instant} (h : l.UpToDate t) (hstart : l.startedAt.isLeap = false)
    (ht : t.isStray = false) (hle : t' ≤ t) (ht' : t'.isLeap = false ∨ t' = t) : l.UpToDate t' := by
  rcases ht' with hleap | rfl
  · refine ⟨h.running, fun _ hstray => ?_⟩
    obtain ⟨n, hcharged, -⟩ := h.running
    have hsettled := Instant.isLeap_of_addHours? hcharged.settledAt_eq hstart
    have hsince := h.charged hstart ht
    have hnanos := Instant.nanos_le_of_le hle hleap
    rw [Instant.hoursSince, Instant.nanosSince_of_not_isStray ht hsettled] at hsince
    rw [Instant.hoursSince, Instant.nanosSince_of_not_isStray hstray hsettled]
    rw [nanosPerHour] at *
    omega
  · exact h

theorem UpToDate.accrualAt (h : l.UpToDate t) (hstart : l.startedAt.isLeap = false)
    (ht : t.isStray = false) : l.accrualAt t = .ok none := by
  rw [Lease.accrualAt]
  exact if_pos (h.charged hstart ht)

theorem UpToDate.lt_end (h : l.UpToDate t) (hstart : l.startedAt.isLeap = false)
    (ht : t.isStray = false) :
    t.nanos < l.startedAt.nanos + l.hours.toNat * nanosPerHour := by
  have hsince := h.charged hstart ht
  obtain ⟨n, hcharged, hlt⟩ := h.running
  have hnanos := Instant.nanos_of_addHours? hcharged.settledAt_eq hstart
  rw [Instant.hoursSince, Instant.nanosSince_of_not_isStray ht
    (Instant.isLeap_of_addHours? hcharged.settledAt_eq hstart)] at hsince
  rw [nanosPerHour] at *
  omega

end Lease

/-- What happens in the step happens at such a time. -/
def Step.At (A : Instant → Prop) : Step → Prop
  | .request b _ => A b.time
  | .beginBlock _ b => A b.time
  | .settle b _ => A b.time
  | .mint _ _ => True
  | .burn _ _ => True
  | .transfer _ _ _ => True

namespace Keeper

/-! ## What keepers keep of leases -/

/-- The lease of `id`, if there is one, has the property. -/
structure LeaseHas (P : Lease → Prop) (id : ResourceId) (k : Keeper Bank) : Prop where
  sound : k.Sound
  lease : ∀ l, k.registry.market.lease id = some l → P l

variable {α : Type} {A : Instant → Prop} {P Q : Lease → Prop} {c : Config} {id j : ResourceId}
  {k k' : Keeper Bank} {b : Block} {market : Market} {ledger : Bank}

theorem LeaseHas.mono (hk : k.LeaseHas P id) (h : ∀ l, P l → Q l) : k.LeaseHas Q id :=
  ⟨hk.sound, fun l hl => h l (hk.lease l hl)⟩

theorem ofContents_leaseHas : OfContents (LeaseHas P id) where
  congr h hk := ⟨ofContents_sound.congr h hk.sound, Registry.market_congr h.registry ▸ hk.lease⟩
  events _ hk := ⟨hk.sound, hk.lease⟩

theorem ofContents_leasesHave : OfContents fun k => ∀ id, LeaseHas P id k where
  congr h hk := fun id => ofContents_leaseHas.congr h (hk id)
  events _ hk := fun id => ofContents_leaseHas.events _ (hk id)

/-- A change after which the lease is the same, gone, or has the property anew. -/
theorem LeaseHas.turned (hk : k.LeaseHas P id) (hsound : k'.Sound)
    (ht : Turned k k' market ledger) (hlease : ∀ l, market.lease id = some l →
      P l ∨ k.registry.market.lease id = some l) : k'.LeaseHas P id := by
  refine ⟨hsound, fun l hstored => ?_⟩
  rw [ht.market_eq] at hstored
  rcases hlease l hstored with h | hsame
  · exact h
  · exact hk.lease l hsame

theorem LeaseHas.ended (hk : k.LeaseHas P id) (hsound : k'.Sound) {x : Resource}
    (hx : k.registry.market.resource j = some x)
    (ht : Turned k k' (k.registry.market.ended x) ledger) : k'.LeaseHas P id := by
  obtain rfl := Registry.id_of_market hk.sound.1 hx
  refine hk.turned hsound ht fun l hl => .inr ?_
  by_cases hid : id = x.id
  · subst hid
    cases (Market.lease_ended _ x).symm.trans hl
  · rwa [((Market.sameOff_ended _ x) id hid).2] at hl

theorem LeaseHas.withLease (hk : k.LeaseHas P id) (hsound : k'.Sound)
    (ht : Turned k k' market ledger) {l : Lease}
    (hmarket : market.lease = (k.registry.market.withLease l).lease) (hl : P l) :
    k'.LeaseHas P id := by
  refine hk.turned hsound ht fun l' hl' => ?_
  rw [hmarket] at hl'
  by_cases hid : id = l.resourceId
  · subst hid
    obtain rfl := Option.some.inj ((Market.lease_withLease _ l).symm.trans hl')
    exact .inl hl
  · exact .inr (((Market.sameOff_withLease _ l) id hid).2 ▸ hl')

theorem price_plain {l : Lease} (hlease : k.registry.market.lease id = some l) :
    l.pricePerHour.plain = l.pricePerHour :=
  congrArg Lease.pricePerHour (Registry.plain_of_market_lease hlease)

/-! ## Settlement -/

/-- What the settlement of a lease makes of its property. -/
theorem Settled.leaseHas {outcome : Outcome} (hk : k.LeaseHas P id)
    (hidle : ∀ {l}, P l → l.Valid → l.accrualAt b.time = .ok none → Q l)
    (hsettle : ∀ {l l' a}, P l → l.Valid → l.accrualAt b.time = .ok (some a) → l.settle a = .ok l' →
      l'.isFullySettled = false → Q l')
    (hplain : ∀ {l : Lease}, Q l → l.pricePerHour.plain = l.pricePerHour → Q l.plain)
    (h : Settled b id k outcome k') : k'.LeaseHas Q id := by
  have hsound := h.sound hk.sound
  obtain ⟨hl, p, hp⟩ := hk.sound
  cases h with
  | @idle lease hlease hnone =>
    refine ⟨hsound, fun l hl' => ?_⟩
    obtain rfl := Option.some.inj (hlease.symm.trans hl')
    exact hidle (hk.lease _ hlease) (hp.lease hlease).valid hnone
  | spent _ _ _ hx hturned =>
    obtain rfl := Registry.id_of_market hl hx
    refine ⟨hsound, fun l hl' => ?_⟩
    rw [hturned.market_eq] at hl'
    cases (Market.lease_ended _ _).symm.trans hl'
  | last _ _ _ _ _ _ _ hx hturned =>
    obtain rfl := Registry.id_of_market hl hx
    refine ⟨hsound, fun l hl' => ?_⟩
    rw [hturned.market_eq] at hl'
    cases (Market.lease_ended _ _).symm.trans hl'
  | @paid lease lease' _ _ _ _ _ hlease _ hsome _ _ hpaid hopen hturned =>
    have hdone := hsettle (hk.lease _ hlease) (hp.lease hlease).valid hsome hpaid hopen
    have hprice := price_plain hlease
    have hplace := Registry.resourceId_of_market hl hlease
    obtain ⟨_, _, -, -, -, rfl⟩ := Lease.settle_eq_ok.1 hpaid
    refine ⟨hsound, fun l hl' => ?_⟩
    rw [hturned.market_eq, ← hplace] at hl'
    obtain rfl := Option.some.inj ((Market.lease_withLease _ (Lease.plain _)).symm.trans hl')
    exact hplain hdone hprice

/-- A settlement brings its own lease up to the time of the block. -/
theorem Settled.upToDate {outcome : Outcome} (hk : k.LeaseHas Lease.Running id)
    (h : Settled b id k outcome k') : k'.LeaseHas (Lease.UpToDate b.time) id :=
  h.leaseHas hk Lease.Running.idle (fun h hl hsome => h.settle hl hsome)
    (Lease.kept_upToDate b.time).plain

theorem Settled.keeps (hP : Lease.Kept A P) (hb : A b.time) {outcome : Outcome}
    (hk : k.LeaseHas P id) (h : Settled b id k outcome k') : k'.LeaseHas P id :=
  h.leaseHas hk (fun h _ _ => h) (hP.settle hb) hP.plain

theorem Settled.leaseHas_of_ne {outcome : Outcome} (hk : k.LeaseHas P id) (hne : j ≠ id)
    (h : Settled b j k outcome k') : k'.LeaseHas P id := by
  refine ⟨h.sound hk.sound, fun l hl => hk.lease l ?_⟩
  have hs : Standing k.config id (k.registry.market.lease id) k := ⟨hk.sound, rfl, rfl⟩
  exact (h.standing_of_ne hs hne).lease_eq.symm.trans hl

theorem keeps_leaseHas_settle (hne : j ≠ id) (b : Block) :
    Keeps (LeaseHas P id) (branch (settleLease b j)) :=
  ofContents_leaseHas.recoverable.branch (built_settleLease b j) fun _ _ _ hk h =>
    (settleLease_done hk.sound.1 h).leaseHas_of_ne hk hne

theorem keepsOk_leasesHave_settle (hP : Lease.Kept A P) (hb : A b.time) (j : ResourceId) :
    KeepsOk (fun k => ∀ id, LeaseHas P id k) (settleLease b j) := by
  intro k outcome k' hk h id
  have hsettled := settleLease_done (hk j).sound.1 h
  by_cases hj : j = id
  · subst hj
    exact hsettled.keeps hP hb (hk j)
  · exact hsettled.leaseHas_of_ne (hk id) hj

theorem keepsOk_leaseHas_release (b : Block) (j : ResourceId) :
    KeepsOk (LeaseHas P id) (releaseDeposits b j) := by
  intro k refunds k' hk h
  have hs : Standing k.config id (k.registry.market.lease id) k := ⟨hk.sound, rfl, rfl⟩
  have hs' := standing_releaseDeposits b j k refunds k' hs h
  exact ⟨hs'.sound, fun l hl => hk.lease l (hs'.lease_eq.symm.trans hl)⟩

theorem keeps_leaseHas_release (b : Block) (j : ResourceId) :
    Keeps (LeaseHas P id) (branch (releaseDeposits b j)) :=
  ofContents_leaseHas.recoverable.branch (built_releaseDeposits b j) (keepsOk_leaseHas_release b j)

/-- A sweep that comes by a lease brings it up to date. -/
theorem Sweep.upToDate {ids : List ResourceId} (h : Sweep (settleLease b) ids k k')
    (hid : id ∈ ids) (hnodup : ids.Nodup) (hk : k.LeaseHas Lease.Running id) :
    k'.LeaseHas (Lease.UpToDate b.time) id := by
  induction h with
  | nil => cases hid
  | @cons j ids k k₁ k' outcome first rest ih =>
    rw [List.nodup_cons] at hnodup
    by_cases hj : j = id
    · -- The rest of the sweep does not come by again.
      subst hj
      obtain ⟨k₂, hsettle, rfl⟩ := run_branch_eq_ok.1 first
      have hentered := ofContents_leaseHas.congr (enter_equiv k).symm hk
      have hdone := (settleLease_done hentered.sound.1 hsettle).upToDate hentered
      refine rest.keeps (fun i hi => keeps_leaseHas_settle ?_ b)
        (ofContents_leaseHas.congr (keep_equiv k₂).symm hdone)
      rintro rfl
      exact hnodup.1 hi
    · have hfirst := keeps_leaseHas_settle hj b k hk
      rw [first] at hfirst
      exact ih ((List.mem_cons.1 hid).resolve_left (Ne.symm hj)) hnodup.2 hfirst

/-! ## Requests -/

theorem leaseHas_lease (hP : Lease.Kept A P) (hb : A b.time) {m : Message.TakeLease}
    {reply : Reply.Leased} (hk : k.LeaseHas P id) (hcheck : m.validate = .ok ())
    (h : k.run (performLease b m) = (.ok reply, k')) : k'.LeaseHas P id := by
  have hsound := sound_lease hk.sound hcheck h
  obtain ⟨hl, p, hp⟩ := hk.sound
  obtain ⟨_, x, _, _, -, hx, -, -, -, -, -, hstart, hturned⟩ := performLease_done hl h
  have hhours : m.hours ≠ 0 := require_eq_ok.1 (check_bind_eq_ok.1 hcheck).1
  have hdone := hP.start hb (hp.resource hx).valid.price hhours hstart
  obtain ⟨total, -, hlease⟩ := Lease.start_eq_ok.1 hstart
  have hplain : reply.lease.pricePerHour.plain = reply.lease.pricePerHour := by
    rw [hlease]
    exact congrArg Resource.pricePerHour (Registry.plain_of_market_resource hx)
  exact hk.withLease hsound hturned rfl (hP.plain hdone hplain)

theorem leaseHas_extension (hP : Lease.Kept A P) {m : Message.ExtendLease} {reply : Reply.Leased}
    (hk : ∀ id, k.LeaseHas P id) (h : k.run (performExtension b m) = (.ok reply, k')) :
    k'.LeaseHas P id := by
  have hsound := sound_extension (hk id).sound h
  obtain ⟨hl, p, hp⟩ := (hk id).sound
  obtain ⟨_, old, _, _, -, hold, -, -, -, hextend, -, hturned⟩ := performExtension_done hl h
  have hdone := hP.extend ((hk m.id).lease old hold) (hp.lease hold).valid hextend
  have hold' := price_plain hold
  have hplain : reply.lease.pricePerHour.plain = reply.lease.pricePerHour := by
    obtain ⟨-, _, _, -, -, hlease⟩ := Lease.extend_eq_ok.1 hextend
    rw [hlease]
    exact hold'
  exact (hk id).withLease hsound hturned rfl (hP.plain hdone hplain)

theorem leaseHas_cancellation (hP : Lease.Kept A P) (hb : A b.time) {m : Message.CancelLease}
    {reply : Reply.Cancelled} (hk : k.LeaseHas P id)
    (h : k.run (performCancellation b m) = (.ok reply, k')) : k'.LeaseHas P id := by
  obtain ⟨_, outcome, k₁, -, -, hsettled, -, -, hend⟩ := performCancellation_done hk.sound.1 h
  have hk₁ : k₁.LeaseHas P id := by
    by_cases hid : m.id = id
    · exact (hid ▸ hsettled : Settled b id k outcome k₁).keeps hP hb hk
    · exact hsettled.leaseHas_of_ne hk hid
  rcases hend with ⟨-, -, hturned⟩ | ⟨-, k₂, hrefund, hturned⟩
  · exact hk₁.turned (.of_same hturned hk₁.sound) hturned fun l hl => .inr hl
  · obtain ⟨_, x, _, -, -, -, hx, hturned'⟩ := refundLease_done hk₁.sound.1 hrefund
    have hk₂ := hk₁.ended (sound_refund hk₁.sound hrefund) hx hturned'
    exact hk₂.turned (.of_same hturned hk₂.sound) hturned fun l hl => .inr hl

theorem keepsOk_leasesHave_perform (hP : Lease.Kept A P) (hb : A b.time) {m : Request α}
    (hcheck : m.check = .ok ()) : KeepsOk (fun k => ∀ id, LeaseHas P id k) (m.perform b) := by
  intro k reply k' hk h id
  have hl := (hk id).sound.1
  have hsound := keepsOk_perform hcheck k reply k' (hk id).sound h
  cases m with
  | register m =>
    obtain ⟨_, _, _, -, -, -, -, -, -, hturned⟩ := performRegistration_done hl h
    exact (hk id).turned hsound hturned fun l hl => .inr hl
  | update m =>
    obtain ⟨_, -, -, -, -, -, hturned⟩ := performUpdate_done hl h
    exact (hk id).turned hsound hturned fun l hl => .inr hl
  | deposit m =>
    obtain ⟨_, _, _, _, _, -, -, -, -, -, -, -, hturned⟩ := performDeposit_done hl h
    exact (hk id).turned hsound hturned fun l hl => .inr hl
  | lease m => exact leaseHas_lease hP hb (hk id) (liftM_eq_ok.1 hcheck) h
  | extend m => exact leaseHas_extension hP hk h
  | cancel m => exact leaseHas_cancellation hP hb (hk id) h
  | close m =>
    obtain ⟨_, -, -, -, -, hturned⟩ := performClosing_done hl h
    exact (hk id).turned hsound hturned fun l hl => .inr hl
  | setParams m =>
    obtain ⟨_, -, -, -, hturned⟩ := performParamsUpdate_done hl h
    exact (hk id).turned hsound hturned fun l hl => .inr hl

/-! ## Steps -/

theorem leaseHas_create {config : Config} {params : Params}
    (h : create config ledger params = .ok k) (id : ResourceId) : k.LeaseHas P id := by
  refine ⟨sound_create h, fun l hl => ?_⟩
  cases ((market_create h).2 id).symm.trans hl

/-- What making, extending and settling leases keep, steps keep of all leases. -/
theorem leaseHas_next (hP : Lease.Kept A P) (s : Step) (hs : s.At A)
    (hk : ∀ id, k.LeaseHas P id) : ∀ id, (k.next s).LeaseHas P id := by
  have hrecoverable := (ofContents_leasesHave (P := P)).recoverable
  have hledger : ∀ f, Keeps (fun k => ∀ id, LeaseHas P id k) (onLedger f) := fun _ =>
    .onLedger fun _ _ hk _ id => ⟨(hk id).sound, (hk id).lease⟩
  cases s with
  | request b m => exact hrecoverable.handle b (keepsOk_leasesHave_perform hP hs) k hk
  | beginBlock e b =>
    exact hrecoverable.beginBlock e b (keepsOk_leasesHave_settle hP hs)
      (fun j k refunds k' hk h id => keepsOk_leaseHas_release b j k refunds k' (hk id) h) k hk
  | settle b j =>
    exact hrecoverable.branch (built_settleLease b j) (keepsOk_leasesHave_settle hP hs j) k hk
  | mint account coin => exact hledger _ k hk
  | burn account coin => exact hledger _ k hk
  | transfer source target coin => exact hledger _ k hk

/-- On every run every lease is running: it is gone as soon as it is charged for all its hours. -/
theorem running_after {config : Config} {params : Params} {start : Keeper Bank}
    (hcreate : create config ledger params = .ok start) (steps : List Step) :
    ∀ id, (start.after steps).LeaseHas Lease.Running id := by
  refine invariant_after (P := fun k => ∀ id, k.LeaseHas Lease.Running id) (leaseHas_create hcreate)
    fun s _ _ hk => leaseHas_next Lease.kept_running s ?_ hk
  cases s <;> trivial

end Keeper

end LeaseEscrow
