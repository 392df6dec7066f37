import LeaseEscrow.Proofs.Keeper.History
import Mathlib.Data.Set.Finite.Lemmas
import Mathlib.Data.Set.Finite.List

/-!
# The gate

Deposits gate what can be leased. A resource is active from when its deposits reach the minimum of
the parameters, and only an active resource can be leased. The parameters may change at any time,
and a status is not looked at again when they do. So the minimum that counts is one that was in
force at some time since the resource was registered (`deposits_gate_activation`).

The gate is passed in two places, by the one deposit of a registration and by the sum of all
deposits after one more. Seen from the history of a resource the two are alike: the status is the
one that its deposits have under the parameters of that moment (`entered_move`, `gated_move`). No
other move has an effect on deposits or status, unless the resource is closed after it.
-/

namespace LeaseEscrow

/-- What the deposits add up to. -/
def History.funds (h : History) : ℚ := (h.deposits.map fun d => d.amount.value).sum

theorem Resource.value_totalDeposit {x : Resource} {total : Coin} (hx : x.Valid)
    (htotal : x.totalDeposit = .ok total) : total.value = x.history.funds := by
  have hwhole : ∀ c ∈ x.deposits.map Deposit.amount, c.amount.Whole := by
    intro c hc
    obtain ⟨d, hd, rfl⟩ := List.mem_map.1 hc
    exact (hx.deposits d hd).amount.whole
  rw [Coin.value_sum hwhole htotal, List.map_map]
  rfl

/-- On which side of the gate so much is. -/
def Params.statusOf (p : Params) (funds : ℚ) : Status :=
  if p.minDeposit.amount.value ≤ funds then .active else .pending

/-- The request asks for the lease of `id`. -/
def Request.Takes {α : Type} (id : ResourceId) : Request α → Prop
  | .lease m => m.id = id
  | _ => False

namespace Market

variable {m : Market} {id : ResourceId}

theorem free_ended (hfree : m.lease id = none) (x : Resource) : (m.ended x).lease id = none := by
  by_cases hid : id = x.id
  · subst hid
    exact lease_ended m x
  · exact (sameOff_ended m x id hid).2.trans hfree

/-- A lease that is stored again in its place is not new. -/
theorem free_withLease {l old : Lease} (hfree : m.lease id = none)
    (hold : m.lease l.resourceId = some old) : (m.withLease l).lease id = none := by
  have hne : id ≠ l.resourceId := by
    rintro rfl
    cases hold.symm.trans hfree
  exact (sameOff_withLease m l id hne).2.trans hfree

end Market

namespace Keeper

variable {L α : Type} [Ledger L]

/-! ## Runs -/

/-- The minimal deposits in force along the run, from when the resource was first stored. -/
def minimaSince (k : Keeper L) (id : ResourceId) (run : List (Move L)) : List ℚ :=
  run.inits.filterMap fun past =>
    if (k.moves past).registry.hasResource id then
      (k.moves past).registry.params.toOption.map (·.minDeposit.amount.value)
    else none

/-- The run registered the resource, for no less than the initial deposit of the time. -/
def Entered (k : Keeper L) (run : List (Move L)) (id : ResourceId) (funds : ℚ) : Prop :=
  ∃ past b m reply p least, past ++ [.request b (.register m)] <+: run ∧
    ((k.moves past).run (registerResource b m)).1 = .ok reply ∧ reply.id = id ∧
    (k.moves past).registry.params = .ok p ∧ p.minInitialDeposit = .ok least ∧ least.value ≤ funds

/-- The run leased the resource when it was active and free, and it has been leased ever since. -/
def Taken (k : Keeper L) (run : List (Move L)) (id : ResourceId) : Prop :=
  ∃ past b m reply x, past ++ [.request b (.lease m)] <+: run ∧
    ((k.moves past).run (takeLease b m)).1 = .ok reply ∧ m.id = id ∧
    (k.moves past).registry.resource id = .ok x ∧ x.status = .active ∧ x.leased = false ∧
    ∀ later, past ++ [.request b (.lease m)] <+: later → later <+: run →
      ∃ y, (k.moves later).registry.resource id = .ok y ∧ y.leased = true

variable {k k' k₀ : Keeper L} {b : Block} {id : ResourceId} {p : Params}
  {past run : List (Move L)} {s : Move L} {h : History}

theorem moves_concat (k : Keeper L) (past : List (Move L)) (s : Move L) :
    k.moves (past ++ [s]) = (k.moves past).move s := List.foldl_concat ..

theorem mem_minimaSince {bound : ℚ} :
    bound ∈ k.minimaSince id run ↔
      ∃ past p, past <+: run ∧ (k.moves past).registry.hasResource id = true ∧
        (k.moves past).registry.params = .ok p ∧ p.minDeposit.amount.value = bound := by
  simp only [minimaSince, List.mem_filterMap, List.mem_inits]
  constructor
  · rintro ⟨past, hpast, hbound⟩
    split at hbound
    · next hstored =>
      cases hparams : (k.moves past).registry.params with
      | error e =>
        rw [hparams] at hbound
        cases hbound
      | ok p =>
        rw [hparams] at hbound
        exact ⟨past, p, hpast, hstored, hparams, Option.some.inj hbound⟩
    · cases hbound
  · rintro ⟨past, p, hpast, hstored, hparams, rfl⟩
    exact ⟨past, hpast, by rw [if_pos hstored, hparams]; rfl⟩

theorem minimaSince_mono (hrun : past <+: run) {bound : ℚ}
    (hbound : bound ∈ k.minimaSince id past) : bound ∈ k.minimaSince id run := by
  obtain ⟨before, p, hbefore, hrest⟩ := mem_minimaSince.1 hbound
  exact mem_minimaSince.2 ⟨before, p, hbefore.trans hrun, hrest⟩

/-- The minimum at the end of a run counts when the resource is stored there. -/
theorem last_mem_minimaSince (hk : (k.moves run).Sound)
    (hh : (k.moves run).registry.market.history id = some h)
    (hparams : (k.moves run).registry.market.params = some p) :
    p.minDeposit.amount.value ∈ k.minimaSince id run := by
  obtain ⟨x, hx, -⟩ := Market.exists_of_history hh
  refine mem_minimaSince.2 ⟨run, p, List.prefix_rfl, ?_, Registry.params_eq_ok.2 hparams, rfl⟩
  rw [Registry.hasResource_eq hk.1, hx, Option.isSome_some]

theorem Entered.mono {funds funds' : ℚ} (hentered : k.Entered past id funds) (hrun : past <+: run)
    (hle : funds ≤ funds') : k.Entered run id funds' := by
  obtain ⟨before, b, m, reply, p, least, hbefore, hok, hid, hparams, hleast, henough⟩ := hentered
  exact ⟨before, b, m, reply, p, least, hbefore.trans hrun, hok, hid, hparams, hleast,
    henough.trans hle⟩

/-! ## Steps -/

/-- The move registers the resource of `id`, on the side of the gate where its deposit is. -/
def Enters (k : Keeper L) (s : Move L) (id : ResourceId) (h : History) : Prop :=
  ∃ b m reply p least, s = .request b (.register m) ∧
    (k.run (registerResource b m)).1 = .ok reply ∧ reply.id = id ∧
    k.registry.market.params = some p ∧ (k.move s).registry.market.params = some p ∧
    p.minInitialDeposit = .ok least ∧ least.value ≤ h.funds ∧ h.status = p.statusOf h.funds

/-- What a move under the parameters `p` may do to the history of a resource. -/
inductive Gated (p : Params) : History → History → Prop where
  | kept (h : History) : Gated p h h
  | closed {h h' : History} (hclosed : h'.status = .closed) : Gated p h h'
  | added {h h' : History} {d : Deposit} (hpending : h.status = .pending)
      (hpos : 0 < d.amount.value) (hdeposits : h'.deposits = h.deposits ++ [d])
      (hstatus : h'.status = p.statusOf h'.funds) : Gated p h h'

/-- What is registered is on the side of the gate where its deposit is. -/
theorem entered_registration {m : Message.RegisterResource} {reply : Reply.Registered}
    (hl : k.registry.Laid) (h : k.run (performRegistration b m) = (.ok reply, k')) :
    ∃ p least x, k.registry.market.params = some p ∧ k'.registry.market.params = some p ∧
      p.minInitialDeposit = .ok least ∧ k'.registry.market.resource reply.id = some x ∧
      least.value ≤ x.history.funds ∧ x.status = p.statusOf x.history.funds := by
  obtain ⟨p, nextId, _, hp, -, -, -, -, -, hturned⟩ := performRegistration_done hl h
  obtain ⟨least, hleast, henough⟩ : ∃ least, p.minInitialDeposit = .ok least ∧
      least.amount ≤ m.deposit.amount := by
    cases registers_of_run h with
    | steps hparams _ _ hleast henough =>
      obtain rfl := Option.some.inj (hp.symm.trans (Registry.params_eq_ok.1 hparams))
      exact ⟨_, hleast, henough⟩
  have hfunds : (registered b m p reply.id).history.funds = m.deposit.value := List.sum_singleton
  rw [hturned.market_eq]
  refine ⟨p, least, registered b m p reply.id, hp, hp, hleast,
    Market.resource_withResource _ _, ?_, ?_⟩
  · rw [hfunds]
    exact Decimal.le_iff_value.1 henough
  · rw [hfunds, Params.statusOf]
    exact if_congr Decimal.le_iff_value rfl rfl

/-- One more deposit puts a resource on the side of the gate where all its deposits are. -/
theorem gated_deposit {m : Message.AddDeposit} {reply : Reply.Deposited} (hk : k.Sound)
    (hp : k.registry.market.params = some p) (hcheck : m.validate = .ok ())
    (h : k.run (performDeposit b m) = (.ok reply, k')) :
    ∃ x y, k.registry.market.resource m.id = some x ∧
      k'.registry.market.resource m.id = some y ∧ Gated p x.history y.history := by
  obtain ⟨_, hsound'⟩ := sound_deposit hk hcheck h
  obtain ⟨params, x, total, status, _, hparams, hx, hpending, -, -, htotal, hstatus, hturned⟩ :=
    performDeposit_done hk.1 h
  obtain rfl := Option.some.inj (hp.symm.trans hparams)
  have hpos := (Coin.validatePositive_eq_ok.1 hcheck).2
  let y : Resource := { deposited b m x with status }
  have hy : k'.registry.market.resource m.id = some y := by
    rw [hturned.market_eq, plain_deposited hx hpos.ne', ← Registry.id_of_market hk.1 hx]
    exact Market.resource_withResource _ y
  obtain ⟨p', hp'⟩ := hsound'
  have hfunds := Resource.value_totalDeposit (hp'.resource hy).valid htotal
  refine ⟨x, y, hx, hy, .added hpending hpos rfl ?_⟩
  show status = _
  rw [hstatus, Params.statusOf, ← hfunds]
  exact if_congr Decimal.le_iff_value rfl rfl

/-- What is new in a market has been registered there with at least the initial deposit. -/
theorem entered_request {m : Request α} {reply : α} (hk : k.Sound)
    (hok : (k.run (m.handle b)).1 = .ok reply) (hadvances : m.Advances b id reply none (some h))
    (hh : (k.move (.request b m)).registry.market.history id = some h) :
    k.Enters (.request b m) id h := by
  cases m with
  | register m =>
    rw [Request.Advances] at hadvances
    split at hadvances
    · next hid =>
      obtain ⟨-, k', hperform, hmarket⟩ := exists_performed hok
      obtain ⟨p, least, x, hp, hp', hleast, hx, henough, hstatus⟩ :=
        entered_registration (by exact hk.1) hperform
      rw [hmarket, ← hid, Market.history_of_resource hx] at hh
      obtain rfl := Option.some.inj hh
      exact ⟨b, m, reply, p, least, rfl, hok, hid, hp, hmarket ▸ hp', hleast, henough, hstatus⟩
    · cases hadvances
  | deposit m =>
    rw [Request.Advances] at hadvances
    split at hadvances
    · obtain ⟨_, _, hsome, -⟩ := hadvances
      cases hsome
    · cases hadvances
  | close m =>
    rw [Request.Advances] at hadvances
    split at hadvances
    · obtain ⟨_, hsome, -⟩ := hadvances
      cases hsome
    · cases hadvances
  | _ => cases hadvances

theorem entered_move (hk : k.Sound) (s : Move L) (hnone : k.registry.market.history id = none)
    (hh : (k.move s).registry.market.history id = some h) : k.Enters s id h := by
  have hadvances := (follows_move hk s).history id
  rw [hnone, hh] at hadvances
  cases s with
  | request b m =>
    rw [Advances] at hadvances
    cases hresult : (k.run (m.handle b)).1 with
    | error e =>
      rw [hresult] at hadvances
      cases hadvances
    | ok reply =>
      rw [hresult] at hadvances
      exact entered_request hk hresult hadvances hh
  | beginBlock e b => cases hadvances
  | setLedger ledger => cases hadvances

theorem gated_request {m : Request α} {reply : α} {h' : History} (hk : k.Sound)
    (hp : k.registry.market.params = some p) (hok : (k.run (m.handle b)).1 = .ok reply)
    (hadvances : m.Advances b id reply (some h) (some h'))
    (hh : k.registry.market.history id = some h)
    (hh' : (k.move (.request b m)).registry.market.history id = some h') : Gated p h h' := by
  have hkept (hsame : some h' = some h) : Gated p h h' := (Option.some.inj hsame).symm ▸ .kept h
  cases m with
  | register m =>
    rw [Request.Advances] at hadvances
    split at hadvances
    · cases hadvances.1
    · exact hkept hadvances
  | deposit m =>
    rw [Request.Advances] at hadvances
    split at hadvances
    · next hid =>
      obtain ⟨hcheck, k', hperform, hmarket⟩ := exists_performed hok
      obtain ⟨x, y, hx, hy, hgated⟩ := gated_deposit (ofRecords_sound k k.enter rfl hk)
        (by exact hp) (liftM_eq_ok.1 hcheck) hperform
      rw [hmarket, ← hid, Market.history_of_resource hy] at hh'
      cases (Market.history_of_resource hx).symm.trans (hid ▸ hh)
      cases hh'
      exact hgated
    · exact hkept hadvances
  | close m =>
    rw [Request.Advances] at hadvances
    split at hadvances
    · obtain ⟨_, -, -, hclosed⟩ := hadvances
      cases hclosed
      exact .closed rfl
    · exact hkept hadvances
  | _ => exact hkept hadvances

theorem gated_move (hk : k.Sound) (hp : k.registry.market.params = some p) (s : Move L)
    {h' : History} (hh : k.registry.market.history id = some h)
    (hh' : (k.move s).registry.market.history id = some h') : Gated p h h' := by
  have hadvances := (follows_move hk s).history id
  rw [hh, hh'] at hadvances
  cases s with
  | request b m =>
    rw [Advances] at hadvances
    cases hresult : (k.run (m.handle b)).1 with
    | error e =>
      rw [hresult] at hadvances
      cases hadvances
      exact .kept h
    | ok reply =>
      rw [hresult] at hadvances
      exact gated_request hk hp hresult hadvances hh hh'
  | beginBlock e b =>
    cases hadvances with
    | kept => exact .kept h
    | emptied hclosed => exact .closed hclosed
  | setLedger ledger =>
    cases hadvances
    exact .kept h

/-! ## Leases -/

theorem free_settled {outcome : Outcome} {j : ResourceId} (hk : k.Sound)
    (hfree : k.registry.market.lease id = none) (h : Settled b j k outcome k') :
    k'.registry.market.lease id = none := by
  cases h with
  | idle => exact hfree
  | spent _ _ _ _ hturned => exact hturned.market_eq ▸ Market.free_ended hfree _
  | last _ _ _ _ _ _ _ _ hturned => exact hturned.market_eq ▸ Market.free_ended hfree _
  | paid hlease _ _ _ _ hsettle _ hturned =>
    obtain ⟨_, _, _, _, _, rfl⟩ := Lease.settle_eq_ok.1 hsettle
    obtain rfl := Registry.resourceId_of_market hk.1 hlease
    exact hturned.market_eq ▸ Market.free_withLease hfree hlease

theorem free_cancellation {m : Message.CancelLease} {reply : Reply.Cancelled} (hk : k.Sound)
    (hfree : k.registry.market.lease id = none)
    (h : k.run (performCancellation b m) = (.ok reply, k')) :
    k'.registry.market.lease id = none := by
  obtain ⟨_, outcome, k₁, -, -, hsettled, -, hlaid, hend⟩ := performCancellation_done hk.1 h
  have hfree₁ := free_settled hk hfree hsettled
  rcases hend with ⟨-, -, hturned⟩ | ⟨-, k₂, hrefund, hturned⟩
  · exact hturned.market_eq ▸ hfree₁
  · obtain ⟨_, _, _, -, -, -, -, hended⟩ := refundLease_done hlaid hrefund
    exact hturned.market_eq ▸ hended.market_eq ▸ Market.free_ended hfree₁ _

/-- What is not leased stays so under every request but one for its lease. -/
theorem free_perform {m : Request α} {reply : α} (hk : k.Sound)
    (hfree : k.registry.market.lease id = none) (hother : ¬ m.Takes id)
    (h : k.run (m.perform b) = (.ok reply, k')) : k'.registry.market.lease id = none := by
  have hl := hk.1
  cases m with
  | register m =>
    obtain ⟨_, _, _, -, -, -, -, -, -, hturned⟩ := performRegistration_done hl h
    exact hturned.market_eq ▸ hfree
  | update m =>
    obtain ⟨_, -, -, -, -, -, hturned⟩ := performUpdate_done hl h
    exact hturned.market_eq ▸ hfree
  | deposit m =>
    obtain ⟨_, _, _, _, _, -, -, -, -, -, -, -, hturned⟩ := performDeposit_done hl h
    exact hturned.market_eq ▸ hfree
  | lease m =>
    obtain ⟨_, _, _, _, -, -, -, -, -, -, -, hstart, hturned⟩ := performLease_done hl h
    have hid : reply.lease.plain.resourceId = m.id := Lease.resourceId_start hstart
    rw [hturned.market_eq]
    refine ((Market.sameOff_withLease _ _) id ?_).2.trans hfree
    exact fun h => hother (hid.symm.trans h.symm)
  | extend m =>
    obtain ⟨_, old, _, _, -, hold, -, -, -, hextend, -, hturned⟩ := performExtension_done hl h
    have hid : reply.lease.plain.resourceId = m.id :=
      (Lease.resourceId_extend hextend).trans (Registry.resourceId_of_market hl hold)
    exact hturned.market_eq ▸ Market.free_withLease hfree (hid.symm ▸ hold)
  | cancel m => exact free_cancellation hk hfree h
  | close m =>
    obtain ⟨_, -, -, -, -, hturned⟩ := performClosing_done hl h
    exact hturned.market_eq ▸ hfree
  | setParams m =>
    obtain ⟨_, -, -, -, hturned⟩ := performParamsUpdate_done hl h
    exact hturned.market_eq ▸ hfree

theorem free_beginBlock (hk : k.Sound) (hfree : k.registry.market.lease id = none) (e : Engine)
    (b : Block) : (k.run (e.beginBlock b)).2.registry.market.lease id = none := by
  have hP : OfRecords fun k : Keeper L => k.Sound ∧ k.registry.market.lease id = none := by
    rintro k₁ k₂ h ⟨hsound, hfree⟩
    exact ⟨ofRecords_sound k₁ k₂ h hsound, (Registry.market_congr h).symm ▸ hfree⟩
  refine (hP.recoverable.beginBlock e b ?_ ?_ k ⟨hk, hfree⟩).2
  · rintro j k₁ outcome k₂ ⟨hsound, hfree⟩ h
    have hsettled := settleLease_done hsound.1 h
    exact ⟨hsettled.sound hsound, free_settled hsound hfree hsettled⟩
  · rintro j k₁ refunds k₂ ⟨hsound, hfree⟩ h
    refine ⟨keepsOk_releaseDeposits b j k₁ refunds k₂ hsound h, ?_⟩
    obtain ⟨_, _, -, -, -, -, hturned⟩ := releaseDeposits_done hsound.1 h
    exact hturned.market_eq ▸ hfree

/-- A lease is new only after a request for it, and the resource was active and free before. -/
theorem taken_move (hk : k.Sound) (s : Move L) (hfree : k.registry.market.lease id = none)
    (hleased : (k.move s).registry.market.lease id ≠ none) :
    ∃ b m reply x, s = .request b (.lease m) ∧ (k.run (takeLease b m)).1 = .ok reply ∧
      m.id = id ∧ k.registry.market.resource id = some x ∧ x.status = .active ∧
      x.leased = false := by
  cases s with
  | request b m =>
    cases hresult : (k.run (m.handle b)).1 with
    | error e =>
      exact absurd (Registry.market_congr (registry_of_handle_error hresult) ▸ hfree) hleased
    | ok reply =>
      obtain ⟨-, k', hperform, hmarket⟩ := exists_performed hresult
      by_cases htakes : m.Takes id
      · cases m with
        | lease m =>
          obtain ⟨_, x, _, _, -, hx, hactive, hopen, -⟩ :=
            performLease_done (by exact hk.1) hperform
          exact ⟨b, m, reply, x, rfl, hresult, htakes, htakes ▸ hx, hactive, hopen⟩
        | _ => exact htakes.elim
      · refine absurd ?_ hleased
        rw [hmarket]
        exact free_perform (ofRecords_sound k k.enter rfl hk) hfree htakes hperform
  | beginBlock e b => exact absurd (free_beginBlock hk hfree e b) hleased
  | setLedger ledger => exact absurd hfree hleased

omit [Ledger L] in
theorem leased_iff (hk : k.Sound) :
    k.registry.market.lease id ≠ none ↔
      ∃ x, k.registry.resource id = .ok x ∧ x.leased = true := by
  obtain ⟨hl, p, hp⟩ := hk
  constructor
  · intro hleased
    obtain ⟨l, hlease⟩ := Option.ne_none_iff_exists'.1 hleased
    obtain ⟨x, hx, -⟩ := (hp.lease hlease).owner
    refine ⟨x, (Registry.resource_eq_ok hl).2 hx, (hp.resource hx).leased_iff.2 ?_⟩
    rw [hlease, Option.isSome_some]
  · rintro ⟨x, hx, hleased⟩ hfree
    have hsome := (hp.resource ((Registry.resource_eq_ok hl).1 hx)).leased_iff.1 hleased
    rw [hfree] at hsome
    cases hsome

/-- What is leased at the end of a run has been taken in it. -/
theorem taken_moves (hk : k₀.Sound) (hnone : ∀ id, k₀.registry.market.lease id = none)
    (run : List (Move L)) (hleased : (k₀.moves run).registry.market.lease id ≠ none) :
    k₀.Taken run id := by
  induction run using List.reverseRecOn with
  | nil => exact absurd (hnone id) hleased
  | append_singleton past s ih =>
    have hend := (leased_iff (sound_moves hk _)).1 hleased
    have hpast := sound_moves hk past
    rw [moves_concat] at hleased
    by_cases hbefore : (k₀.moves past).registry.market.lease id = none
    · -- The lease is new, and the end of the run is all that there is later.
      obtain ⟨b, m, reply, x, rfl, hok, hid, hx, hactive, hfree⟩ :=
        taken_move hpast s hbefore hleased
      refine ⟨past, b, m, reply, x, List.prefix_rfl, hok, hid,
        (Registry.resource_eq_ok hpast.1).2 hx, hactive, hfree, fun later hlater hle => ?_⟩
      obtain rfl := hle.eq_of_length_le hlater.length_le
      exact hend
    · obtain ⟨before, b, m, reply, x, hprefix, hok, hid, hx, hactive, hfree, hsince⟩ := ih hbefore
      refine ⟨before, b, m, reply, x, hprefix.trans (List.prefix_append ..), hok, hid, hx, hactive,
        hfree, fun later hlater hle => ?_⟩
      rcases List.prefix_concat_iff.1 hle with rfl | hle
      · exact hend
      · exact hsince later hlater hle

/-! ## Deposits -/

/-- Where the history of the resource of `id` stands after the run: on which side of a minimum that
has been in force, and over the initial deposit. -/
structure Stands (k : Keeper L) (run : List (Move L)) (id : ResourceId) (h : History) : Prop where
  active : h.status = .active → ∃ bound ∈ k.minimaSince id run, bound ≤ h.funds
  pending : h.status = .pending → ∃ bound ∈ k.minimaSince id run, h.funds < bound
  entered : h.status ≠ .closed → k.Entered run id h.funds

theorem Stands.mono (hstands : k.Stands past id h) (hrun : past <+: run) : k.Stands run id h where
  active hactive := by
    obtain ⟨bound, hbound, hle⟩ := hstands.active hactive
    exact ⟨bound, minimaSince_mono hrun hbound, hle⟩
  pending hpending := by
    obtain ⟨bound, hbound, hlt⟩ := hstands.pending hpending
    exact ⟨bound, minimaSince_mono hrun hbound, hlt⟩
  entered hopen := (hstands.entered hopen).mono hrun le_rfl

theorem Stands.of_closed (hclosed : h.status = .closed) : k.Stands run id h where
  active hactive := nomatch hclosed.symm.trans hactive
  pending hpending := nomatch hclosed.symm.trans hpending
  entered hopen := absurd hclosed hopen

theorem Stands.of_statusOf (hbound : p.minDeposit.amount.value ∈ k.minimaSince id run)
    (hstatus : h.status = p.statusOf h.funds) (hentered : k.Entered run id h.funds) :
    k.Stands run id h where
  active hactive := by
    refine ⟨_, hbound, not_lt.1 fun hlt => ?_⟩
    rw [hstatus, Params.statusOf, if_neg (not_le.2 hlt)] at hactive
    cases hactive
  pending hpending := by
    refine ⟨_, hbound, not_le.1 fun hle => ?_⟩
    rw [hstatus, Params.statusOf, if_pos hle] at hpending
    cases hpending
  entered _ := hentered

/-- In a run that begins without resources every resource stands on its side of the gate. -/
theorem stands_moves (hk : k₀.Sound) (hnone : ∀ id, k₀.registry.market.resource id = none)
    (run : List (Move L)) (hh : (k₀.moves run).registry.market.history id = some h) :
    k₀.Stands run id h := by
  -- By induction on the last move: what stood before it stands after a longer run as well.
  induction run using List.reverseRecOn generalizing h with
  | nil =>
    obtain ⟨x, hx, -⟩ := Market.exists_of_history hh
    cases (hnone id).symm.trans hx
  | append_singleton past s ih =>
    have hpast := sound_moves hk past
    have hprefix : past <+: past ++ [s] := List.prefix_append ..
    have hmove := hh
    rw [moves_concat] at hmove
    cases hbefore : (k₀.moves past).registry.market.history id with
    | none =>
      obtain ⟨b, m, reply, p, least, rfl, hok, hid, hp, hp', hleast, henough, hstatus⟩ :=
        entered_move hpast s hbefore hmove
      rw [← moves_concat] at hp'
      exact .of_statusOf (last_mem_minimaSince (sound_moves hk _) hh hp') hstatus
        ⟨past, b, m, reply, p, least, List.prefix_rfl, hok, hid, Registry.params_eq_ok.2 hp,
          hleast, henough⟩
    | some h₀ =>
      have hstands := ih hbefore
      obtain ⟨p, hp⟩ := hpast.2
      cases gated_move hpast hp.params_eq s hbefore hmove with
      | kept => exact hstands.mono hprefix
      | closed hclosed => exact .of_closed hclosed
      | added hpending hpos hdeposits hstatus =>
        have hfunds : h₀.funds ≤ h.funds := by
          rw [History.funds, History.funds, hdeposits, List.map_append, List.sum_append,
            List.map_singleton, List.sum_singleton]
          exact le_add_of_nonneg_right hpos.le
        have hopen : h₀.status ≠ .closed := by
          rw [hpending]
          nofun
        -- The minimum that was looked at was in force before the move, when `h₀` was stored.
        exact .of_statusOf
          (minimaSince_mono hprefix (last_mem_minimaSince hpast hbefore hp.params_eq)) hstatus
          ((hstands.entered hopen).mono hprefix hfunds)

/-- While the parameters stay as they are, there is one minimum. -/
theorem Stands.of_constant (hstands : k.Stands run id h)
    (hconstant : ∀ past, past <+: run → (k.moves past).registry.params = .ok p) :
    (h.status = .active → p.minDeposit.amount.value ≤ h.funds) ∧
      (h.status = .pending → h.funds < p.minDeposit.amount.value ∧
        ∃ least, p.minInitialDeposit = .ok least ∧ least.value ≤ h.funds) := by
  have hsame : ∀ bound ∈ k.minimaSince id run, bound = p.minDeposit.amount.value := by
    intro bound hbound
    obtain ⟨past, p', hpast, -, hp', rfl⟩ := mem_minimaSince.1 hbound
    rw [Except.ok.inj (hp'.symm.trans (hconstant past hpast))]
  constructor
  · intro hactive
    obtain ⟨bound, hbound, hle⟩ := hstands.active hactive
    exact hsame bound hbound ▸ hle
  · intro hpending
    obtain ⟨bound, hbound, hlt⟩ := hstands.pending hpending
    have hopen : h.status ≠ .closed := by
      rw [hpending]
      nofun
    obtain ⟨past, b, m, reply, p', least, hprefix, -, -, hp', hleast, henough⟩ :=
      hstands.entered hopen
    have hpast := (List.prefix_append past [.request b (.register m)]).trans hprefix
    obtain rfl := Except.ok.inj (hp'.symm.trans (hconstant past hpast))
    exact ⟨hsame bound hbound ▸ hlt, least, hleast, henough⟩

/-- **Deposits gate activation.** After every run from a new keeper, an active resource has at
least the smallest minimum that has been in force since it was registered, and a pending one has
less than the largest and at least what its registration asked for. What is leased was active and
free when it was taken. So where the parameters never change, an active resource has reached their
minimum and a pending one has not. -/
theorem deposits_gate_activation {config : Config} {ledger : L} {params : Params}
    (hcreate : create config ledger params = .ok k₀) (run : List (Move L)) {x : Resource}
    (hx : (k₀.moves run).registry.resource id = .ok x) :
    ∃ total, x.totalDeposit = .ok total ∧
      (x.status = .active →
        ∃ least, IsLeast {d | d ∈ k₀.minimaSince id run} least ∧ least ≤ total.value) ∧
      (x.status = .pending → k₀.Entered run id total.value ∧
        ∃ greatest, IsGreatest {d | d ∈ k₀.minimaSince id run} greatest ∧ total.value < greatest) ∧
      (x.leased = true → k₀.Taken run id) ∧
      ∀ p, (∀ past, past <+: run → (k₀.moves past).registry.params = .ok p) →
        (x.status = .active → p.minDeposit.amount.value ≤ total.value) ∧
        (x.status = .pending → total.value < p.minDeposit.amount.value ∧
          ∃ least, p.minInitialDeposit = .ok least ∧ least.value ≤ total.value) := by
  have hstart := sound_create hcreate
  have hend := sound_moves hstart run
  obtain ⟨hresources, hleases⟩ := market_create hcreate
  obtain ⟨p, hp⟩ := hend.2
  have hx' := (Registry.resource_eq_ok hend.1).1 hx
  have hvalid := (hp.resource hx').valid
  obtain ⟨total, htotal⟩ := hvalid.summable
  have hstands := stands_moves hstart hresources run (Market.history_of_resource hx')
  have hfinite := List.finite_toSet (k₀.minimaSince id run)
  refine ⟨total, htotal, ?_⟩
  rw [Resource.value_totalDeposit hvalid htotal]
  refine ⟨fun hactive => ?_, fun hpending => ⟨hstands.entered ?_, ?_⟩, fun hleased => ?_,
    fun p hconstant => hstands.of_constant hconstant⟩
  · obtain ⟨bound, hbound, hle⟩ := hstands.active hactive
    obtain ⟨least, hmem, hleast⟩ := Set.exists_min_image _ (fun d => d) hfinite ⟨bound, hbound⟩
    exact ⟨least, ⟨hmem, hleast⟩, (hleast bound hbound).trans hle⟩
  · rw [show x.history.status = .pending from hpending]
    nofun
  · obtain ⟨bound, hbound, hlt⟩ := hstands.pending hpending
    obtain ⟨greatest, hmem, hgreatest⟩ :=
      Set.exists_max_image _ (fun d => d) hfinite ⟨bound, hbound⟩
    exact ⟨greatest, ⟨hmem, hgreatest⟩, hlt.trans_le (hgreatest bound hbound)⟩
  · exact taken_moves hstart hleases run ((leased_iff hend).2 ⟨x, hx, hleased⟩)

/-- A node that is registered with the minimum can be leased at once. -/
theorem gate_of_leased_node :
    let run : List (Move Bank) := [.request (Sample.block 0) (.register Sample.registration),
      .request (Sample.block 0) (.lease (Sample.lease 3))]
    ∃ x total least, (Sample.keeper.moves run).registry.resource Sample.nodeId = .ok x ∧
      x.totalDeposit = .ok total ∧
      IsLeast {d | d ∈ Sample.keeper.minimaSince Sample.nodeId run} least ∧ least ≤ total.value ∧
      Sample.keeper.Taken run Sample.nodeId := by
  intro run
  have hleased : ((Sample.keeper.moves run).registry.resource Sample.nodeId).map
      (fun x => (x.status, x.leased)) = .ok (.active, true) := by decide +kernel
  obtain ⟨x, hx, hfields⟩ := map_eq_ok.1 hleased
  simp only [Prod.mk.injEq] at hfields
  obtain ⟨total, htotal, hactive, -, htaken, -⟩ :=
    deposits_gate_activation Sample.create_keeper run hx
  obtain ⟨least, hleast, hle⟩ := hactive hfields.1
  exact ⟨x, total, least, hx, htotal, hleast, hle, htaken hfields.2⟩

end Keeper

end LeaseEscrow
