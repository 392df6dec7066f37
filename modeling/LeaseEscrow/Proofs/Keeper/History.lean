import LeaseEscrow.Proofs.Keeper.Origin
import LeaseEscrow.Proofs.Registry.History

/-!
# Histories never turn back

What messages and blocks do to the histories of resources, over any ledger. Only three of them
touch a history that has begun: a deposit adds a record to a pending resource, a closing notes its
time, and a block empties the deposits of a closed resource (`follows_move`). Main statement
(`history_is_monotone`): in every step of every run each resource stays the one it was, its status
never goes back, and leases only change and only exist while their resource is active.
-/

namespace LeaseEscrow

/-- What a host does: it hands on messages and blocks, and in between the ledger becomes another. -/
inductive Move (L : Type) : Type 1 where
  | request {α : Type} (b : Block) (m : Request α)
  | beginBlock (e : Engine) (b : Block)
  | setLedger (ledger : L)

/-- What a request that succeeds does to the history of the resource of `id`. -/
def Request.Advances {α : Type} (b : Block) (id : ResourceId) :
    Request α → α → Option History → Option History → Prop
  | .register m, reply, o, o' =>
    if reply.id = id then
      o = none ∧ ∃ params, o' = some (Keeper.registered b m params id).history
    else o' = o
  | .deposit m, _, o, o' =>
    if m.id = id then
      ∃ h status, o = some h ∧ h.status = .pending ∧ status ≠ .closed ∧
        o' = some { h with status, deposits := h.deposits ++ [⟨m.sender, m.amount, b.time⟩] }
    else o' = o
  | .close m, _, o, o' =>
    if m.id = id then
      ∃ h, o = some h ∧ h.closedAt = none ∧
        o' = some { h with status := .closed, closedAt := some b.time }
    else o' = o
  | _, _, o, o' => o' = o

namespace Keeper

variable {L α : Type} [Ledger L]

/-- The keeper after a move, whatever came of it. -/
def move (k : Keeper L) : Move L → Keeper L
  | .request b m => (k.run (m.handle b)).2
  | .beginBlock e b => (k.run (e.beginBlock b)).2
  | .setLedger ledger => { k with ledger }

/-- The keeper after a run. -/
def moves (k : Keeper L) (run : List (Move L)) : Keeper L := run.foldl move k

/-- What a move does to the history of the resource of `id`. -/
def Advances (k : Keeper L) (id : ResourceId) : Move L → Option History → Option History → Prop
  | .request b m, o, o' =>
    match (k.run (m.handle b)).1 with
    | .ok reply => m.Advances b id reply o o'
    | .error _ => o' = o
  | .beginBlock _ _, o, o' => Released o o'
  | .setLedger _, o, o' => o' = o

variable {k k' : Keeper L} {b : Block} {id : ResourceId} {ledger : L}

/-! ## Settlement -/

theorem Settled.sameHistory {outcome : Outcome} (hk : k.Sound) (h : Settled b id k outcome k') :
    k.registry.market.SameHistory k'.registry.market := by
  obtain ⟨hl, p, hp⟩ := hk
  cases h with
  | idle => exact .refl _
  | spent hlease _ _ hx hturned =>
    obtain rfl := Registry.id_of_market hl hx
    exact hturned.market_eq ▸ Market.sameHistory_ended hx (hp.isActive_of_lease hlease)
  | last hlease _ _ _ _ _ _ hx hturned =>
    obtain rfl := Registry.id_of_market hl hx
    exact hturned.market_eq ▸ Market.sameHistory_ended hx (hp.isActive_of_lease hlease)
  | paid hlease _ _ _ _ hsettle _ hturned =>
    obtain ⟨_, _, _, _, _, rfl⟩ := Lease.settle_eq_ok.1 hsettle
    obtain rfl := Registry.resourceId_of_market hl hlease
    exact hturned.market_eq ▸ Market.sameHistory_withLease (hp.isActive_of_lease hlease)

theorem sameHistory_refund {refund : Coin} (hk : k.Sound)
    (h : k.run (refundLease id) = (.ok refund, k')) :
    k.registry.market.SameHistory k'.registry.market := by
  obtain ⟨hl, p, hp⟩ := hk
  obtain ⟨lease, x, _, hlease, -, -, hx, hturned⟩ := refundLease_done hl h
  obtain rfl := Registry.id_of_market hl hx
  exact hturned.market_eq ▸ Market.sameHistory_ended hx (hp.isActive_of_lease hlease)

theorem released_releaseDeposits {refunds : List (Account × Coin)} (hl : k.registry.Laid)
    (h : k.run (releaseDeposits b id) = (.ok refunds, k')) :
    k.registry.market.Follows (fun _ => Released) k'.registry.market := by
  obtain ⟨x, _, hx, hclosed, -, -, hturned⟩ := releaseDeposits_done hl h
  obtain rfl := Registry.id_of_market hl hx
  rw [hturned.market_eq]
  refine Market.follows_withResource ?_ fun _ _ => .kept _
  show Released (k.registry.market.history x.id) _
  rw [Market.history_of_resource hx]
  exact .emptied (h := x.history) hclosed

/-- In a block, deposits of closed resources are released and nothing else befalls a history. -/
theorem released_beginBlock (hk : k.Sound) (e : Engine) (b : Block) :
    k.registry.market.Follows (fun _ => Released)
      (k.run (e.beginBlock b)).2.registry.market := by
  have hP : OfRecords fun k' : Keeper L =>
      k'.Sound ∧ k.registry.market.Follows (fun _ => Released) k'.registry.market := by
    rintro k₁ k₂ h ⟨hsound, hreleased⟩
    exact ⟨ofRecords_sound k₁ k₂ h hsound, (Registry.market_congr h).symm ▸ hreleased⟩
  refine (hP.recoverable.beginBlock e b ?_ ?_ k ⟨hk, ?_⟩).2
  · rintro id k₁ outcome k₂ ⟨hsound, hreleased⟩ h
    have hsettled := settleLease_done hsound.1 h
    refine ⟨hsettled.sound hsound, hreleased.trans .trans Released.status_eq ?_⟩
    exact (hsettled.sameHistory hsound).follows fun _ => .kept
  · rintro id k₁ refunds k₂ ⟨hsound, hreleased⟩ h
    refine ⟨keepsOk_releaseDeposits b id k₁ refunds k₂ hsound h, ?_⟩
    exact hreleased.trans .trans Released.status_eq (released_releaseDeposits hsound.1 h)
  · exact (Market.SameHistory.refl _).follows fun _ => .kept

/-! ## Requests -/

theorem follows_registration {m : Message.RegisterResource} {reply : Reply.Registered}
    (hl : k.registry.Laid) (h : k.run (performRegistration b m) = (.ok reply, k')) :
    k.registry.market.Follows (fun id => (Request.register m).Advances b id reply)
      k'.registry.market := by
  obtain ⟨params, nextId, _, -, -, -, hdraws, -, -, hturned⟩ := performRegistration_done hl h
  have hfree : k.registry.market.history reply.id = none := by
    rw [Market.history, hdraws.free]
    rfl
  have hfollows : Market.Follows (fun id => (Request.register m).Advances b id reply)
      { k.registry.market with nextId }
      (Market.withResource { k.registry.market with nextId } (registered b m params reply.id)) := by
    apply Market.follows_withResource
    · exact (if_pos rfl).mpr ⟨hfree, params, rfl⟩
    · intro id hid
      exact (if_neg hid).mpr rfl
  rw [hturned.market_eq]
  exact ⟨hfollows.history, hfollows.lease⟩

theorem follows_deposit {m : Message.AddDeposit} {reply : Reply.Deposited} (hl : k.registry.Laid)
    (hcheck : m.validate = .ok ()) (h : k.run (performDeposit b m) = (.ok reply, k')) :
    k.registry.market.Follows (fun id => (Request.deposit m).Advances b id reply)
      k'.registry.market := by
  obtain ⟨params, old, total, status, _, -, hold, hpending, -, -, -, hstatus, hturned⟩ :=
    performDeposit_done hl h
  have hopen : status ≠ .closed := by
    rw [hstatus]
    split <;> nofun
  have hplace := Registry.id_of_market hl hold
  have hamount := (Coin.validatePositive_eq_ok.1 hcheck).2.ne'
  rw [hturned.market_eq, plain_deposited hold hamount]
  apply Market.follows_withResource
  · refine (if_pos hplace.symm).mpr ⟨old.history, status, ?_, hpending, hopen, rfl⟩
    exact Market.history_of_resource (hplace.symm ▸ hold)
  · intro id hid
    exact (if_neg fun h => hid (hplace.trans h)).mpr rfl

omit [Ledger L] in
theorem follows_closing {m : Message.CloseResource} (hk : k.Sound)
    (h : k.run (performClosing b m) = (.ok (), k')) :
    k.registry.market.Follows (fun id => (Request.close m).Advances b id ())
      k'.registry.market := by
  obtain ⟨hl, p, hp⟩ := hk
  obtain ⟨old, hold, -, hopen, -, hturned⟩ := performClosing_done hl h
  have hplace := Registry.id_of_market hl hold
  have hnone : old.closedAt = none := by
    have hclosing := (hp.resource hold).valid.closing
    rw [← Option.not_isSome_iff_eq_none]
    exact fun hsome => hopen (hclosing.1 hsome)
  rw [hturned.market_eq]
  apply Market.follows_withResource
  · refine (if_pos hplace.symm).mpr ⟨old.history, ?_, hnone, rfl⟩
    exact Market.history_of_resource (hplace.symm ▸ hold)
  · intro id hid
    exact (if_neg fun h => hid (hplace.trans h)).mpr rfl

theorem sameHistory_lease {m : Message.TakeLease} {reply : Reply.Leased} (hl : k.registry.Laid)
    (h : k.run (performLease b m) = (.ok reply, k')) :
    k.registry.market.SameHistory k'.registry.market := by
  obtain ⟨_, x, _, _, -, hx, hactive, -, -, -, -, hstart, hturned⟩ := performLease_done hl h
  have hid : reply.lease.plain.resourceId = m.id := Lease.resourceId_start hstart
  have hleased : k.registry.market.SameHistory
      (k.registry.market.withLease reply.lease.plain) :=
    Market.sameHistory_withLease (Market.isActive_iff.2 ⟨x, hid ▸ hx, hactive⟩)
  have hx' := keeper_id hl hx
  rw [hturned.market_eq]
  exact hleased.trans (Market.sameHistory_withResource (x := { x with leased := true }) hx' rfl)

theorem sameHistory_extension {m : Message.ExtendLease} {reply : Reply.Leased} (hk : k.Sound)
    (h : k.run (performExtension b m) = (.ok reply, k')) :
    k.registry.market.SameHistory k'.registry.market := by
  obtain ⟨hl, p, hp⟩ := hk
  obtain ⟨_, old, _, _, -, hold, -, -, -, hextend, -, hturned⟩ := performExtension_done hl h
  have hid : reply.lease.plain.resourceId = m.id :=
    (Lease.resourceId_extend hextend).trans (Registry.resourceId_of_market hl hold)
  rw [hturned.market_eq]
  exact Market.sameHistory_withLease (hid ▸ hp.isActive_of_lease hold)

theorem sameHistory_cancellation {m : Message.CancelLease} {reply : Reply.Cancelled}
    (hk : k.Sound) (h : k.run (performCancellation b m) = (.ok reply, k')) :
    k.registry.market.SameHistory k'.registry.market := by
  obtain ⟨_, outcome, k₁, -, -, hsettled, -, -, hend⟩ := performCancellation_done hk.1 h
  have hsame₁ := hsettled.sameHistory hk
  rcases hend with ⟨-, -, hturned⟩ | ⟨-, k₂, hrefund, hturned⟩
  · rw [hturned.market_eq]
    exact hsame₁
  · rw [hturned.market_eq]
    exact hsame₁.trans (sameHistory_refund (hsettled.sound hk) hrefund)

/-- A request that succeeds takes histories further as it says. -/
theorem follows_perform {m : Request α} {reply : α} (hk : k.Sound) (hcheck : m.check = .ok ())
    (h : k.run (m.perform b) = (.ok reply, k')) :
    k.registry.market.Follows (fun id => m.Advances b id reply) k'.registry.market := by
  have hl := hk.1
  cases m with
  | register m => exact follows_registration hl h
  | update m =>
    obtain ⟨old, hold, -, -, -, -, hturned⟩ := performUpdate_done hl h
    have hold' := keeper_id hl hold
    rw [hturned.market_eq]
    exact Market.sameHistory_withResource (x := updated m old) hold' rfl
  | deposit m => exact follows_deposit hl (liftM_eq_ok.1 hcheck) h
  | lease m => exact sameHistory_lease hl h
  | extend m => exact sameHistory_extension hk h
  | cancel m => exact sameHistory_cancellation hk h
  | close m => exact follows_closing hk h
  | setParams m =>
    obtain ⟨_, -, -, -, hturned⟩ := performParamsUpdate_done hl h
    rw [hturned.market_eq]
    exact ⟨fun _ => rfl, fun _ => .inl rfl⟩

/-! ## Moves -/

/-- Every move keeps a keeper sound. -/
theorem sound_move (hk : k.Sound) (s : Move L) : (k.move s).Sound := by
  have hP := (ofRecords_sound (L := L)).recoverable
  cases s with
  | request b m => exact hP.handle b keepsOk_perform k hk
  | beginBlock e b =>
    exact hP.beginBlock e b (keepsOk_settleLease b) (keepsOk_releaseDeposits b) k hk
  | setLedger ledger => exact hk

/-- A successful request has performed what it asks for, and the market is the one this left. -/
theorem exists_performed {m : Request α} {reply : α} (h : (k.run (m.handle b)).1 = .ok reply) :
    m.check = .ok () ∧ ∃ k', k.enter.run (m.perform b) = (.ok reply, k') ∧
      (k.move (.request b m)).registry.market = k'.registry.market := by
  have hrun : k.run (m.handle b) = (.ok reply, k.move (.request b m)) := run_of_fst h
  obtain ⟨hcheck, k', hperform, hkeep⟩ := (run_handle_eq_ok b).1 hrun
  refine ⟨hcheck, k', hperform, ?_⟩
  rw [← hkeep]
  exact Registry.market_congr (Journaled.current_commit _)

/-- Every move takes histories further as it says, and changes leases of active resources only. -/
theorem follows_move (hk : k.Sound) (s : Move L) :
    k.registry.market.Follows (fun id => k.Advances id s) (k.move s).registry.market := by
  cases s with
  | request b m =>
    cases hresult : (k.run (m.handle b)).1 with
    | error e =>
      have hsame : (k.move (.request b m)).registry.market = k.registry.market :=
        Registry.market_congr (registry_of_handle_error hresult)
      rw [hsame]
      refine (Market.SameHistory.refl _).mono fun h => ?_
      rwa [Advances, hresult]
    | ok reply =>
      obtain ⟨hcheck, k₁, hperform, hmarket⟩ := exists_performed hresult
      have hfollows := follows_perform (ofRecords_sound k k.enter rfl hk) hcheck hperform
      rw [hmarket]
      refine hfollows.mono fun h => ?_
      rwa [Advances, hresult]
  | beginBlock e b => exact released_beginBlock hk e b
  | setLedger ledger => exact Market.SameHistory.refl _

theorem sound_moves (hk : k.Sound) (past : List (Move L)) : (k.moves past).Sound := by
  induction past generalizing k with
  | nil => exact hk
  | cons s past ih => exact ih (sound_move hk s)

/-! ## Histories go on -/

/-- How a history may go on in one move: it is closed by a closing and gets its time, a deposit
adds one record while it is pending, and a block empties the deposits while it is closed. -/
structure GoesOn (k : Keeper L) (s : Move L) (h h' : History) : Prop extends h.Precedes h' where
  closing : h'.closedAt = h.closedAt ∨
    h.closedAt = none ∧ ∃ b m, s = .request b (.close m) ∧ m.id = h.id ∧
      (k.run (closeResource b m)).1 = .ok () ∧ h'.closedAt = some b.time
  deposits : h'.deposits = h.deposits ∨
    (h.status = .pending ∧ ∃ b m reply, s = .request b (.deposit m) ∧ m.id = h.id ∧
      (k.run (addDeposit b m)).1 = .ok reply ∧
      h'.deposits = h.deposits ++ [⟨m.sender, m.amount, b.time⟩]) ∨
    h.status = .closed ∧ (∃ e b, s = .beginBlock e b) ∧ h'.deposits = []

theorem GoesOn.refl (k : Keeper L) (s : Move L) (h : History) : k.GoesOn s h h :=
  { History.Precedes.refl h with closing := .inl rfl, deposits := .inl rfl }

theorem goesOn_request {m : Request α} {reply : α} {h : History} {o : Option History}
    (hok : (k.run (m.handle b)).1 = .ok reply) (hadvances : m.Advances b h.id reply (some h) o) :
    ∃ h', o = some h' ∧ k.GoesOn (.request b m) h h' := by
  have hkept (hsame : o = some h) : ∃ h', o = some h' ∧ k.GoesOn (.request b m) h h' :=
    ⟨h, hsame, .refl ..⟩
  cases m with
  | register m =>
    rw [Request.Advances] at hadvances
    split at hadvances
    · cases hadvances.1
    · exact hkept hadvances
  | deposit m =>
    rw [Request.Advances] at hadvances
    split at hadvances
    · next hid =>
      obtain ⟨_, status, ⟨⟩, hpending, -, rfl⟩ := hadvances
      refine ⟨_, rfl, ⟨rfl, rfl, rfl, ?_, fun _ ht => ht⟩, .inl rfl, ?_⟩
      · rw [hpending]
        exact Nat.zero_le _
      · exact .inr (.inl ⟨hpending, b, m, reply, rfl, hid, hok, rfl⟩)
    · exact hkept hadvances
  | close m =>
    rw [Request.Advances] at hadvances
    split at hadvances
    · next hid =>
      obtain ⟨_, ⟨⟩, hnone, rfl⟩ := hadvances
      refine ⟨_, rfl, ⟨rfl, rfl, rfl, h.status.stage_le_closed, fun t ht => ?_⟩, ?_, .inl rfl⟩
      · cases hnone.symm.trans ht
      · exact .inr ⟨hnone, b, m, rfl, hid, hok, rfl⟩
    · exact hkept hadvances
  | _ => exact hkept hadvances

theorem Advances.goesOn {s : Move L} {h : History} {o : Option History}
    (hadvances : k.Advances h.id s (some h) o) : ∃ h', o = some h' ∧ k.GoesOn s h h' := by
  cases s with
  | request b m =>
    rw [Advances] at hadvances
    cases hresult : (k.run (m.handle b)).1 with
    | error e =>
      rw [hresult] at hadvances
      exact ⟨h, hadvances, .refl ..⟩
    | ok reply =>
      rw [hresult] at hadvances
      exact goesOn_request hresult hadvances
  | beginBlock e b =>
    cases hadvances with
    | kept => exact ⟨h, rfl, .refl ..⟩
    | emptied hclosed =>
      refine ⟨_, rfl, ⟨rfl, rfl, rfl, Nat.le_refl _, fun _ ht => ht⟩, .inl rfl, ?_⟩
      exact .inr (.inr ⟨hclosed, ⟨e, b, rfl⟩, rfl⟩)
  | setLedger ledger => exact ⟨h, hadvances, .refl ..⟩

theorem goesOn_move (hk : k.Sound) (s : Move L) {h : History}
    (hh : k.registry.market.history id = some h) :
    ∃ h', (k.move s).registry.market.history id = some h' ∧
      k.Advances id s (some h) (some h') ∧ k.GoesOn s h h' := by
  obtain ⟨x, hx, rfl⟩ := Market.exists_of_history hh
  obtain rfl := Registry.id_of_market hk.1 hx
  have hadvances := (follows_move hk s).history x.id
  rw [hh] at hadvances
  obtain ⟨h', hh', hgoes⟩ := Advances.goesOn (h := x.history) hadvances
  exact ⟨h', hh', hh' ▸ hadvances, hgoes⟩

end Keeper

end LeaseEscrow
