import LeaseEscrow.Proofs.Keeper.Orderly
import LeaseEscrow.Proofs.Registry.Frame

/-!
# What an action writes

An action is *within* some keys when it writes under no others, whatever comes of it. To settle a
lease, and to perform a request, is within the keys of one id: an action reads the record of this id,
and what it writes is made of that record (`within_settleLease`, `writes_perform`). A registration
may also move the id counter, and parameters have a key of their own.
-/

namespace LeaseEscrow

namespace Keeper

variable {L : Type} {α β : Type} {touched : Bytes → Prop} {Q : α → Prop} {k k' : Keeper L}
  {id : ResourceId}

/-- The action writes under these keys only, and a result has the property. -/
def Within (touched : Bytes → Prop) (Q : α → Prop) (a : Action L α) : Prop :=
  ∀ k : Keeper L, k.registry.Laid → (k.run a).2.registry.Laid ∧
    Registry.SameOutside touched k.registry (k.run a).2.registry ∧
    ∀ x, (k.run a).1 = .ok x → Q x

/-- Any result will do. -/
abbrev Any (_ : α) : Prop := True

namespace Within

theorem bind {a : Action L α} {f : α → Action L β} {Q' : β → Prop} (ha : Within touched Q a)
    (hf : ∀ x, Q x → Within touched Q' (f x)) : Within touched Q' (a >>= f) := by
  intro k hk
  obtain ⟨hlaid, hsame, hresult⟩ := ha k hk
  rw [run_bind]
  rcases hrun : k.run a with ⟨e | x, k₁⟩
  · rw [hrun] at hlaid hsame
    exact ⟨hlaid, hsame, nofun⟩
  · rw [hrun] at hlaid hsame hresult
    obtain ⟨hlaid', hsame', hresult'⟩ := hf x (hresult x rfl) k₁ hlaid
    exact ⟨hlaid', hsame.trans hsame', hresult'⟩

theorem of_run {a : Action L α} (h : ∀ k : Keeper L, (k.run a).2.registry = k.registry)
    (hQ : ∀ (k : Keeper L) x, k.registry.Laid → (k.run a).1 = .ok x → Q x) :
    Within touched Q a := by
  intro k hk
  rw [h]
  exact ⟨hk, .refl touched _, fun x => hQ k x hk⟩

theorem pure (x : α) : Within touched Any (pure x : Action L α) :=
  .of_run (fun _ => rfl) fun _ _ _ _ => trivial

theorem lift (x : Except Fault α) : Within touched Any (liftM x : Action L α) :=
  .of_run (fun k => by rw [run_liftM]) fun _ _ _ _ => trivial

theorem check (x : Except Refusal α) (hQ : ∀ a, x = .ok a → Q a) :
    Within touched Q (liftM x : Action L α) := by
  refine .of_run (fun k => by rw [run_liftM_refusal]) fun k a _ ha => hQ a ?_
  rw [run_liftM_refusal] at ha
  exact liftM_eq_ok.1 ha

theorem lift_refusal (x : Except Refusal α) : Within touched Any (liftM x : Action L α) :=
  .check x fun _ _ => trivial

theorem configNow : Within touched Any (configNow : Action L Config) :=
  .of_run (fun _ => rfl) fun _ _ _ _ => trivial

theorem read (f : Registry → Except Refusal α) : Within touched Any (read f : Action L α) :=
  .of_run (fun k => by rw [run_read]) fun _ _ _ _ => trivial

/-- What is read of an id is the record of this id. -/
theorem resource (id : ResourceId) :
    Within touched (fun x => x.id = id) (Keeper.read (·.resource id) : Action L Resource) := by
  refine .of_run (fun k => by rw [run_read]) fun k x hk hx => ?_
  rw [run_read] at hx
  exact Registry.id_of_market hk ((Registry.resource_eq_ok hk).1 (liftM_eq_ok.1 hx))

theorem lease (id : ResourceId) :
    Within touched (fun l => l.resourceId = id) (Keeper.read (·.lease id) : Action L Lease) := by
  refine .of_run (fun k => by rw [run_read]) fun k l hk hl => ?_
  rw [run_read] at hl
  exact Registry.resourceId_of_market hk ((Registry.lease_eq_ok hk).1 (liftM_eq_ok.1 hl))

theorem emit (b : Block) (kind : EventKind) (id : Option ResourceId) (detail : EventDetail) :
    Within touched Any (Keeper.emit b kind id detail : Action L Unit) :=
  .of_run (fun _ => rfl) fun _ _ _ _ => trivial

theorem send [Ledger L] (source target : Account) (amount : Coin) :
    Within touched Any (Keeper.send source target amount : Action L Unit) := by
  refine .of_run (fun k => ?_) fun _ _ _ _ => trivial
  rw [run_send]
  split
  · rfl
  · cases Ledger.transfer k.ledger source target amount <;> rfl

theorem forM {γ : Type} {f : γ → Action L Unit} (hf : ∀ y, Within touched Any (f y)) (ys : List γ) :
    Within touched Any (ys.forM f) := by
  induction ys with
  | nil => exact .pure ()
  | cons y ys ih => exact .bind (hf y) fun _ _ => ih

theorem ite {p : Prop} [Decidable p] {a a' : Action L α} (ha : Within touched Q a)
    (ha' : Within touched Q a') : Within touched Q (if p then a else a') := by
  split
  · exact ha
  · exact ha'

theorem change {f : Registry → Except Refusal Registry}
    (h : ∀ {r r'}, r.Laid → f r = .ok r' → r'.Laid ∧ Registry.SameOutside touched r r') :
    Within touched Any (Keeper.change f : Action L Unit) := by
  intro k hk
  rw [run_change]
  cases hr : f k.registry with
  | error e => exact ⟨hk, .refl touched _, fun _ _ => trivial⟩
  | ok r =>
    obtain ⟨hlaid, hsame⟩ := h hk hr
    exact ⟨hlaid, hsame, fun _ _ => trivial⟩

theorem setResource {x : Resource} (hx : x.id = id) :
    Within (Key.About id) Any (Keeper.change (·.setResource x) : Action L Unit) :=
  .change fun hl hset =>
    ⟨(Registry.setResource_eq_ok hl hset).1, hx ▸ Registry.sameOutside_setResource hl hset⟩

theorem setLease {l : Lease} (hl : l.resourceId = id) :
    Within (Key.About id) Any (Keeper.change (·.setLease l) : Action L Unit) :=
  .change fun hlaid hset =>
    ⟨(Registry.setLease_eq_ok hlaid hset).1, hl ▸ Registry.sameOutside_setLease hlaid hset⟩

theorem deleteLease (id : ResourceId) :
    Within (Key.About id) Any
      (Keeper.change fun r => return (← r.deleteLease id).2 : Action L Unit) := by
  refine .change fun hlaid hrun => ?_
  obtain ⟨⟨found, r⟩, hdelete, hr⟩ := bind_eq_ok.1 hrun
  obtain rfl := pure_eq_ok.1 hr
  exact ⟨(Registry.deleteLease_eq_ok hlaid hdelete).1, Registry.sameOutside_deleteLease hdelete⟩

end Within

/-! ## Settlement -/

theorem within_endLease (id : ResourceId) :
    Within (Key.About id) Any (endLease id : Action L Unit) :=
  .bind (.deleteLease id) fun _ _ => .bind (.resource id) fun _ hx => .setResource hx

variable (b : Block)

theorem within_finishSettlement {l : Lease} (hl : l.resourceId = id) (paid : Coin) :
    Within (Key.About id) Any (finishSettlement b id l paid : Action L Outcome) := by
  refine .ite ?_ ?_
  · exact .bind (within_endLease id) fun _ _ => .bind (.emit _ _ _ _) fun _ _ => .pure _
  · exact .bind (.setLease hl) fun _ _ => .pure _

variable [Ledger L]

theorem within_settleLease (id : ResourceId) :
    Within (Key.About id) Any (settleLease b id : Action L Outcome) := by
  refine .bind (.lease id) fun l hl => .bind (.read _) fun params _ => ?_
  refine .bind (.lift _) fun accrual _ => ?_
  cases accrual with
  | none => exact .ite (within_finishSettlement b hl _) (.pure _)
  | some a =>
    refine .bind (.lift _) fun parts _ => .bind .configNow fun config _ => ?_
    refine .bind (.send _ _ _) fun _ _ => .bind (.send _ _ _) fun _ _ => ?_
    refine .bind (.send _ _ _) fun _ _ => ?_
    refine .bind (.check _ fun l' hsettle => ?_) fun l' (hl' : l'.resourceId = id) => ?_
    · obtain ⟨_, _, _, _, _, rfl⟩ := Lease.settle_eq_ok.1 hsettle
      exact hl
    · refine .bind (.lift_refusal _) fun commission _ => .bind (.emit _ _ _ _) fun _ _ => ?_
      exact within_finishSettlement b hl' _

theorem within_releaseDeposits (id : ResourceId) :
    Within (Key.About id) Any (releaseDeposits b id : Action L (List (Account × Coin))) := by
  refine .bind (.resource id) fun x hx => .bind (.lift_refusal _) fun _ _ => .ite (.pure _) ?_
  refine .bind .configNow fun config _ => .bind (.forM (fun d => .send _ _ _) _) fun _ _ => ?_
  exact .bind (.setResource hx) fun _ _ => .bind (.emit _ _ _ _) fun _ _ => .pure _

/-! ## Requests -/

omit [Ledger L] in
theorem within_performUpdate (m : Message.UpdateResource) :
    Within (Key.About m.id) Any (performUpdate b m : Action L Unit) := by
  have hprice : Within (Key.About m.id) Any (checkPrice m.pricePerHour : Action L Unit) := by
    cases m.pricePerHour with
    | none => exact .pure _
    | some price => exact .bind (.read _) fun _ _ => .lift_refusal _
  refine .bind (.resource m.id) fun old hold => .bind (.lift_refusal _) fun _ _ => ?_
  refine .bind (.lift_refusal _) fun _ _ => .bind hprice fun _ _ => ?_
  refine .bind (.lift_refusal _) fun _ _ => .bind (.setResource hold) fun _ _ => ?_
  exact .bind (.lift_refusal _) fun detail _ => .emit _ _ _ _

theorem within_performDeposit (m : Message.AddDeposit) :
    Within (Key.About m.id) Any (performDeposit b m : Action L Reply.Deposited) := by
  refine .bind (.read _) fun params _ => .bind (.resource m.id) fun old hold => ?_
  refine .bind (.lift_refusal _) fun _ _ => .bind (.lift_refusal _) fun _ _ => ?_
  refine .bind .configNow fun config _ => .bind (.send _ _ _) fun _ _ => ?_
  refine .bind (.lift_refusal _) fun total _ => ?_
  refine .bind (.check _ fun x hx => ?_) fun x (hx : x.id = m.id) => ?_
  · rw [activate] at hx
    split at hx
    · rw [Resource.become, check_bind_eq_ok, pure_eq_ok] at hx
      obtain ⟨-, rfl⟩ := hx
      exact hold
    · cases hx
      exact hold
  · refine .bind (.setResource hx) fun _ _ => ?_
    exact .bind (.emit _ _ _ _) fun _ _ => .pure _

theorem within_performLease (m : Message.TakeLease) :
    Within (Key.About m.id) Any (performLease b m : Action L Reply.Leased) := by
  refine .bind (.read _) fun params _ => .bind (.resource m.id) fun x hx => ?_
  refine .bind (.lift_refusal _) fun _ _ => .bind (.lift_refusal _) fun _ _ => ?_
  refine .bind (.lift_refusal _) fun _ _ => .bind (.lift_refusal _) fun cost _ => ?_
  refine .bind (.lift_refusal _) fun _ _ => .bind .configNow fun config _ => ?_
  refine .bind (.send _ _ _) fun _ _ => ?_
  refine .bind (.check _ fun l hstart => ?_) fun l (hl : l.resourceId = m.id) => ?_
  · obtain ⟨total, -, rfl⟩ := Lease.start_eq_ok.1 hstart
    rfl
  · refine .bind (.setLease hl) fun _ _ => .bind (.setResource hx) fun _ _ => ?_
    exact .bind (.emit _ _ _ _) fun _ _ => .pure _

theorem within_performExtension (m : Message.ExtendLease) :
    Within (Key.About m.id) Any (performExtension b m : Action L Reply.Leased) := by
  refine .bind (.read _) fun params _ => .bind (.lease m.id) fun old hold => ?_
  refine .bind (.lift_refusal _) fun _ _ => .bind (.lift_refusal _) fun _ _ => ?_
  refine .bind (.lift_refusal _) fun cost _ => .bind (.lift_refusal _) fun _ _ => ?_
  refine .bind (.check _ fun l hextend => ?_) fun l (hl : l.resourceId = m.id) => ?_
  · obtain ⟨-, _, _, -, -, rfl⟩ := Lease.extend_eq_ok.1 hextend
    exact hold
  · refine .bind .configNow fun config _ => .bind (.send _ _ _) fun _ _ => ?_
    refine .bind (.setLease hl) fun _ _ => ?_
    exact .bind (.emit _ _ _ _) fun _ _ => .pure _

theorem within_refundLease (id : ResourceId) :
    Within (Key.About id) Any (refundLease id : Action L Coin) := by
  refine .bind (.read _) fun l _ => .bind (.lift _) fun refund _ => ?_
  refine .bind .configNow fun config _ => .bind (.send _ _ _) fun _ _ => ?_
  exact .bind (within_endLease id) fun _ _ => .pure _

theorem within_performCancellation (m : Message.CancelLease) :
    Within (Key.About m.id) Any (performCancellation b m : Action L Reply.Cancelled) := by
  refine .bind (.read _) fun l _ => .bind (.lift_refusal _) fun _ _ => ?_
  refine .bind (within_settleLease b m.id) fun outcome _ => ?_
  have hrefund : Within (Key.About m.id) Any
      (refundRest m.id (.zero l.total.denom) outcome : Action L Coin) := by
    cases outcome with
    | completed _ => exact .pure _
    | idle => exact within_refundLease m.id
    | settled _ => exact within_refundLease m.id
  exact .bind hrefund fun refunded _ => .bind (.emit _ _ _ _) fun _ _ => .pure _

omit [Ledger L] in
theorem within_performClosing (m : Message.CloseResource) :
    Within (Key.About m.id) Any (performClosing b m : Action L Unit) := by
  refine .bind (.resource m.id) fun old hold => .bind (.lift_refusal _) fun _ _ => ?_
  refine .bind (.lift_refusal _) fun _ _ => .bind (.lift_refusal _) fun _ _ => ?_
  refine .bind (.check _ fun x hx => ?_) fun x (hx : x.id = m.id) => ?_
  · rw [Resource.become, check_bind_eq_ok, pure_eq_ok] at hx
    obtain ⟨-, rfl⟩ := hx
    exact hold
  · refine .bind (.setResource hx) fun _ _ => ?_
    exact .bind (.lift_refusal _) fun detail _ => .emit _ _ _ _

omit [Ledger L] in
theorem within_performParamsUpdate (m : Message.UpdateParams) :
    Within (· = Key.params) Any (performParamsUpdate b m : Action L Unit) := by
  refine .bind .configNow fun config _ => .bind (.lift_refusal _) fun _ _ => ?_
  refine .bind (.read _) fun params _ => ?_
  have htail : Within (· = Key.params) Any (do
      change fun r => return r.setParams m.params
      emit b .paramsUpdated none .params : Action L Unit) := by
    refine .bind (.change fun hl hset => ?_) fun _ _ => .emit _ _ _ _
    obtain rfl := pure_eq_ok.1 hset
    exact ⟨hl.setParams _, Registry.sameOutside_setParams _⟩
  refine .ite ?_ htail
  exact .bind (.read _) fun _ _ => .bind (.lift_refusal _) fun _ _ => htail

end Keeper

/-! ## Subjects -/

namespace Request

variable {α : Type}

/-- The resource that an answered request is about; for a registration the new one. -/
def subject : Request α → α → Option ResourceId
  | .register _, reply => some reply.id
  | .update m, _ => some m.id
  | .deposit m, _ => some m.id
  | .lease m, _ => some m.id
  | .extend m, _ => some m.id
  | .cancel m, _ => some m.id
  | .close m, _ => some m.id
  | .setParams _, _ => none

/-- What the request may write that is about no resource. -/
def ownKey : Request α → Option Bytes
  | .register m => if m.id.isNone then some Key.counter else none
  | .setParams _ => some Key.params
  | _ => none

/-- The keys that an answered request may write under. -/
def Touches (m : Request α) (reply : α) (key : Bytes) : Prop :=
  (∃ id, m.subject reply = some id ∧ Key.About id key) ∨ m.ownKey = some key

/-- A request that writes about a resource is about this resource. -/
theorem Touches.subject_eq {m : Request α} {reply : α} {key : Bytes} {id : ResourceId}
    (h : m.Touches reply key) (habout : Key.About id key) : m.subject reply = some id := by
  rcases h with ⟨id', hsubject, h⟩ | hown
  · rw [habout.id_eq h]
    exact hsubject
  · cases m with
    | register m =>
      obtain ⟨-, hkey⟩ := Option.ite_none_right_eq_some.1 hown
      obtain rfl := Option.some.inj hkey
      exact absurd habout (Key.not_about_counter id)
    | setParams m =>
      obtain rfl := Option.some.inj hown
      exact absurd habout (Key.not_about_params id)
    | _ => cases hown

end Request

namespace Keeper

section

variable {L α : Type} {k k' : Keeper L} {b : Block} {id : ResourceId}

theorem sameOutside_chooseId {chosen : Option ResourceId}
    (h : k.run (chooseId chosen) = (.ok id, k')) :
    Registry.SameOutside (fun key => chosen = none ∧ key = Key.counter) k.registry k'.registry := by
  cases chosen with
  | some c =>
    simp only [chooseId, run_read_bind_eq_ok, run_refusal_bind_eq_ok, run_pure_eq_ok] at h
    obtain ⟨_, -, _, -, -, rfl⟩ := h
    exact .refl _ _
  | none =>
    change k.run allocateId = _ at h
    rw [run_allocateId] at h
    cases hfree : k.registry.firstFree? k.registry.nextId with
    | none =>
      rw [hfree] at h
      cases h
    | some n =>
      rw [hfree] at h
      cases h
      exact (Registry.sameOutside_setNextId _).mono fun h => ⟨rfl, h⟩

variable [Ledger L]

theorem writes_registration {m : Message.RegisterResource} {reply : Reply.Registered}
    (hl : k.registry.Laid) (h : k.run (performRegistration b m) = (.ok reply, k')) :
    Registry.SameOutside ((Request.register m).Touches reply) k.registry k'.registry := by
  cases registers_of_run h with
  | @steps _ _ id _ _ _ _ _ _ _ _ _ hid _ _ hset _ =>
    obtain ⟨nextId, -, hturned⟩ := chooseId_done hl hid
    refine ((sameOutside_chooseId hid).mono ?_).trans
      ((Registry.sameOutside_setResource hturned.laid hset).mono fun habout =>
        .inl ⟨id, rfl, habout⟩)
    rintro key ⟨hnone, rfl⟩
    refine .inr ?_
    rw [Request.ownKey, hnone]
    rfl

/-- A request that succeeds writes under the keys of its subject and under its own. -/
theorem writes_perform {m : Request α} {reply : α} (hl : k.registry.Laid)
    (h : k.run (m.perform b) = (.ok reply, k')) :
    Registry.SameOutside (m.Touches reply) k.registry k'.registry := by
  have hwithin : ∀ {touched : Bytes → Prop}, Within touched Any (m.perform b : Action L α) →
      Registry.SameOutside touched k.registry k'.registry := by
    intro touched hm
    have hsame := (hm k hl).2.1
    rw [h] at hsame
    exact hsame
  cases m with
  | register m => exact writes_registration hl h
  | update m => exact (hwithin (within_performUpdate b m)).mono fun ha => .inl ⟨_, rfl, ha⟩
  | deposit m => exact (hwithin (within_performDeposit b m)).mono fun ha => .inl ⟨_, rfl, ha⟩
  | lease m => exact (hwithin (within_performLease b m)).mono fun ha => .inl ⟨_, rfl, ha⟩
  | extend m => exact (hwithin (within_performExtension b m)).mono fun ha => .inl ⟨_, rfl, ha⟩
  | cancel m => exact (hwithin (within_performCancellation b m)).mono fun ha => .inl ⟨_, rfl, ha⟩
  | close m => exact (hwithin (within_performClosing b m)).mono fun ha => .inl ⟨_, rfl, ha⟩
  | setParams m =>
    exact (hwithin (within_performParamsUpdate b m)).mono fun hkey => .inr (congrArg some hkey.symm)

end

variable {α : Type} {k : Keeper Bank} {b : Block}

/-- A handler that answers has performed its request. -/
theorem exists_perform {m : Request α} {reply : α} (h : (k.run (m.handle b)).1 = .ok reply) :
    ∃ k₁, k.enter.run (m.perform b) = (.ok reply, k₁) ∧ k₁ ≈ (k.run (m.handle b)).2 := by
  have hrun := run_of_fst h
  obtain ⟨-, k₁, hperform, hkeep⟩ := (run_handle_eq_ok b).1 hrun
  exact ⟨k₁, hperform, hkeep ▸ (keep_equiv k₁).symm⟩

/-- What is different after a request it has written, and then it was answered. -/
theorem writes_handle {m : Request α} (hl : k.registry.Laid) {key : Bytes}
    (hchanged : (k.run (m.handle b)).2.registry.records.get? key ≠ k.registry.records.get? key) :
    ∃ reply, (k.run (m.handle b)).1 = .ok reply ∧ m.Touches reply key := by
  cases hresult : (k.run (m.handle b)).1 with
  | error e =>
    have hback := equiv_of_handle_error b hresult
    rw [Registry.equiv_def.1 hback.registry] at hchanged
    exact absurd rfl hchanged
  | ok reply =>
    refine ⟨reply, rfl, ?_⟩
    obtain ⟨k₁, hperform, hafter⟩ := exists_perform hresult
    have hentered : k.enter.registry.Laid :=
      (Registry.laid_congr (enter_equiv k).registry).2 hl
    have hsame := writes_perform hentered hperform
    by_contra hkey
    apply hchanged
    rw [← Registry.equiv_def.1 hafter.registry, hsame key hkey,
      Registry.equiv_def.1 (enter_equiv k).registry]

end Keeper

end LeaseEscrow
