import LeaseEscrow.Proofs.Keeper.Request
import LeaseEscrow.Proofs.Store.Undo
import LeaseEscrow.Settlement.Engine

/-!
# What actions are built from

Whatever the keeper does, over any ledger, is built from a few readings and changes of its registry,
transfers and events, in sequence and in branches. What holds of these parts, and of sequences and
branches of what it holds of, holds of every handler and of every block, by induction on how they
are built.
-/

namespace LeaseEscrow

namespace Registry

/-- The readings that actions make. -/
inductive Reading : {α : Type} → (Registry → Except Refusal α) → Prop where
  | params : Reading Registry.params
  | resource (id : ResourceId) : Reading fun r => r.resource id
  | hasResource (id : ResourceId) : Reading fun r => pure (r.hasResource id)
  | resources : Reading Registry.resources
  | lease (id : ResourceId) : Reading fun r => r.lease id
  | leaseIds : Reading Registry.leaseIds

/-- The changes that actions make. -/
inductive Change : (Registry → Except Refusal Registry) → Prop where
  | setParams (p : Params) : Change fun r => return r.setParams p
  | setResource (x : Resource) : Change fun r => r.setResource x
  | setLease (l : Lease) : Change fun r => r.setLease l
  | deleteLease (id : ResourceId) : Change fun r => return (← r.deleteLease id).2

theorem Reading.reads {α : Type} {f : Registry → Except Refusal α} (hf : Reading f) : Reads f := by
  cases hf with
  | params => exact reads_params
  | resource id => exact reads_resource id
  | hasResource id => exact reads_hasResource id
  | resources => exact reads_resources
  | lease id => exact reads_lease id
  | leaseIds => exact reads_leaseIds

theorem Change.writes {f : Registry → Except Refusal Registry} (hf : Change f) : Writes f := by
  cases hf with
  | setParams p => exact writes_setParams p
  | setResource x => exact writes_setResource x
  | setLease l => exact writes_setLease l
  | deleteLease id => exact writes_deleteLease id

end Registry

namespace Keeper

variable {L : Type} [Ledger L] {α β γ : Type}

inductive Built : {α : Type} → Action L α → Prop where
  | pure {α : Type} (x : α) : Built (pure x)
  | lift {α : Type} (x : Except Fault α) : Built (liftM x)
  | lift_refusal {α : Type} (x : Except Refusal α) : Built (liftM x)
  | configNow : Built configNow
  | allocateId : Built allocateId
  | read {α : Type} {f : Registry → Except Refusal α} (hf : Registry.Reading f) : Built (read f)
  | change {f : Registry → Except Refusal Registry} (hf : Registry.Change f) : Built (change f)
  | send (source target : Account) (amount : Coin) : Built (send source target amount)
  | emit (b : Block) (kind : EventKind) (id : Option ResourceId) (detail : EventDetail) :
    Built (emit b kind id detail)
  | bind {α β : Type} {a : Action L α} {f : α → Action L β} (ha : Built a)
    (hf : ∀ x, Built (f x)) : Built (a >>= f)
  | branch {α : Type} {a : Action L α} (ha : Built a) : Built (branch a)
  | attempt {α : Type} {a : Action L α} (ha : Built a) : Built (attempt a)

theorem Built.ite {p : Prop} [Decidable p] {a a' : Action L α} (ha : Built a)
    (ha' : Built a') : Built (if p then a else a') := by
  split <;> assumption

theorem Built.forM (l : List γ) {f : γ → Action L Unit} (hf : ∀ x, Built (f x)) :
    Built (l.forM f) := by
  induction l with
  | nil => exact .pure _
  | cons x l ih => exact .bind (hf x) fun _ => ih

theorem Built.foldlM (l : List γ) {f : α → γ → Action L α} (hf : ∀ x y, Built (f x y))
    (start : α) : Built (l.foldlM f start) := by
  induction l generalizing start with
  | nil => exact .pure _
  | cons y l ih => exact .bind (hf start y) ih

/-! ## Settlement -/

theorem built_endLease (id : ResourceId) : Built (endLease id : Action L Unit) :=
  .bind (.change (.deleteLease id)) fun _ => .bind (.read (.resource id)) fun _ =>
  .change (.setResource _)

theorem built_finishSettlement (b : Block) (id : ResourceId) (lease : Lease) (paid : Coin) :
    Built (finishSettlement b id lease paid : Action L Outcome) := by
  refine .ite ?_ ?_
  · exact .bind (built_endLease id) fun _ => .bind (.emit ..) fun _ => .pure _
  · exact .bind (.change (.setLease lease)) fun _ => .pure _

theorem built_settleLease (b : Block) (id : ResourceId) : Built (settleLease b id : Action L Outcome) := by
  refine .bind (.read (.lease id)) fun lease => .bind (.read .params) fun params => ?_
  refine .bind (.lift _) fun accrual => ?_
  cases accrual with
  | none => exact .ite (built_finishSettlement ..) (.pure _)
  | some accrual =>
    refine .bind (.lift _) fun parts => .bind .configNow fun config => ?_
    refine .bind (.send ..) fun _ => .bind (.send ..) fun _ => .bind (.send ..) fun _ => ?_
    refine .bind (.lift_refusal _) fun settled => .bind (.lift_refusal _) fun commission => ?_
    exact .bind (.emit ..) fun _ => built_finishSettlement ..

theorem built_releaseDeposits (b : Block) (id : ResourceId) :
    Built (releaseDeposits b id : Action L (List (Account × Coin))) := by
  refine .bind (.read (.resource id)) fun resource => ?_
  refine .bind (.lift_refusal _) fun _ => .ite (.pure _) ?_
  refine .bind .configNow fun config => .bind (.forM _ fun d => .send ..) fun _ => ?_
  refine .bind (.change (.setResource _)) fun _ => ?_
  exact .bind (.emit ..) fun _ => .pure _

theorem built_recordFailure (b : Block) (report : Report) (phase : Phase) (id : ResourceId)
    (cause : Refusal) : Built (Engine.recordFailure b report phase id cause : Action L Report) :=
  .bind (.emit ..) fun _ => .pure _

theorem built_beginBlock (e : Engine) (b : Block) :
    Built (e.beginBlock b : Action L (Report × Engine)) := by
  have hsettle : ∀ report id, Built (Engine.settleOne b report id : Action L Report) := by
    intro report id
    refine .bind (.attempt (.branch (built_settleLease b id))) fun result => ?_
    cases result with
    | ok outcome => exact .pure _
    | error cause => exact built_recordFailure ..
  have hrelease : ∀ report id, Built (Engine.releaseOne b report id : Action L Report) := by
    intro report id
    refine .bind (.attempt (.branch (built_releaseDeposits b id))) fun result => ?_
    cases result with
    | ok refunds => exact .pure _
    | error cause => exact built_recordFailure ..
  refine .bind (.lift_refusal _) fun _ => .bind ?_ fun report => .bind ?_ fun _ => .pure _
  · exact .bind (.read .leaseIds) fun ids => .foldlM ids hsettle _
  · refine .bind (.read .params) fun params => .bind (.read .resources) fun resources => ?_
    exact .foldlM _ hrelease report

/-! ## Requests -/

theorem built_chooseId (chosen : Option ResourceId) :
    Built (chooseId chosen : Action L ResourceId) := by
  cases chosen with
  | none => exact .allocateId
  | some id =>
    refine .bind (.read (.hasResource id)) fun _ => ?_
    exact .bind (.lift_refusal _) fun _ => .pure _

variable (b : Block)

theorem built_performRegistration (m : Message.RegisterResource) :
    Built (performRegistration b m : Action L Reply.Registered) := by
  refine .bind (.read .params) fun params => ?_
  refine .bind (.lift_refusal _) fun _ => .bind (.lift_refusal _) fun _ => ?_
  refine .bind (.lift _) fun least => .bind (.lift_refusal _) fun _ => ?_
  refine .bind (built_chooseId m.id) fun id => .bind .configNow fun config => ?_
  refine .bind (.send ..) fun _ => .bind (.lift_refusal _) fun _ => ?_
  refine .bind (.change (.setResource _)) fun _ => ?_
  exact .bind (.lift_refusal _) fun detail => .bind (.emit ..) fun _ => .pure _

theorem built_checkPrice (price : Option Coin) : Built (checkPrice price : Action L Unit) := by
  cases price with
  | none => exact .pure _
  | some price => exact .bind (.read .params) fun _ => .lift_refusal _

theorem built_performUpdate (m : Message.UpdateResource) :
    Built (performUpdate b m : Action L Unit) := by
  refine .bind (.read (.resource m.id)) fun old => ?_
  refine .bind (.lift_refusal _) fun _ => .bind (.lift_refusal _) fun _ => ?_
  refine .bind (built_checkPrice m.pricePerHour) fun _ => .bind (.lift_refusal _) fun _ => ?_
  refine .bind (.change (.setResource _)) fun _ => ?_
  exact .bind (.lift_refusal _) fun detail => .emit ..

theorem built_performDeposit (m : Message.AddDeposit) :
    Built (performDeposit b m : Action L Reply.Deposited) := by
  refine .bind (.read .params) fun params => .bind (.read (.resource m.id)) fun old => ?_
  refine .bind (.lift_refusal _) fun _ => .bind (.lift_refusal _) fun _ => ?_
  refine .bind .configNow fun config => .bind (.send ..) fun _ => ?_
  refine .bind (.lift_refusal _) fun total => .bind (.lift_refusal _) fun resource => ?_
  refine .bind (.change (.setResource _)) fun _ => ?_
  exact .bind (.emit ..) fun _ => .pure _

theorem built_performLease (m : Message.TakeLease) :
    Built (performLease b m : Action L Reply.Leased) := by
  refine .bind (.read .params) fun params => .bind (.read (.resource m.id)) fun resource => ?_
  refine .bind (.lift_refusal _) fun _ => .bind (.lift_refusal _) fun _ => ?_
  refine .bind (.lift_refusal _) fun _ => .bind (.lift_refusal _) fun cost => ?_
  refine .bind (.lift_refusal _) fun _ => .bind .configNow fun config => ?_
  refine .bind (.send ..) fun _ => .bind (.lift_refusal _) fun lease => ?_
  refine .bind (.change (.setLease lease)) fun _ => .bind (.change (.setResource _)) fun _ => ?_
  exact .bind (.emit ..) fun _ => .pure _

theorem built_performExtension (m : Message.ExtendLease) :
    Built (performExtension b m : Action L Reply.Leased) := by
  refine .bind (.read .params) fun params => .bind (.read (.lease m.id)) fun old => ?_
  refine .bind (.lift_refusal _) fun _ => .bind (.lift_refusal _) fun _ => ?_
  refine .bind (.lift_refusal _) fun cost => .bind (.lift_refusal _) fun _ => ?_
  refine .bind (.lift_refusal _) fun lease => .bind .configNow fun config => ?_
  refine .bind (.send ..) fun _ => .bind (.change (.setLease lease)) fun _ => ?_
  exact .bind (.emit ..) fun _ => .pure _

theorem built_refundLease (id : ResourceId) : Built (refundLease id : Action L Coin) := by
  refine .bind (.read (.lease id)) fun lease => .bind (.lift _) fun refund => ?_
  refine .bind .configNow fun config => .bind (.send ..) fun _ => ?_
  exact .bind (built_endLease id) fun _ => .pure _

theorem built_refundRest (id : ResourceId) (nothing : Coin) (outcome : Outcome) :
    Built (refundRest id nothing outcome : Action L Coin) := by
  cases outcome with
  | completed _ => exact .pure _
  | idle => exact built_refundLease id
  | settled _ => exact built_refundLease id

theorem built_performCancellation (m : Message.CancelLease) :
    Built (performCancellation b m : Action L Reply.Cancelled) := by
  refine .bind (.read (.lease m.id)) fun lease => .bind (.lift_refusal _) fun _ => ?_
  refine .bind (built_settleLease b m.id) fun outcome => ?_
  refine .bind (built_refundRest m.id _ outcome) fun refunded => ?_
  exact .bind (.emit ..) fun _ => .pure _

theorem built_performClosing (m : Message.CloseResource) :
    Built (performClosing b m : Action L Unit) := by
  refine .bind (.read (.resource m.id)) fun old => ?_
  refine .bind (.lift_refusal _) fun _ => .bind (.lift_refusal _) fun _ => ?_
  refine .bind (.lift_refusal _) fun _ => .bind (.lift_refusal _) fun _ => ?_
  refine .bind (.change (.setResource _)) fun _ => ?_
  exact .bind (.lift_refusal _) fun detail => .emit ..

theorem built_performParamsUpdate (m : Message.UpdateParams) :
    Built (performParamsUpdate b m : Action L Unit) := by
  refine .bind .configNow fun config => .bind (.lift_refusal _) fun _ => ?_
  refine .bind (.read .params) fun params => ?_
  have htail : Built (do
      change fun r => return r.setParams m.params
      emit b .paramsUpdated none .params : Action L Unit) :=
    .bind (.change (.setParams m.params)) fun _ => .emit ..
  refine .ite ?_ htail
  exact .bind (.read .resources) fun _ => .bind (.lift_refusal _) fun _ => htail

theorem built_perform (m : Request α) : Built (m.perform b : Action L α) := by
  cases m with
  | register m => exact built_performRegistration b m
  | update m => exact built_performUpdate b m
  | deposit m => exact built_performDeposit b m
  | lease m => exact built_performLease b m
  | extend m => exact built_performExtension b m
  | cancel m => exact built_performCancellation b m
  | close m => exact built_performClosing b m
  | setParams m => exact built_performParamsUpdate b m

theorem built_handle (m : Request α) : Built (m.handle b : Action L α) := by
  rw [Request.handle_eq]
  exact .bind (.lift _) fun _ => .branch (built_perform b m)

end Keeper

end LeaseEscrow
