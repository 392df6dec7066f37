import LeaseEscrow.Proofs.Keeper.Branch
import LeaseEscrow.Proofs.Keeper.Calls
import LeaseEscrow.Proofs.Sample

/-!
# What a failed branch restores

A branch hands its closure the keeper itself, so the closure may do to it whatever a host may. The
notes that undo a branch live in the very store, ledger and event list that they protect. So a
branch that fails restores the records unless the closure replaced the store by an import, the
ledger unless the closure moved the checkpoints of the bank, and the pending events unless the
closure took them (`failed_branch_restores`). An import leaves no checkpoint behind, and then the
branch leaves the records as it finds them.

The argument is by induction on the closure: each operation hands on a relation between the keeper
before and the keeper after, and a branch hands on what its closure does (`Nests.of_closure`). It
makes no difference whether a part of the closure ran in a branch that succeeded.
-/

namespace LeaseEscrow

/-! ## Closures -/

/-- An operation on the keeper that a closure may use. -/
inductive Operation : Type → Type 1 where
  | call {α : Type} (c : Call α) : Operation α
  | settle (b : Block) (id : ResourceId) : Operation Outcome
  | release (b : Block) (id : ResourceId) : Operation (List (Account × Coin))
  | emitFailure (b : Block) (id : ResourceId) (reason : String) : Operation Unit
  | initGenesis (g : Genesis) : Operation Unit

/-- What a branch may be handed: operations in sequence, in nested branches, and with the errors of
parts caught. -/
inductive Closure : Type → Type 1 where
  | done {α : Type} (a : α) : Closure α
  | refuse {α : Type} (cause : Refusal) : Closure α
  | bind {α β : Type} (p : Closure α) (next : α → Closure β) : Closure β
  | attempt {α : Type} (p : Closure α) : Closure (Except Refusal α)
  | branch {α : Type} (p : Closure α) : Closure α
  | use {α : Type} (o : Operation α) : Closure α

namespace Operation

variable {α : Type}

def action : Operation α → Action Bank α
  | .call c => c.action
  | .settle b id => Keeper.settleLease b id
  | .release b id => Keeper.releaseDeposits b id
  | .emitFailure b id reason => Keeper.emitFailure b id reason
  | .initGenesis g => Keeper.initGenesis g

/-- The operation works in the store that it finds. -/
def KeepsStore : Operation α → Prop
  | .initGenesis _ => False
  | _ => True

/-- The operation leaves the checkpoints of the bank to the branches. -/
def KeepsCheckpoints : Operation α → Prop
  | .call (.bank .checkpoint) => False
  | .call (.bank .commit) => False
  | .call (.bank .revert) => False
  | _ => True

/-- The operation leaves the pending events where they are. -/
def KeepsEvents : Operation α → Prop
  | .call .takeEvents => False
  | _ => True

end Operation

namespace Closure

def action {α : Type} : Closure α → Action Bank α
  | .done a => pure a
  | .refuse cause => Keeper.refuse cause
  | .bind p next => do (next (← p.action)).action
  | .attempt p => Keeper.attempt p.action
  | .branch p => Keeper.branch p.action
  | .use o => o.action

/-- Every operation in the closure is of a kind. -/
def All (P : ∀ {α : Type}, Operation α → Prop) {α : Type} : Closure α → Prop
  | .done _ => True
  | .refuse _ => True
  | .bind p next => p.All P ∧ ∀ a, (next a).All P
  | .attempt p => p.All P
  | .branch p => p.All P
  | .use o => P o

theorem all_of_forall {P : ∀ {α : Type}, Operation α → Prop}
    (hP : ∀ {α : Type} (o : Operation α), P o) {α : Type} (p : Closure α) : p.All P := by
  induction p with
  | done a => trivial
  | refuse cause => trivial
  | bind p next ihp ihnext => exact ⟨ihp, ihnext⟩
  | attempt p ih => exact ih
  | branch p ih => exact ih
  | use o => exact hP o

end Closure

namespace Keeper

variable {α : Type} {R : Keeper Bank → Keeper Bank → Prop} {k k' : Keeper Bank}

/-! ## Relations that branches hand on -/

/-- A relation between the keeper before and the keeper after that holds along a sequence, and
across a branch when it holds inside. -/
structure Nests (R : Keeper Bank → Keeper Bank → Prop) : Prop where
  refl : ∀ k, R k k
  trans : ∀ {k k₁ k₂}, R k k₁ → R k₁ k₂ → R k k₂
  keep : ∀ {k k'}, R k.enter k' → R k k'.keep
  undo : ∀ {k k'}, R k.enter k' → R k (k'.undo k.events.length)

/-- What the checkpoints of the store would go back to is kept. -/
def SameStoreUndo (k k' : Keeper Bank) : Prop :=
  k'.registry.store.snapshots = k.registry.store.snapshots

/-- What the checkpoints of the store would go back to is kept, or there are none any more. -/
def StoreUndoOrNone (k k' : Keeper Bank) : Prop :=
  SameStoreUndo k k' ∨ k'.registry.store.snapshots = []

/-- What the checkpoints of the bank would go back to is kept. -/
def SameLedgerUndo (k k' : Keeper Bank) : Prop := k'.ledger.snapshots = k.ledger.snapshots

/-- Events are added at the end. -/
def EventsGrow (k k' : Keeper Bank) : Prop := k.events <+: k'.events

theorem snapshots_keep (k : Keeper Bank) :
    k.keep.registry.store.snapshots = k.registry.store.snapshots.tail :=
  Journaled.snapshots_commit _

theorem snapshots_undo (count : Nat) (k : Keeper Bank) :
    (k.undo count).registry.store.snapshots = k.registry.store.snapshots.tail :=
  Journaled.snapshots_revert _

theorem nests_sameStoreUndo : Nests SameStoreUndo where
  refl _ := rfl
  trans h h' := h'.trans h
  keep {_ k'} h := (snapshots_keep k').trans (congrArg List.tail h)
  undo {_ k'} h := (snapshots_undo _ k').trans (congrArg List.tail h)

theorem nests_storeUndoOrNone : Nests StoreUndoOrNone where
  refl _ := .inl rfl
  trans {k k₁ k₂} h h' := by
    rcases h' with hsame | hnone
    · exact h.imp hsame.trans hsame.trans
    · exact .inr hnone
  keep {k k'} h := by
    refine h.imp nests_sameStoreUndo.keep fun hnone => ?_
    rw [snapshots_keep, hnone, List.tail_nil]
  undo {k k'} h := by
    refine h.imp nests_sameStoreUndo.undo fun hnone => ?_
    rw [snapshots_undo, hnone, List.tail_nil]

theorem nests_sameLedgerUndo : Nests SameLedgerUndo where
  refl _ := rfl
  trans h h' := h'.trans h
  keep {_ k'} h := (Journaled.snapshots_commit k'.ledger).trans (congrArg List.tail h)
  undo {_ k'} h := (Journaled.snapshots_revert k'.ledger).trans (congrArg List.tail h)

theorem nests_eventsGrow : Nests EventsGrow where
  refl k := List.prefix_refl k.events
  trans h h' := h.trans h'
  keep h := h
  undo {k k'} h := by
    show k.events <+: k'.events.take k.events.length
    exact List.prefix_iff_eq_take.1 h ▸ List.prefix_refl _

/-! ## What operations do -/

/-- An import makes a registry that has no checkpoints. -/
theorem snapshots_ofGenesis {g : Genesis} {r : Registry} (h : Registry.ofGenesis g = .ok r) :
    r.store.snapshots = [] := by
  have hfold : ∀ {β : Type} {store : Registry → β → Except Refusal Registry} (l : List β)
      {r r' : Registry}, (∀ x, Registry.Writes fun r => store r x) → l.foldlM store r = .ok r' →
      r'.store.snapshots = r.store.snapshots := by
    intro β store l
    induction l with
    | nil =>
      intro r r' _ h
      cases h
      rfl
    | cons x l ih =>
      intro r r' hstore h
      rw [List.foldlM_cons, bind_eq_ok] at h
      obtain ⟨r₁, hx, hl⟩ := h
      exact (ih hstore hl).trans ((hstore x).snapshots _ _ hx)
  simp only [Registry.ofGenesis, bind_eq_ok] at h
  obtain ⟨r₁, hresources, r₂, hleases, hid⟩ := h
  cases hid
  show (r₂.set _ _).store.snapshots = []
  rw [Registry.snapshots_set, hfold _ Registry.writes_setLease hleases,
    hfold _ Registry.writes_setResource hresources]
  rfl

/-- All that an operation can do to the keeper: it works under the open checkpoints, or it moves
those of the bank, takes the events or replaces the registry. -/
inductive Effect (k : Keeper Bank) : {α : Type} → Operation α → Keeper Bank → Prop where
  | contained {α : Type} {o : Operation α} {k' : Keeper Bank} (h : Contained k k') : Effect k o k'
  | opened : Effect k (.call (.bank .checkpoint)) { k with ledger := k.ledger.checkpoint }
  | committed : Effect k (.call (.bank .commit)) { k with ledger := k.ledger.commit }
  | reverted : Effect k (.call (.bank .revert)) { k with ledger := k.ledger.revert }
  | taken : Effect k (.call .takeEvents) { k with events := [] }
  | imported (g : Genesis) {r : Registry} (h : r.store.snapshots = []) :
    Effect k (.initGenesis g) { k with registry := r }

theorem contained_onLedger {f : Bank → Except Fault Bank} (hf : Bank.Writes f) (k : Keeper Bank) :
    Contained k (k.run (onLedger f)).2 := (Matches.onLedger hf).contained k

theorem effect_call (c : Call α) (k : Keeper Bank) : Effect k (.call c) (k.run c.action).2 := by
  cases c with
  | request b m => exact .contained ((tame_handle b m).contained k)
  | beginBlock e b => exact .contained ((built_beginBlock e b).tame.contained k)
  | settle b id => exact .contained ((built_settleLease b id).branch.tame.contained k)
  | takeEvents => exact .taken
  | query q =>
    rw [run_query]
    exact .contained (.refl k)
  | bank c =>
    cases c with
    | mint account coin => exact .contained (contained_onLedger (Bank.writes_mint account coin) k)
    | burn account coin => exact .contained (contained_onLedger (Bank.writes_burn account coin) k)
    | transfer source target coin =>
      exact .contained (contained_onLedger (Bank.writes_transfer source target coin) k)
    | checkpoint => exact .opened
    | commit => exact .committed
    | revert => exact .reverted

theorem effect_operation (o : Operation α) (k : Keeper Bank) : Effect k o (k.run o.action).2 := by
  cases o with
  | call c => exact effect_call c k
  | settle b id => exact .contained ((tame_settleLease b id).contained k)
  | release b id => exact .contained ((tame_releaseDeposits b id).contained k)
  | emitFailure b id reason => exact .contained ((Matches.emit ..).contained k)
  | initGenesis g =>
    show Effect k _
      (k.run (liftM g.validate >>= fun _ => liftM (Registry.ofGenesis g) >>= setRegistry)).2
    rw [run_bind, run_liftM]
    cases g.validate with
    | error e => exact .contained (.refl k)
    | ok _ =>
      show Effect k _ (k.run (liftM (Registry.ofGenesis g) >>= setRegistry)).2
      rw [run_bind, run_liftM_refusal]
      cases hr : Registry.ofGenesis g with
      | error e => exact .contained (.refl k)
      | ok r => exact .imported g (snapshots_ofGenesis hr)

/-- What the effect of each operation of a closure hands on, the closure hands on. -/
theorem Nests.of_closure (hR : Nests R) {P : ∀ {α : Type}, Operation α → Prop}
    (hP : ∀ {α : Type} {o : Operation α} {k k' : Keeper Bank}, Effect k o k' → P o → R k k')
    (p : Closure α) (hp : p.All P) (k : Keeper Bank) : R k (k.run p.action).2 := by
  induction p generalizing k with
  | done a => exact hR.refl k
  | refuse cause => exact hR.refl k
  | bind p next ihp ihnext =>
    have hfirst := ihp hp.1 k
    rw [Closure.action, run_bind]
    generalize k.run p.action = r at hfirst
    obtain ⟨_ | a, k₁⟩ := r
    · exact hfirst
    · exact hR.trans hfirst (ihnext a (hp.2 a) k₁)
  | attempt p ih => exact ih hp k
  | branch p ih =>
    have hinside := ih hp k.enter
    rw [Closure.action, run_branch]
    generalize k.enter.run p.action = r at hinside
    obtain ⟨_ | a, k₁⟩ := r
    · exact hR.undo hinside
    · exact hR.keep hinside
  | use o => exact hP (effect_operation o k) hp

section

variable {o : Operation α}

theorem Effect.sameStoreUndo (h : Effect k o k') (ho : o.KeepsStore) : SameStoreUndo k k' := by
  cases h with
  | contained h => exact h.store
  | imported g h => exact ho.elim
  | _ => rfl

theorem Effect.storeUndoOrNone (h : Effect k o k') : StoreUndoOrNone k k' := by
  cases h with
  | contained h => exact .inl h.store
  | imported g h => exact .inr h
  | _ => exact .inl rfl

theorem Effect.sameLedgerUndo (h : Effect k o k') (ho : o.KeepsCheckpoints) :
    SameLedgerUndo k k' := by
  cases h with
  | contained h => exact h.ledger
  | opened => exact ho.elim
  | committed => exact ho.elim
  | reverted => exact ho.elim
  | _ => rfl

theorem Effect.eventsGrow (h : Effect k o k') (ho : o.KeepsEvents) : EventsGrow k k' := by
  cases h with
  | contained h => exact h.events
  | taken => exact ho.elim
  | _ => exact List.prefix_refl _

end

/-! ## Branches that fail -/

theorem run_branch_error {a : Action Bank α} {e : Fault} (h : (k.run (branch a)).1 = .error e) :
    k.run (branch a) = (.error e, (k.enter.run a).2.undo k.events.length) := by
  rw [run_branch] at h ⊢
  generalize k.enter.run a = r at h
  obtain ⟨_ | x, k₁⟩ := r
  · cases h
    rfl
  · cases h

theorem entries_undo_of_sameStoreUndo {k' : Keeper Bank} (h : SameStoreUndo k.enter k')
    (count : Nat) : (k'.undo count).registry.store.entries = k.registry.store.entries := by
  have hundone : (k'.undo count).registry.store.current = k.registry.store.current := by
    show k'.registry.store.revert.current = _
    rw [Journaled.current_revert, h]
    rfl
  exact congrArg OrderedMap.entries hundone

/-- A store without checkpoints is left as it is. -/
theorem registry_undo_of_none {k' : Keeper Bank} (h : k'.registry.store.snapshots = [])
    (count : Nat) : (k'.undo count).registry = k'.registry := by
  have hnone : k'.registry.store.checkpoints = [] := by
    rw [← List.length_eq_zero_iff, ← Journaled.length_snapshotsFrom k'.registry.store.current]
    exact congrArg List.length h
  show (⟨k'.registry.store.revert⟩ : Registry) = k'.registry
  rw [Journaled.revert, hnone]

end Keeper

open Keeper in
/-- What is left of a branch that fails, `inner` being the keeper that its closure left. Records,
ledger and events are as before the branch when no operation of the closure replaced the store,
moved the checkpoints of the bank or took the events. An import in it, and nothing else, can make
the records stay as the closure left them; of the events the branch keeps as many of those it
finds as there were before. -/
theorem failed_branch_restores {α : Type} (k : Keeper Bank) (p : Closure α) (e : Fault)
    (hfail : (k.run (branch p.action)).1 = .error e) :
    let inner := (k.enter.run p.action).2
    let after := (k.run (branch p.action)).2
    (p.All Operation.KeepsStore → after.registry.store.entries = k.registry.store.entries) ∧
    (p.All Operation.KeepsCheckpoints →
      after.ledger.current.balances = k.ledger.current.balances ∧
      after.ledger.current.supply = k.ledger.current.supply) ∧
    (p.All Operation.KeepsEvents → after.events = k.events) ∧
    (after.registry.store.entries = k.registry.store.entries ∨ after.registry = inner.registry) ∧
    after.events = inner.events.take k.events.length := by
  intro inner after
  have hafter : after = inner.undo k.events.length := congrArg Prod.snd (run_branch_error hfail)
  rw [hafter]
  refine ⟨fun hp => ?_, fun hp => ?_, fun hp => ?_, ?_, rfl⟩
  · have hstore := nests_sameStoreUndo.of_closure (fun h => h.sameStoreUndo) p hp k.enter
    exact entries_undo_of_sameStoreUndo hstore _
  · have hledger := nests_sameLedgerUndo.of_closure (fun h => h.sameLedgerUndo) p hp k.enter
    have hbook : (inner.undo k.events.length).ledger.current = k.ledger.current := by
      show Journaled.current (Journaled.revert inner.ledger) = _
      rw [Journaled.current_revert, hledger]
      rfl
    rw [hbook]
    exact ⟨rfl, rfl⟩
  · have hevents := nests_eventsGrow.of_closure (fun h => h.eventsGrow) p hp k.enter
    exact (List.prefix_iff_eq_take.1 hevents).symm
  · have hstore := nests_storeUndoOrNone.of_closure (fun h _ => h.storeUndoOrNone) p
      (p.all_of_forall fun _ => trivial) k.enter
    refine hstore.imp (entries_undo_of_sameStoreUndo · _) (registry_undo_of_none · _)

namespace Sample

/-- A failure was reported and its event is pending. -/
def reported : Keeper Bank := (keeper.run (Keeper.emitFailure (block 0) nodeId "short")).2

def stop : Refusal := .internal "stop"

/-- Coins are minted, a registration succeeds in its own branch, and then the closure refuses. -/
def abandoned : Closure Unit :=
  .bind (.use (.call (.bank (.mint owner (coins 5))))) fun _ =>
  .bind (.branch (.use (.call (.request (block 0) (.register registration))))) fun _ =>
  .refuse stop

/-- The events are taken, and then the closure refuses. -/
def drained : Closure Unit := .bind (.use (.call .takeEvents)) fun _ => .refuse stop

/-- A genesis state is imported, and then the closure refuses. -/
def replaced : Closure Unit :=
  .bind (.use (.initGenesis ⟨.default, [], [], 5⟩)) fun _ => .refuse stop

end Sample

open Keeper in
theorem failed_branch_restores_registration :
    let after := (Sample.reported.run (branch Sample.abandoned.action)).2
    (Sample.reported.run (branch Sample.abandoned.action)).1 = .error (.refused Sample.stop) ∧
      after.registry.store.entries = Sample.reported.registry.store.entries ∧
      after.ledger.current.balances = Sample.reported.ledger.current.balances ∧
      after.events = Sample.reported.events :=
  have hfail : (Sample.reported.run (branch Sample.abandoned.action)).1 =
      .error (.refused Sample.stop) := by decide +kernel
  have hrestored := failed_branch_restores Sample.reported Sample.abandoned _ hfail
  ⟨hfail, hrestored.1 ⟨trivial, fun _ => ⟨trivial, fun _ => trivial⟩⟩,
    (hrestored.2.1 ⟨trivial, fun _ => ⟨trivial, fun _ => trivial⟩⟩).1,
    hrestored.2.2.1 ⟨trivial, fun _ => ⟨trivial, fun _ => trivial⟩⟩⟩

open Keeper in
/-- A closure that took the events and one that imported a genesis state refuse: the events are
gone, and the records stay replaced. -/
theorem failed_branch_forgets :
    ((Sample.reported.run (branch Sample.drained.action)).1 = .error (.refused Sample.stop) ∧
      Sample.reported.events ≠ [] ∧
      (Sample.reported.run (branch Sample.drained.action)).2.events = []) ∧
    (Sample.reported.run (branch Sample.replaced.action)).1 = .error (.refused Sample.stop) ∧
      (Sample.reported.run (branch Sample.replaced.action)).2.registry.store.entries ≠
        Sample.reported.registry.store.entries := by
  decide +kernel

end LeaseEscrow
