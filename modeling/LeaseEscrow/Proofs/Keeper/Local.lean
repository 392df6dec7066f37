import LeaseEscrow.Proofs.Keeper.Frame

/-!
# What settlements and releases depend on

To settle a lease is *local*: all that it reads is the configuration, the parameters and the records
of its own id. Two keepers that agree on these, and both settle it, get the same outcome, agree on
them again, to the byte, tell the same and see every balance move by the same amount
(`local_settleLease`), whatever else they hold. So it is with the release of deposits. Balances
themselves are compared only where they fall short, which is left open here: both runs are ones that
succeed.
-/

namespace LeaseEscrow

namespace Registry

/-! ## Registries that agree under some keys -/

def SameOn (read : Bytes → Prop) (r r' : Registry) : Prop :=
  ∀ key, read key → r.records.get? key = r'.records.get? key

variable {read : Bytes → Prop} {r r' r₁ r₁' : Registry} {id : ResourceId}

theorem SameOn.set (h : SameOn read r r') (key : Bytes) (record : Record) :
    SameOn read (r.set key record) (r'.set key record) := by
  intro k hk
  rw [get?_set, get?_set, h k hk]

theorem SameOn.delete (h : SameOn read r r') (key : Bytes) :
    SameOn read (r.delete key) (r'.delete key) := by
  intro k hk
  rw [get?_delete, get?_delete, h k hk]

theorem SameOn.file (h : SameOn read r r') (i : Key.Index) (holder : Account) (id : ResourceId)
    (previous : Option (Account × ResourceId)) (key : Bytes) (record : Record) :
    SameOn read (r.file i holder id previous key record)
      (r'.file i holder id previous key record) := by
  apply SameOn.set
  apply SameOn.set
  unfold unindex
  split
  · split
    · exact h.delete _
    · exact h
  · exact h

theorem SameOn.unfile (h : SameOn read r r') (i : Key.Index) (id : ResourceId) (key : Bytes)
    (holder : Option Account) : SameOn read (r.unfile i id key holder) (r'.unfile i id key holder) := by
  unfold Registry.unfile
  split
  · exact (h.delete _).delete _
  · exact h

/-- The keys that settling the lease of `id` reads. -/
def Needed (id : ResourceId) (key : Bytes) : Prop := Key.About id key ∨ key = Key.params

theorem SameOn.lease? (h : SameOn (Needed id) r r') : r.lease? id = r'.lease? id := by
  rw [Registry.lease?, Registry.lease?, get?_eq, get?_eq, h _ (.inl (Key.about_lease id))]

theorem SameOn.lease (h : SameOn (Needed id) r r') : r.lease id = r'.lease id := by
  rw [Registry.lease, Registry.lease, h.lease?]

theorem SameOn.resource? (h : SameOn (Needed id) r r') : r.resource? id = r'.resource? id := by
  rw [Registry.resource?, Registry.resource?, get?_eq, get?_eq, h _ (.inl (Key.about_resource id))]

theorem SameOn.resource (h : SameOn (Needed id) r r') : r.resource id = r'.resource id := by
  rw [Registry.resource, Registry.resource, h.resource?]

theorem SameOn.params (h : SameOn (Needed id) r r') : r.params = r'.params := by
  rw [Registry.params, Registry.params, get?_eq, get?_eq, h _ (.inr rfl)]

theorem SameOn.setLease {l : Lease} (h : SameOn (Needed id) r r') (hid : l.resourceId = id)
    (hset : r.setLease l = .ok r₁) (hset' : r'.setLease l = .ok r₁') :
    SameOn (Needed id) r₁ r₁' := by
  subst hid
  obtain ⟨old, hold, hfile⟩ := bind_eq_ok.1 hset
  obtain ⟨old', hold', hfile'⟩ := bind_eq_ok.1 hset'
  rw [h.lease?, hold', Except.ok.injEq] at hold
  subst hold
  obtain rfl := pure_eq_ok.1 hfile
  obtain rfl := pure_eq_ok.1 hfile'
  exact h.file _ _ _ _ _ _

theorem SameOn.setResource {x : Resource} (h : SameOn (Needed id) r r') (hid : x.id = id)
    (hset : r.setResource x = .ok r₁) (hset' : r'.setResource x = .ok r₁') :
    SameOn (Needed id) r₁ r₁' := by
  subst hid
  obtain ⟨old, hold, hfile⟩ := bind_eq_ok.1 hset
  obtain ⟨old', hold', hfile'⟩ := bind_eq_ok.1 hset'
  rw [h.resource?, hold', Except.ok.injEq] at hold
  subst hold
  obtain rfl := pure_eq_ok.1 hfile
  obtain rfl := pure_eq_ok.1 hfile'
  exact h.file _ _ _ _ _ _

theorem SameOn.deleteLease {found found' : Bool} (h : SameOn (Needed id) r r')
    (hdelete : r.deleteLease id = .ok (found, r₁)) (hdelete' : r'.deleteLease id = .ok (found', r₁')) :
    SameOn (Needed id) r₁ r₁' := by
  obtain ⟨old, hold, hunfile⟩ := bind_eq_ok.1 hdelete
  obtain ⟨old', hold', hunfile'⟩ := bind_eq_ok.1 hdelete'
  rw [h.lease?, hold', Except.ok.injEq] at hold
  subst hold
  obtain rfl := (Prod.mk.inj (pure_eq_ok.1 hunfile)).2
  obtain rfl := (Prod.mk.inj (pure_eq_ok.1 hunfile')).2
  exact h.unfile _ _ _ _

end Registry

namespace Keeper

variable {α β : Type} {id : ResourceId} {Q : α → Prop} {k k' k₁ k₁' k₂ k₂' : Keeper Bank}

/-! ## Runs side by side -/

/-- Keepers that agree on what settling the lease of `id` needs. -/
structure Agree (id : ResourceId) (k k' : Keeper Bank) : Prop where
  config : k.config = k'.config
  records : Registry.SameOn (Registry.Needed id) k.registry k'.registry
  laid : k.registry.Laid
  laid' : k'.registry.Laid
  balanced : k.ledger.current.Balanced
  balanced' : k'.ledger.current.Balanced

/-- What a balance came to gain. -/
def gain (k k₁ : Keeper Bank) (h : Holding) : ℚ :=
  (k₁.ledger.amount h).value - (k.ledger.amount h).value

theorem gain_trans (k k₁ k₂ : Keeper Bank) (h : Holding) :
    gain k k₂ h = gain k k₁ h + gain k₁ k₂ h := by
  unfold gain
  ring

/-- From `k` to `k₁` every balance gained what it gained from `k'` to `k₁'`, and the same was
told. -/
structure Parallel (k k₁ k' k₁' : Keeper Bank) : Prop where
  gains : ∀ h, gain k k₁ h = gain k' k₁' h
  told : ∃ new, k₁.events = k.events ++ new ∧ k₁'.events = k'.events ++ new

theorem Parallel.of_same (hledger : k₁.ledger = k.ledger) (hevents : k₁.events = k.events)
    (hledger' : k₁'.ledger = k'.ledger) (hevents' : k₁'.events = k'.events) :
    Parallel k k₁ k' k₁' where
  gains h := by rw [gain, gain, hledger, hledger', sub_self, sub_self]
  told := ⟨[], by rw [hevents, List.append_nil], by rw [hevents', List.append_nil]⟩

theorem Parallel.trans (h : Parallel k k₁ k' k₁') (h' : Parallel k₁ k₂ k₁' k₂') :
    Parallel k k₂ k' k₂' where
  gains holding := by
    rw [gain_trans k k₁, gain_trans k' k₁', h.gains, h'.gains]
  told := by
    obtain ⟨new, hnew, hnew'⟩ := h.told
    obtain ⟨more, hmore, hmore'⟩ := h'.told
    refine ⟨new ++ more, ?_, ?_⟩
    · rw [hmore, hnew, List.append_assoc]
    · rw [hmore', hnew', List.append_assoc]

/-- Where two keepers agree and the action succeeds in both, it gives the same result, they agree
after it, and it did the same to balances and events. -/
def Local (id : ResourceId) (Q : α → Prop) (a : Action Bank α) : Prop :=
  ∀ (k k' k₁ k₁' : Keeper Bank) (x x' : α), Agree id k k' → k.run a = (.ok x, k₁) →
    k'.run a = (.ok x', k₁') → x = x' ∧ Q x ∧ Agree id k₁ k₁' ∧ Parallel k k₁ k' k₁'

namespace Local

theorem bind {Q' : β → Prop} {a : Action Bank α} {f : α → Action Bank β} (ha : Local id Q a)
    (hf : ∀ x, Q x → Local id Q' (f x)) : Local id Q' (a >>= f) := by
  intro k k' k₂ k₂' y y' hagree h h'
  obtain ⟨x, k₁, hx, h⟩ := run_bind_eq_ok.1 h
  obtain ⟨x', k₁', hx', h'⟩ := run_bind_eq_ok.1 h'
  obtain ⟨rfl, hQ, hagree₁, hparallel₁⟩ := ha _ _ _ _ _ _ hagree hx hx'
  obtain ⟨rfl, hQ', hagree₂, hparallel₂⟩ := hf x hQ _ _ _ _ _ _ hagree₁ h h'
  exact ⟨rfl, hQ', hagree₂, hparallel₁.trans hparallel₂⟩

/-- An action that changes nothing, and whose result depends on what is needed. -/
theorem of_read {a : Action Bank α} (f : Keeper Bank → Except Fault α)
    (hrun : ∀ k, k.run a = (f k, k))
    (hf : ∀ {k k' x}, Agree id k k' → f k = .ok x → f k' = .ok x ∧ Q x) : Local id Q a := by
  intro k k' k₁ k₁' x x' hagree h h'
  rw [hrun] at h h'
  obtain ⟨hx, rfl⟩ := Prod.mk.inj h
  obtain ⟨hx', rfl⟩ := Prod.mk.inj h'
  obtain ⟨hsame, hQ⟩ := hf hagree hx
  exact ⟨Except.ok.inj (hsame.symm.trans hx'), hQ, hagree, .of_same rfl rfl rfl rfl⟩

theorem pure (x : α) : Local id Any (pure x : Action Bank α) :=
  .of_read (fun _ => .ok x) (fun k => run_pure k x) fun _ h => ⟨h, trivial⟩

theorem lift (x : Except Fault α) : Local id Any (liftM x : Action Bank α) :=
  .of_read (fun _ => x) (fun k => run_liftM k x) fun _ h => ⟨h, trivial⟩

theorem check (x : Except Refusal α) (hQ : ∀ a, x = .ok a → Q a) :
    Local id Q (liftM x : Action Bank α) :=
  .of_read (fun _ => liftM x) (fun k => run_liftM_refusal k x) fun _ h => ⟨h, hQ _ (liftM_eq_ok.1 h)⟩

theorem lift_refusal (x : Except Refusal α) : Local id Any (liftM x : Action Bank α) :=
  .check x fun _ _ => trivial

theorem configNow : Local id Any (configNow : Action Bank Config) := by
  refine .of_read (fun k => .ok k.config) (fun k => run_configNow k) fun hagree h => ⟨?_, trivial⟩
  rw [← hagree.config]
  exact h

theorem read {f : Registry → Except Refusal α}
    (hf : ∀ {r r'}, Registry.SameOn (Registry.Needed id) r r' → f r = f r')
    (hQ : ∀ {r x}, r.Laid → f r = .ok x → Q x) : Local id Q (Keeper.read f : Action Bank α) := by
  refine .of_read (fun k => liftM (f k.registry)) (fun k => run_read k f) fun hagree h => ⟨?_, ?_⟩
  · rw [← hf hagree.records]
    exact h
  · exact hQ hagree.laid (liftM_eq_ok.1 h)

theorem resource (id : ResourceId) :
    Local id (fun x => x.id = id) (Keeper.read (·.resource id) : Action Bank Resource) :=
  .read (fun hsame => hsame.resource) fun hlaid hx =>
    Registry.id_of_market hlaid ((Registry.resource_eq_ok hlaid).1 hx)

theorem emit (b : Block) (kind : EventKind) (subject : Option ResourceId) (detail : EventDetail) :
    Local id Any (Keeper.emit b kind subject detail : Action Bank Unit) := by
  intro k k' k₁ k₁' x x' hagree h h'
  obtain rfl := run_emit_eq_ok.1 h
  obtain rfl := run_emit_eq_ok.1 h'
  refine ⟨rfl, trivial, ⟨hagree.config, hagree.records, hagree.laid, hagree.laid',
    hagree.balanced, hagree.balanced'⟩, fun holding => ?_, _, rfl, rfl⟩
  rw [gain, gain, sub_self, sub_self]

theorem change {f : Registry → Except Refusal Registry}
    (hf : ∀ {r r' r₁ r₁'}, Registry.SameOn (Registry.Needed id) r r' → r.Laid → r'.Laid →
      f r = .ok r₁ → f r' = .ok r₁' →
      Registry.SameOn (Registry.Needed id) r₁ r₁' ∧ r₁.Laid ∧ r₁'.Laid) :
    Local id Any (Keeper.change f : Action Bank Unit) := by
  intro k k' k₁ k₁' x x' hagree h h'
  obtain ⟨r, hr, rfl⟩ := run_change_eq_ok.1 h
  obtain ⟨r', hr', rfl⟩ := run_change_eq_ok.1 h'
  obtain ⟨hsame, hlaid, hlaid'⟩ := hf hagree.records hagree.laid hagree.laid' hr hr'
  exact ⟨rfl, trivial, ⟨hagree.config, hsame, hlaid, hlaid', hagree.balanced, hagree.balanced'⟩,
    .of_same rfl rfl rfl rfl⟩

theorem setLease {l : Lease} (hl : l.resourceId = id) :
    Local id Any (Keeper.change (·.setLease l) : Action Bank Unit) :=
  .change fun hsame hlaid hlaid' hset hset' => ⟨hsame.setLease hl hset hset',
    (Registry.setLease_eq_ok hlaid hset).1, (Registry.setLease_eq_ok hlaid' hset').1⟩

theorem setResource {x : Resource} (hx : x.id = id) :
    Local id Any (Keeper.change (·.setResource x) : Action Bank Unit) :=
  .change fun hsame hlaid hlaid' hset hset' => ⟨hsame.setResource hx hset hset',
    (Registry.setResource_eq_ok hlaid hset).1, (Registry.setResource_eq_ok hlaid' hset').1⟩

theorem deleteLease (id : ResourceId) :
    Local id Any (Keeper.change fun r => return (← r.deleteLease id).2 : Action Bank Unit) := by
  refine .change fun hsame hlaid hlaid' hrun hrun' => ?_
  obtain ⟨⟨found, r⟩, hdelete, hr⟩ := bind_eq_ok.1 hrun
  obtain ⟨⟨found', r'⟩, hdelete', hr'⟩ := bind_eq_ok.1 hrun'
  obtain rfl := pure_eq_ok.1 hr
  obtain rfl := pure_eq_ok.1 hr'
  exact ⟨hsame.deleteLease hdelete hdelete', (Registry.deleteLease_eq_ok hlaid hdelete).1,
    (Registry.deleteLease_eq_ok hlaid' hdelete').1⟩

/-- The balances on either side may differ, but what a coin does to them does not. -/
theorem send (source target : Account) (amount : Coin) :
    Local id Any (Keeper.send source target amount : Action Bank Unit) := by
  intro k k' k₁ k₁' x x' hagree h h'
  obtain ⟨ledger, hsent, rfl⟩ := run_send_eq_ok.1 h
  obtain ⟨ledger', hsent', rfl⟩ := run_send_eq_ok.1 h'
  refine ⟨rfl, trivial, ⟨hagree.config, hagree.records, hagree.laid, hagree.laid',
    Bank.balanced_sent hagree.balanced hsent, Bank.balanced_sent hagree.balanced' hsent'⟩, ?_,
    [], (List.append_nil _).symm, (List.append_nil _).symm⟩
  rintro ⟨a, denom⟩
  rw [gain, gain, Bank.amount_sent hagree.balanced hsent, Bank.amount_sent hagree.balanced' hsent']
  ring

theorem forM {γ : Type} {f : γ → Action Bank Unit} (hf : ∀ y, Local id Any (f y)) (ys : List γ) :
    Local id Any (ys.forM f) := by
  induction ys with
  | nil => exact .pure ()
  | cons y ys ih => exact .bind (hf y) fun _ _ => ih

theorem ite {p : Prop} [Decidable p] {a a' : Action Bank α} (ha : Local id Q a)
    (ha' : Local id Q a') : Local id Q (if p then a else a') := by
  split
  · exact ha
  · exact ha'

theorem branch {a : Action Bank α} (ha : Local id Q a) : Local id Q (branch a) := by
  intro k k' k₂ k₂' x x' hagree h h'
  obtain ⟨k₁, hrun, rfl⟩ := run_branch_eq_ok.1 h
  obtain ⟨k₁', hrun', rfl⟩ := run_branch_eq_ok.1 h'
  have hkeep : k₁.keep ≈ k₁ := keep_equiv k₁
  have hkeep' : k₁'.keep ≈ k₁' := keep_equiv k₁'
  have henter : Agree id k.enter k'.enter := ⟨hagree.config, hagree.records, hagree.laid,
    hagree.laid', hagree.balanced, hagree.balanced'⟩
  obtain ⟨rfl, hQ, hagree₁, hparallel⟩ := ha _ _ _ _ _ _ henter hrun hrun'
  refine ⟨rfl, hQ, ⟨hagree₁.config, fun key hkey => ?_, (Registry.laid_congr hkeep.registry).2 hagree₁.laid,
    (Registry.laid_congr hkeep'.registry).2 hagree₁.laid', hkeep.book ▸ hagree₁.balanced,
    hkeep'.book ▸ hagree₁.balanced'⟩, fun holding => ?_, hparallel.told⟩
  · rw [Registry.equiv_def.1 hkeep.registry, Registry.equiv_def.1 hkeep'.registry]
    exact hagree₁.records key hkey
  · rw [gain, gain, Bank.amount_congr hkeep.book, Bank.amount_congr hkeep'.book]
    exact hparallel.gains holding

end Local

/-! ## Settlement -/

theorem local_endLease (id : ResourceId) : Local id Any (endLease id : Action Bank Unit) := by
  refine .bind (.deleteLease id) fun _ _ => .bind (.resource id) fun x hx => ?_
  exact .setResource hx

theorem local_finishSettlement (b : Block) {l : Lease} (hl : l.resourceId = id) (paid : Coin) :
    Local id Any (finishSettlement b id l paid : Action Bank Outcome) := by
  refine .ite ?_ ?_
  · exact .bind (local_endLease id) fun _ _ => .bind (.emit _ _ _ _) fun _ _ => .pure _
  · exact .bind (.setLease hl) fun _ _ => .pure _

theorem local_settleLease (b : Block) (id : ResourceId) :
    Local id Any (settleLease b id : Action Bank Outcome) := by
  refine .bind (Q := fun l => l.resourceId = id) (.read (fun hsame => hsame.lease) fun hlaid hl =>
    Registry.resourceId_of_market hlaid ((Registry.lease_eq_ok hlaid).1 hl)) fun l hl => ?_
  refine .bind (Q := Any) (.read (fun hsame => hsame.params) fun _ _ => trivial) fun params _ => ?_
  refine .bind (.lift _) fun accrual _ => ?_
  cases accrual with
  | none => exact .ite (local_finishSettlement b hl _) (.pure _)
  | some a =>
    refine .bind (.lift _) fun parts _ => .bind .configNow fun config _ => ?_
    refine .bind (.send _ _ _) fun _ _ => .bind (.send _ _ _) fun _ _ => ?_
    refine .bind (.send _ _ _) fun _ _ => ?_
    refine .bind (.check _ fun l' hsettle => ?_) fun l' (hl' : l'.resourceId = id) => ?_
    · obtain ⟨_, _, _, _, _, rfl⟩ := Lease.settle_eq_ok.1 hsettle
      exact hl
    · refine .bind (.lift_refusal _) fun commission _ => .bind (.emit _ _ _ _) fun _ _ => ?_
      exact local_finishSettlement b hl' _

/-! ## Releases -/

theorem local_releaseDeposits (b : Block) (id : ResourceId) :
    Local id Any (releaseDeposits b id : Action Bank (List (Account × Coin))) := by
  refine .bind (.resource id) fun x hx => .bind (.lift_refusal _) fun _ _ => .ite (.pure _) ?_
  refine .bind .configNow fun config _ => .bind (.forM (fun d => .send _ _ _) _) fun _ _ => ?_
  exact .bind (.setResource hx) fun _ _ => .bind (.emit _ _ _ _) fun _ _ => .pure _

end Keeper

end LeaseEscrow
