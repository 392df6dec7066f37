import LeaseEscrow.Proofs.Keeper.Blocks
import LeaseEscrow.Proofs.Keeper.Local

/-!
# Actions in their turn

A block settles lease after lease and releases the deposits of one resource after another. What is
done for one id does not bear on another: neither on its result nor on what is written, told and
moved (`Separate.alone_after`). After such actions have run in their turn there is what each of them
alone would have made of its records, and every balance has gained the sum of what each alone would
have brought (`DoneEach`); so the order of the turns does not matter (`DoneEach.records_eq`,
`DoneEach.amount_eq`).
-/

namespace LeaseEscrow

namespace Keeper

variable {α : Type} {c : Config} {k k₁ k' k'' : Keeper Bank} {b : Block} {id j : ResourceId}
  {ids ids' : List ResourceId} {step : ResourceId → Action Bank α}
  {Q : ResourceId → Keeper Bank → Prop} {a a' : α} {result : ResourceId → α}

/-- Runs an action for each of these ids in its turn, each time in a branch of its own. -/
def inTurn (step : ResourceId → Action Bank α) (ids : List ResourceId) : Action Bank (List α) :=
  ids.mapM fun id => branch (step id)

/-- The keeper where the action has run for this id alone. -/
def alone (step : ResourceId → Action Bank α) (k : Keeper Bank) (id : ResourceId) : Keeper Bank :=
  (k.run (branch (step id))).2

/-- What the action tells when it runs for this id alone. -/
def toldAlone (step : ResourceId → Action Bank α) (k : Keeper Bank) (id : ResourceId) :
    List Event := (alone step k id).events.drop k.events.length

/-- The first turn, and then all others. -/
theorem run_inTurn_cons_eq_ok {results : List α} :
    k.run (inTurn step (id :: ids)) = (.ok results, k') ↔
      ∃ a rest k₁, k.run (branch (step id)) = (.ok a, k₁) ∧
        k₁.run (inTurn step ids) = (.ok rest, k') ∧ results = a :: rest := by
  rw [inTurn, List.mapM_cons, run_bind_eq_ok]
  constructor
  · rintro ⟨a, k₁, hfirst, h⟩
    obtain ⟨rest, k₂, hrest, h⟩ := run_bind_eq_ok.1 h
    obtain ⟨rfl, rfl⟩ := run_pure_eq_ok.1 h
    exact ⟨a, rest, k₁, hfirst, hrest, rfl⟩
  · rintro ⟨a, rest, k₁, hfirst, hrest, rfl⟩
    exact ⟨a, k₁, hfirst, run_bind_eq_ok.2 ⟨rest, k', hrest, rfl⟩⟩

/-! ## Separate actions -/

/-- An action that solvent keepers can run, and that reads and writes under the keys of its own id. -/
structure Separate (c : Config) (Q : ResourceId → Keeper Bank → Prop)
    (step : ResourceId → Action Bank α) : Prop extends Serves (Solvent c) Q step where
  within : ∀ id, Within (Key.About id) Any (step id)
  reads : ∀ id, Local id Any (step id)

theorem separate_settleLease (c : Config) (b : Block) :
    Separate c (fun id k => ∃ l, Standing c id (some l) k) (settleLease b) where
  toServes := serves_settleLease c b
  within := within_settleLease b
  reads := local_settleLease b

theorem separate_releaseDeposits (c : Config) (b : Block) :
    Separate c Closed (releaseDeposits b) where
  toServes := serves_releaseDeposits c b
  within := within_releaseDeposits b
  reads := local_releaseDeposits b

theorem sameOutside_branch {touched : Bytes → Prop} {Q : α → Prop} {action : Action Bank α}
    (ha : Within touched Q action) (hl : k.registry.Laid)
    (h : k.run (branch action) = (.ok a, k')) :
    Registry.SameOutside touched k.registry k'.registry := by
  obtain ⟨k₁, hrun, rfl⟩ := run_branch_eq_ok.1 h
  have henter := Registry.equiv_def.1 (enter_equiv k).registry
  have hkeep := Registry.equiv_def.1 (keep_equiv k₁).registry
  have hsame := (ha k.enter ((Registry.laid_congr (enter_equiv k).registry).2 hl)).2.1
  rw [hrun] at hsame
  intro key hkey
  rw [hkeep, hsame key hkey, henter]

/-- A solvent keeper agrees with itself. -/
theorem Solvent.agree (hk : k.Solvent c) (id : ResourceId) : Agree id k k :=
  ⟨rfl, fun _ _ => rfl, hk.sound.1, hk.sound.1, hk.balanced, hk.balanced⟩

namespace Separate

theorem solvent_of_ok (hstep : Separate c Q step) (hk : k.Solvent c)
    (h : k.run (branch (step id)) = (.ok a, k')) : k'.Solvent c := by
  have hk' := hstep.keeps id k hk
  rw [h] at hk'
  exact hk'

theorem others_of_ok (hstep : Separate c Q step) (hne : id ≠ j) (hj : Q j k)
    (h : k.run (branch (step id)) = (.ok a, k')) : Q j k' := by
  have hj' := hstep.others hne k hj
  rw [h] at hj'
  exact hj'

/-- What is needed for one id is the same after the action has run for another. -/
theorem agree (hstep : Separate c Q step) (hk : k.Solvent c) (hne : id ≠ j)
    (h : k.run (branch (step id)) = (.ok a, k')) : Agree j k k' := by
  have hk' := hstep.solvent_of_ok hk h
  refine ⟨hk.config_eq.trans hk'.config_eq.symm, fun key hkey => ?_, hk.sound.1, hk'.sound.1,
    hk.balanced, hk'.balanced⟩
  refine (sameOutside_branch (hstep.within id) hk.sound.1 h key fun habout => ?_).symm
  rcases hkey with hkey | rfl
  · exact hne (habout.id_eq hkey)
  · exact Key.not_about_params id habout

theorem exists_alone (hstep : Separate c Q step) (hk : k.Solvent c) (hid : Q id k) :
    ∃ a, k.run (branch (step id)) = (.ok a, alone step k id) := by
  obtain ⟨a, k', hrun⟩ := hstep.succeeds hk hid
  refine ⟨a, ?_⟩
  rw [alone, hrun]

/-- For an id the action does after another turn what it does alone. -/
theorem alone_after (hstep : Separate c Q step) (hk : k.Solvent c) (hne : id ≠ j) (hj : Q j k)
    (h : k.run (branch (step id)) = (.ok a, k₁))
    (halone : k.run (branch (step j)) = (.ok a', alone step k j)) :
    k₁.run (branch (step j)) = (.ok a', alone step k₁ j) ∧
      Agree j (alone step k j) (alone step k₁ j) ∧
      Parallel k (alone step k j) k₁ (alone step k₁ j) := by
  obtain ⟨a₁, halone₁⟩ :=
    hstep.exists_alone (hstep.solvent_of_ok hk h) (hstep.others_of_ok hne hj h)
  obtain ⟨rfl, -, hagree, hparallel⟩ :=
    (hstep.reads j).branch _ _ _ _ _ _ (hstep.agree hk hne h) halone halone₁
  exact ⟨halone₁, hagree, hparallel⟩

theorem events_alone (hstep : Separate c Q step) (hk : k.Solvent c)
    (h : k.run (branch (step id)) = (.ok a, k')) : k'.events = k.events ++ toldAlone step k id := by
  obtain ⟨-, -, -, hparallel⟩ := (hstep.reads id).branch _ _ _ _ _ _ (hk.agree id) h h
  obtain ⟨new, hnew, -⟩ := hparallel.told
  have halone : alone step k id = k' := congrArg Prod.snd h
  rw [toldAlone, halone, hnew, List.drop_left]

end Separate

/-! ## All of them -/

/-- A keeper where the action has done for each of these ids what it would have done alone. -/
structure DoneEach (step : ResourceId → Action Bank α) (k : Keeper Bank) (ids : List ResourceId)
    (k' : Keeper Bank) : Prop where
  about : ∀ id ∈ ids, ∀ key, Key.About id key →
    k'.registry.records.get? key = (alone step k id).registry.records.get? key
  others : Registry.SameOutside (fun key => ∃ id ∈ ids, Key.About id key) k.registry k'.registry
  gains : ∀ h, gain k k' h = (ids.map fun id => gain k (alone step k id) h).sum
  told : k'.events = k.events ++ ids.flatMap (toldAlone step k)

theorem doneEach_nil (step : ResourceId → Action Bank α) (k : Keeper Bank) :
    DoneEach step k [] k where
  about _ hid := absurd hid List.not_mem_nil
  others := .refl _ _
  gains _ := sub_self _
  told := (List.append_nil _).symm

theorem DoneEach.cons (hstep : Separate c Q step) (hk : k.Solvent c) (hid : id ∉ ids)
    (first : k.run (branch (step id)) = (.ok a, k₁))
    (same : ∀ j ∈ ids, Agree j (alone step k j) (alone step k₁ j) ∧
      Parallel k (alone step k j) k₁ (alone step k₁ j))
    (rest : DoneEach step k₁ ids k') : DoneEach step k (id :: ids) k' := by
  have halone : alone step k id = k₁ := congrArg Prod.snd first
  have hwrites := sameOutside_branch (hstep.within id) hk.sound.1 first
  constructor
  · intro j hj key hkey
    rcases List.mem_cons.1 hj with rfl | hj
    · -- The turns that follow write nothing about this id.
      rw [halone]
      refine rest.others key ?_
      rintro ⟨i, hi, habout⟩
      exact hid (hkey.id_eq habout ▸ hi)
    · rw [rest.about j hj key hkey]
      exact ((same j hj).1.records key (.inl hkey)).symm
  · exact (hwrites.mono fun habout => ⟨id, List.mem_cons_self, habout⟩).trans
      (rest.others.mono fun ⟨j, hj, habout⟩ => ⟨j, List.mem_cons_of_mem _ hj, habout⟩)
  · intro holding
    have hrest : (ids.map fun j => gain k (alone step k j) holding) =
        ids.map fun j => gain k₁ (alone step k₁ j) holding :=
      List.map_congr_left fun j hj => (same j hj).2.gains holding
    rw [gain_trans k k₁, rest.gains, List.map_cons, List.sum_cons, halone, hrest]
  · have hrest : ids.flatMap (toldAlone step k) = ids.flatMap (toldAlone step k₁) := by
      refine List.flatMap_congr fun j hj => ?_
      obtain ⟨new, hnew, hnew'⟩ := (same j hj).2.told
      rw [toldAlone, toldAlone, hnew, hnew', List.drop_left, List.drop_left]
    rw [rest.told, hstep.events_alone hk first, List.flatMap_cons, hrest, List.append_assoc]

/-- A solvent keeper can run the action for different ids in their turn. -/
theorem Separate.exists_doneEach (hstep : Separate c Q step) (hk : k.Solvent c)
    (hnodup : ids.Nodup) (hids : ∀ id ∈ ids, Q id k)
    (halone : ∀ id ∈ ids, k.run (branch (step id)) = (.ok (result id), alone step k id)) :
    ∃ k', k.run (inTurn step ids) = (.ok (ids.map result), k') ∧ k'.Solvent c ∧
      DoneEach step k ids k' := by
  induction ids generalizing k with
  | nil => exact ⟨k, rfl, hk, doneEach_nil step k⟩
  | cons id ids ih =>
    rw [List.nodup_cons] at hnodup
    rw [List.forall_mem_cons] at hids halone
    obtain ⟨hfirst, halone⟩ := halone
    have hne : ∀ j ∈ ids, id ≠ j := fun j hj h => hnodup.1 (h ▸ hj)
    have hsame : ∀ j ∈ ids, _ := fun j hj =>
      hstep.alone_after hk (hne j hj) (hids.2 j hj) hfirst (halone j hj)
    obtain ⟨k', hrun, hk', hrest⟩ := ih (hstep.solvent_of_ok hk hfirst) hnodup.2
      (fun j hj => hstep.others_of_ok (hne j hj) (hids.2 j hj) hfirst) fun j hj => (hsame j hj).1
    exact ⟨k', run_inTurn_cons_eq_ok.2 ⟨_, _, _, hfirst, hrun, rfl⟩, hk',
      .cons hstep hk hnodup.1 hfirst (fun j hj => (hsame j hj).2) hrest⟩

/-- The action has one result for each of these ids, in whatever order it runs for them. -/
theorem Separate.exists_results [Nonempty α] (hstep : Separate c Q step) (hk : k.Solvent c)
    (hnodup : ids.Nodup) (hids : ∀ id ∈ ids, Q id k) :
    ∃ result : ResourceId → α,
      (∀ id ∈ ids, k.run (branch (step id)) = (.ok (result id), alone step k id)) ∧
      ∀ ids' : List ResourceId, ids'.Perm ids →
        ∃ k', k.run (inTurn step ids') = (.ok (ids'.map result), k') ∧ k'.Solvent c ∧
          DoneEach step k ids' k' := by
  have halone : ∀ id, ∃ a, id ∈ ids → k.run (branch (step id)) = (.ok a, alone step k id) := by
    intro id
    by_cases hid : id ∈ ids
    · obtain ⟨a, hrun⟩ := hstep.exists_alone hk (hids id hid)
      exact ⟨a, fun _ => hrun⟩
    · exact ⟨Classical.arbitrary α, fun h => absurd h hid⟩
  choose result halone using halone
  refine ⟨result, halone, fun ids' hperm => ?_⟩
  exact hstep.exists_doneEach hk (hperm.nodup_iff.2 hnodup)
    (fun id hid => hids id (hperm.subset hid)) fun id hid => halone id (hperm.subset hid)

theorem sweep_of_inTurn {results : List α} (h : k.run (inTurn step ids) = (.ok results, k')) :
    Sweep step ids k k' := by
  induction ids generalizing k results with
  | nil =>
    obtain ⟨-, rfl⟩ := run_pure_eq_ok.1 h
    exact .nil k
  | cons id ids ih =>
    obtain ⟨a, rest, k₁, hfirst, hrest, -⟩ := run_inTurn_cons_eq_ok.1 h
    exact .cons hfirst (ih hrest)

/-! ## In any order -/

theorem DoneEach.records_eq (h : DoneEach step k ids k') (h' : DoneEach step k ids' k'')
    (hperm : ids.Perm ids') : k'.registry.records = k''.registry.records := by
  apply OrderedMap.ext_get?
  intro key
  by_cases hkey : ∃ id ∈ ids, Key.About id key
  · obtain ⟨id, hid, habout⟩ := hkey
    rw [h.about id hid key habout, h'.about id (hperm.subset hid) key habout]
  · rw [h.others key hkey, h'.others key]
    rintro ⟨id, hid, habout⟩
    exact hkey ⟨id, hperm.symm.subset hid, habout⟩

theorem DoneEach.amount_eq (h : DoneEach step k ids k') (h' : DoneEach step k ids' k'')
    (hperm : ids.Perm ids') (holding : Holding) :
    (k'.ledger.amount holding).value = (k''.ledger.amount holding).value := by
  have hsum := (hperm.map fun id => gain k (alone step k id) holding).sum_eq
  rw [← h.gains, ← h'.gains] at hsum
  exact sub_left_injective hsum

/-- The engine counts the results of the same run. -/
theorem run_foldlM_of_inTurn {one : Report → ResourceId → Action Bank Report}
    (count : Report → α → Report)
    (hone : ∀ {report id} {k k' : Keeper Bank} {a}, k.run (branch (step id)) = (.ok a, k') →
      k.run (one report id) = (.ok (count report a), k'))
    {results : List α} (h : k.run (inTurn step ids) = (.ok results, k')) (report : Report) :
    k.run (ids.foldlM one report) = (.ok (results.foldl count report), k') := by
  induction ids generalizing k results report with
  | nil =>
    obtain ⟨rfl, rfl⟩ := run_pure_eq_ok.1 h
    rfl
  | cons id ids ih =>
    obtain ⟨a, rest, k₁, hfirst, hrest, rfl⟩ := run_inTurn_cons_eq_ok.1 h
    rw [List.foldlM_cons, run_bind, hone hfirst]
    exact ih hrest _

end Keeper

end LeaseEscrow
