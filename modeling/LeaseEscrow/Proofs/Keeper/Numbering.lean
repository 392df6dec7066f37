import LeaseEscrow.Proofs.Keeper.Frame
import LeaseEscrow.Proofs.Keeper.History
import LeaseEscrow.Proofs.Registry.Numbering

/-!
# Ids are never given out again

A registration that names no id gets the first free number from the counter on and leaves the
counter after it; nothing else moves the counter, and what fails leaves it alone. As an id is given
out only while it is free, and a resource is stored for good, no id is given out twice in a run, be
it chosen or numbered. Main statement (`ids_are_given_once`).
-/

namespace LeaseEscrow

namespace Market

variable {m : Market} {chosen : Option ResourceId} {id : ResourceId} {nextId : UInt64}

theorem Draws.nextId_le (h : m.Draws chosen id nextId) : m.nextId ≤ nextId := by
  rcases h.drawn with ⟨-, rfl⟩ | ⟨-, n, hle, hne, -, rfl⟩
  · exact UInt64.le_refl _
  · rw [UInt64.le_iff_toNat_le] at hle ⊢
    rw [toNat_succ hne]
    exact Nat.le_succ_of_le hle

end Market

/-- Whatever is written under other keys, the counter stays where it is. -/
theorem Registry.SameOutside.nextId_eq {touched : Bytes → Prop} {r r' : Registry}
    (h : SameOutside touched r r') (hcounter : ¬ touched Key.counter) : r'.nextId = r.nextId := by
  rw [nextId, nextId, get?_eq, get?_eq, h Key.counter hcounter]

namespace Keeper

variable {L α : Type} [Ledger L] {k k' : Keeper L} {b : Block} {id : ResourceId}

/-! ## The counter -/

theorem nextId_le_perform {m : Request α} {reply : α} (hl : k.registry.Laid)
    (h : k.run (m.perform b) = (.ok reply, k')) : k.registry.nextId ≤ k'.registry.nextId := by
  have hother (hown : m.ownKey ≠ some Key.counter) : k.registry.nextId ≤ k'.registry.nextId := by
    rw [(writes_perform hl h).nextId_eq]
    · exact UInt64.le_refl _
    · rintro (⟨id, -, habout⟩ | hkey)
      · exact Key.not_about_counter id habout
      · exact hown hkey
  cases m with
  | register m =>
    obtain ⟨_, nextId, _, -, -, -, hdraws, -, -, hturned⟩ := performRegistration_done hl h
    have hcounter : k'.registry.nextId = nextId := congrArg Market.nextId hturned.market_eq
    rw [hcounter]
    exact hdraws.nextId_le
  | setParams m => exact hother fun hkey => Key.counter_ne_params (Option.some.inj hkey).symm
  | _ => exact hother nofun

/-- A block does not touch the counter. -/
theorem nextId_beginBlock (hl : k.registry.Laid) (e : Engine) (b : Block) :
    (k.run (e.beginBlock b)).2.registry.nextId = k.registry.nextId := by
  have hP : OfRecords fun k' : Keeper L =>
      k'.registry.Laid ∧ k'.registry.nextId = k.registry.nextId := by
    rintro k₁ k₂ h ⟨hlaid, hnext⟩
    exact ⟨(Registry.laid_congr h).2 hlaid, (Registry.nextId_congr h).trans hnext⟩
  have hkeeps : ∀ {β : Type} {a : Action L β} (id : ResourceId), Within (Key.About id) Any a →
      KeepsOk (fun k' => k'.registry.Laid ∧ k'.registry.nextId = k.registry.nextId) a := by
    rintro β a id ha k₁ x k₂ ⟨hlaid, hnext⟩ hrun
    obtain ⟨hlaid', hsame, -⟩ := ha k₁ hlaid
    rw [hrun] at hlaid' hsame
    exact ⟨hlaid', (hsame.nextId_eq (Key.not_about_counter id)).trans hnext⟩
  exact (hP.recoverable.beginBlock e b (fun id => hkeeps id (within_settleLease b id))
    (fun id => hkeeps id (within_releaseDeposits b id)) k ⟨hl, rfl⟩).2

/-- What fails leaves the counter where it was. -/
theorem nextId_of_handle_error {m : Request α} {e : Fault}
    (h : (k.run (m.handle b)).1 = .error e) :
    (k.run (m.handle b)).2.registry.nextId = k.registry.nextId :=
  Registry.nextId_congr (registry_of_handle_error h)

theorem nextId_le_move (hk : k.Sound) (s : Move L) :
    k.registry.nextId ≤ (k.move s).registry.nextId := by
  cases s with
  | request b m =>
    cases hresult : (k.run (m.handle b)).1 with
    | error e =>
      rw [move, nextId_of_handle_error hresult]
      exact UInt64.le_refl _
    | ok reply =>
      obtain ⟨-, k₁, hperform, hmarket⟩ := exists_performed hresult
      have hcounter : (k.move (.request b m)).registry.nextId = k₁.registry.nextId :=
        congrArg Market.nextId hmarket
      rw [hcounter]
      exact nextId_le_perform (k := k.enter) hk.1 hperform
  | beginBlock e b =>
    rw [move, nextId_beginBlock hk.1]
    exact UInt64.le_refl _
  | setLedger ledger => exact UInt64.le_refl _

theorem nextId_le_moves (hk : k.Sound) (future : List (Move L)) :
    k.registry.nextId ≤ (k.moves future).registry.nextId := by
  induction future generalizing k with
  | nil => exact UInt64.le_refl _
  | cons s future ih => exact UInt64.le_trans (nextId_le_move hk s) (ih (sound_move hk s))

/-! ## Numbered registrations -/

/-- A registration without an id gets the first free number, and the counter is left after it. -/
theorem numbered_performRegistration {m : Message.RegisterResource} {reply : Reply.Registered}
    (hl : k.registry.Laid) (hid : m.id = none)
    (h : k.run (performRegistration b m) = (.ok reply, k')) :
    ∃ n, k.registry.firstFree? k.registry.nextId = some n ∧ reply.id = .ofCounter n ∧
      k'.registry.nextId = n + 1 := by
  obtain ⟨k₁, hchoose⟩ : ∃ k₁, k.run (chooseId m.id) = (.ok reply.id, k₁) := by
    cases registers_of_run h with
    | steps _ _ _ _ _ hchoose => exact ⟨_, hchoose⟩
  rw [hid] at hchoose
  change k.run allocateId = _ at hchoose
  rw [run_allocateId] at hchoose
  cases hfirst : k.registry.firstFree? k.registry.nextId with
  | none =>
    rw [hfirst] at hchoose
    cases hchoose
  | some n =>
    rw [hfirst] at hchoose
    have hreply : ResourceId.ofCounter n = reply.id := Except.ok.inj (congrArg Prod.fst hchoose)
    refine ⟨n, rfl, hreply.symm, ?_⟩
    obtain ⟨_, nextId, _, -, -, -, hdraws, -, -, hturned⟩ := performRegistration_done hl h
    have hnext : k'.registry.nextId = nextId := congrArg Market.nextId hturned.market_eq
    rw [hnext]
    -- Ids of different numbers are different, so the id tells the number that was drawn.
    rcases hdraws.drawn with ⟨hchosen, -⟩ | ⟨-, j, -, -, hj, rfl⟩
    · rw [hid] at hchosen
      cases hchosen
    · rw [ResourceId.ofCounter_injective (hreply.trans hj)]

theorem numbered_registerResource {m : Message.RegisterResource} {reply : Reply.Registered}
    (hl : k.registry.Laid) (hid : m.id = none)
    (h : (k.run (registerResource b m)).1 = .ok reply) :
    ∃ n, k.registry.firstFree? k.registry.nextId = some n ∧ reply.id = .ofCounter n ∧
      (k.run (registerResource b m)).2.registry.nextId = n + 1 := by
  obtain ⟨-, k₁, hperform, hmarket⟩ := exists_performed (m := .register m) h
  obtain ⟨n, hfirst, hreply, hnext⟩ := numbered_performRegistration (k := k.enter) hl hid hperform
  have hentered : k.enter.registry ≈ k.registry := rfl
  rw [Registry.nextId_congr hentered,
    Registry.firstFree?_congr (Registry.hasResource_congr hentered)] at hfirst
  exact ⟨n, hfirst, hreply, (congrArg Market.nextId hmarket).trans hnext⟩

/-! ## The ids of a run -/

/-- The id that a move gives to a new resource. -/
def assigned (k : Keeper L) : Move L → Option ResourceId
  | .request b (.register m) =>
    match (k.run (registerResource b m)).1 with
    | .ok reply => some reply.id
    | .error _ => none
  | _ => none

/-- The ids that a run gives to new resources, in order. -/
def assignedIds (k : Keeper L) : List (Move L) → List ResourceId
  | [] => []
  | s :: rest => (k.assigned s).toList ++ (k.move s).assignedIds rest

omit [Ledger L] in
theorem hasResource_iff_history (hl : k.registry.Laid) (id : ResourceId) :
    k.registry.hasResource id = true ↔ ∃ h, k.registry.market.history id = some h := by
  rw [Registry.hasResource_eq hl, ← Option.isSome_iff_exists, Market.history, Option.isSome_map]

/-- What is stored stays stored. -/
theorem hasResource_move (hk : k.Sound) (s : Move L) (h : k.registry.hasResource id = true) :
    (k.move s).registry.hasResource id = true := by
  obtain ⟨history, hhistory⟩ := (hasResource_iff_history hk.1 id).1 h
  obtain ⟨history', hhistory', -⟩ := goesOn_move hk s hhistory
  exact (hasResource_iff_history (sound_move hk s).1 id).2 ⟨history', hhistory'⟩

/-- An id is free before it is given out, and stored after. -/
theorem assigned_fresh (hk : k.Sound) {s : Move L} (h : k.assigned s = some id) :
    k.registry.hasResource id = false ∧ (k.move s).registry.hasResource id = true := by
  cases s with
  | beginBlock e b => cases h
  | setLedger ledger => cases h
  | request b m =>
    cases m with
    | register m =>
      cases hresult : (k.run (registerResource b m)).1 with
      | error e =>
        rw [assigned, hresult] at h
        cases h
      | ok reply =>
        rw [assigned, hresult] at h
        obtain rfl := Option.some.inj h
        have hadvances := (follows_move hk (.request b (.register m))).history reply.id
        have hhandled : (k.run ((Request.register m).handle b)).1 = .ok reply := hresult
        rw [Advances, hhandled] at hadvances
        obtain ⟨hbefore, params, hafter⟩ := (if_pos rfl).mp hadvances
        refine ⟨?_, (hasResource_iff_history (sound_move hk _).1 reply.id).2 ⟨_, hafter⟩⟩
        rw [Bool.eq_false_iff, ne_eq, hasResource_iff_history hk.1, hbefore]
        rintro ⟨_, hsome⟩
        cases hsome
    | _ => cases h

/-- The ids of a run are free when it starts, and no two of them are the same. -/
theorem assignedIds_fresh (hk : k.Sound) (run : List (Move L)) :
    (∀ id ∈ k.assignedIds run, k.registry.hasResource id = false) ∧ (k.assignedIds run).Nodup := by
  induction run generalizing k with
  | nil => exact ⟨nofun, List.nodup_nil⟩
  | cons s rest ih =>
    obtain ⟨hfree, hnodup⟩ := ih (sound_move hk s)
    have hfree' : ∀ id ∈ (k.move s).assignedIds rest, k.registry.hasResource id = false := by
      intro id hid
      by_contra hstored
      have hstill := hasResource_move hk s (Bool.not_eq_false _ ▸ hstored)
      rw [hfree id hid] at hstill
      cases hstill
    rw [assignedIds]
    cases hassigned : k.assigned s with
    | none => exact ⟨hfree', hnodup⟩
    | some id =>
      obtain ⟨hbefore, hafter⟩ := assigned_fresh hk hassigned
      constructor
      · intro j hj
        rcases List.mem_cons.1 hj with rfl | hj
        · exact hbefore
        · exact hfree' j hj
      · refine List.nodup_cons.2 ⟨fun hmem => ?_, hnodup⟩
        rw [hfree id hmem] at hafter
        cases hafter

/-! ## Main statement -/

/-- The keeper comes to `n` when a resource has no id of its own. It searches with at most one try
more than there are resources, the allocation ends where the search does, and a registration that
succeeds leaves the counter after `n`. -/
structure Numbers (k : Keeper L) (n : UInt64) : Prop where
  first : k.registry.FirstFree k.registry.nextId n
  search : ∃ tries r r' resources, k.registry.Search tries (some n) r ∧
    k.registry.allocateId = .ok (.ofCounter n, r') ∧ r' ≈ r ∧
    k.registry.resources = .ok resources ∧ tries ≤ resources.length + 1
  registers : ∀ (b : Block) (m : Message.RegisterResource) reply, m.id = none →
    (k.run (registerResource b m)).1 = .ok reply →
    reply.id = .ofCounter n ∧ reply.id.text = s!"mn{n}" ∧
      (k.run (registerResource b m)).2.registry.nextId.toNat = n.toNat + 1

theorem numbers_of_search {tries : Nat} {n : UInt64} {r : Registry} (hl : k.registry.Laid)
    (h : k.registry.Search tries (some n) r) : k.Numbers n where
  first := Registry.firstFree_of_firstFree? h.result_eq.symm
  search := by
    obtain ⟨r', hallocate, hequiv⟩ := h.allocateId_eq
    exact ⟨tries, r, r', _, h, hallocate, hequiv, Registry.resources_eq hl, h.tries_le hl⟩
  registers b m reply hid hreply := by
    obtain ⟨j, hfirst, hj, hnext⟩ := numbered_registerResource hl hid hreply
    obtain rfl : n = j := Option.some.inj (h.result_eq.trans hfirst)
    rw [hj, hnext, toNat_succ h.of_some.1]
    exact ⟨rfl, ResourceId.text_ofCounter n, rfl⟩

/-- There is no number for a resource: the search uses the counter up, and resources have all the
numbers that it had left. -/
structure UsedUp (k : Keeper L) : Prop where
  search : ∃ tries r, k.registry.Search tries none r ∧ r.nextId = largestWord
  resources : ∃ resources, k.registry.resources = .ok resources ∧
    largestWord.toNat ≤ k.registry.nextId.toNat + resources.length

omit [Ledger L] in
theorem usedUp_of_search {tries : Nat} {r : Registry} (hl : k.registry.Laid)
    (h : k.registry.Search tries none r) : k.UsedUp where
  search := ⟨tries, r, h, h.of_none⟩
  resources := by
    have htaken := Registry.taken_of_firstFree? h.result_eq.symm
    exact ⟨_, Registry.resources_eq hl, htaken.le_add_length hl⟩

/-- **No id is given out twice.** After every run, a registration without an id comes to the first
free number, unless the counter is used up on the way; what fails leaves the counter, and no move
takes it back. The ids that a run gives out are well formed, they differ, and none was stored at the
start. -/
theorem ids_are_given_once {k₀ : Keeper L} (hstart : k₀.Begun) (past : List (Move L)) :
    let k := k₀.moves past
    ((∃ n, k.Numbers n) ∨ k.UsedUp) ∧
    (∀ (b : Block) (m : Message.RegisterResource) e, (k.run (registerResource b m)).1 = .error e →
      (k.run (registerResource b m)).2.registry.nextId = k.registry.nextId) ∧
    (∀ future : List (Move L), k.registry.nextId ≤ (k.moves future).registry.nextId) ∧
    (∀ id ∈ k₀.assignedIds past,
      ResourceId.ofText? id.text = some id ∧ k₀.registry.hasResource id = false) ∧
    (k₀.assignedIds past).Nodup := by
  intro k
  have hk : k.Sound := sound_moves hstart.sound past
  obtain ⟨hfree, hnodup⟩ := assignedIds_fresh hstart.sound past
  refine ⟨?_, ?_, nextId_le_moves hk, fun id hid => ⟨id.ofText?_text, hfree id hid⟩, hnodup⟩
  · obtain ⟨tries, r, hsearch⟩ := k.registry.exists_search
    cases hresult : k.registry.firstFree? k.registry.nextId with
    | some n =>
      rw [hresult] at hsearch
      exact .inl ⟨n, numbers_of_search hk.1 hsearch⟩
    | none =>
      rw [hresult] at hsearch
      exact .inr (usedUp_of_search hk.1 hsearch)
  · intro b m e he
    exact nextId_of_handle_error (m := .register m) he

/-- The owner registers a node with a deposit. -/
def registering (chosen : Option ResourceId) (deposit : UInt64) : Move Bank :=
  .request (Sample.block 0)
    (.register { Sample.registration with id := chosen, deposit := Sample.coins deposit })

/-- Two ids are chosen, and one of three registrations without an id is not funded. -/
def registrations : List (Move Bank) :=
  [registering (some ⟨"mn1", by decide⟩) 100, registering (some ⟨"mn02", by decide⟩) 100,
    registering none 100, registering none 5000, registering none 200]

/-- Here `mn1` is passed over as it was chosen before, `mn02` is no number, and what is not funded
takes no number. -/
theorem chosen_id_is_passed_over :
    (Sample.keeper.assignedIds registrations).map ResourceId.text = ["mn1", "mn02", "mn2", "mn3"] ∧
      (Sample.keeper.assignedIds registrations).Nodup ∧
      (Sample.keeper.moves registrations).Numbers 4 := by
  obtain ⟨hnumbers, -, -, -, hnodup⟩ :=
    ids_are_given_once (.created Sample.create_keeper) registrations
  have hnext : (Sample.keeper.moves registrations).registry.nextId = 4 := by decide +kernel
  have hfree : (Sample.keeper.moves registrations).registry.hasResource (.ofCounter 4) = false := by
    decide +kernel
  refine ⟨by decide +kernel, hnodup, ?_⟩
  rcases hnumbers with ⟨n, hn⟩ | ⟨⟨tries, r, hsearch, -⟩, -⟩
  · have hle : 4 ≤ n := hnext ▸ hn.first.le
    rcases UInt64.lt_or_eq_of_le hle with hlt | rfl
    · have hstored := hn.first.taken 4 (UInt64.le_of_eq hnext) hlt
      rw [hfree] at hstored
      cases hstored
    · exact hn
  · have hstored := Registry.taken_of_firstFree? hsearch.result_eq.symm 4
      (UInt64.le_of_eq hnext) (by decide)
    rw [hfree] at hstored
    cases hstored

end Keeper

end LeaseEscrow
