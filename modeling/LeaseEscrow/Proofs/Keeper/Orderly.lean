import LeaseEscrow.Proofs.Keeper.Origin

/-!
# Orderly keepers

A keeper is *orderly* when it is sound and the balances of its bank come to the supply. Unlike
solvency this asks nothing of what escrow holds, so that every step keeps it, whoever acts and
whatever the host does with the escrow account. All that a host can start from is orderly, and so
is all that it can reach (`Started.orderly_after`).
-/

namespace LeaseEscrow.Keeper

structure Orderly (k : Keeper Bank) : Prop where
  sound : k.Sound
  balanced : k.ledger.current.Balanced

variable {α : Type} {k k' : Keeper Bank} {b : Block} {id : ResourceId}

theorem ofContents_orderly : OfContents Orderly where
  congr h hk := ⟨ofContents_sound.congr h hk.sound, h.book ▸ hk.balanced⟩
  events _ hk := ⟨hk.sound, hk.balanced⟩

theorem Orderly.accounted (hk : k.Orderly) {sender : Account → Prop}
    (h : Accounted sender k k') : k'.Orderly := by
  obtain ⟨f, hflow, -⟩ := h.flow
  exact ⟨h.sound, hflow.balanced hk.balanced⟩

theorem orderly_settleLease (b : Block) (id : ResourceId) : KeepsOk Orderly (settleLease b id) := by
  intro k outcome k' hk h
  have haccounted : Accounted (fun _ => False) k k' := accounted_settleLease hk.sound h
  exact hk.accounted haccounted

theorem orderly_releaseDeposits (b : Block) (id : ResourceId) :
    KeepsOk Orderly (releaseDeposits b id) := by
  intro k refunds k' hk h
  have haccounted : Accounted (fun _ => False) k k' := accounted_releaseDeposits hk.sound h
  exact hk.accounted haccounted

theorem orderly_perform {m : Request α} (hcheck : m.check = .ok ()) :
    KeepsOk Orderly (m.perform b) :=
  fun _ _ _ hk h => hk.accounted (accounted_perform hk.sound hcheck h)

/-- Every step keeps a keeper orderly. -/
theorem orderly_next (s : Step) (hk : k.Orderly) : (k.next s).Orderly := by
  have hP := ofContents_orderly.recoverable
  cases s with
  | request b m => exact hP.handle b orderly_perform k hk
  | beginBlock e b =>
    exact hP.beginBlock e b (orderly_settleLease b) (orderly_releaseDeposits b) k hk
  | settle b id => exact hP.branch (built_settleLease b id) (orderly_settleLease b id) k hk
  | mint account coin =>
    exact Keeps.onLedger (fun _ _ hk h => ⟨hk.sound, Bank.balanced_mint hk.balanced h⟩) k hk
  | burn account coin =>
    exact Keeps.onLedger (fun _ _ hk h => ⟨hk.sound, Bank.balanced_burn hk.balanced h⟩) k hk
  | transfer source target coin =>
    exact Keeps.onLedger (fun _ _ hk h => ⟨hk.sound, Bank.balanced_transfer hk.balanced h⟩) k hk

/-- Whatever the host starts from and runs, the keeper is orderly. -/
theorem Started.orderly_after (h : k.Started) (hbank : k.ledger.Reached) (steps : List Step) :
    (k.after steps).Orderly :=
  invariant_after ⟨h.sound, hbank.balanced⟩ fun s _ _ hk => orderly_next s hk

end LeaseEscrow.Keeper
