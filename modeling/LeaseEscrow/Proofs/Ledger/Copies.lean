import LeaseEscrow.Proofs.Ledger.Operations
import LeaseEscrow.Proofs.Store.Copies

/-!
# A bank that keeps full copies

What mints, burns and transfers do to a book, said of the book alone: a debit, a credit and a total,
one after the other. A bank with its journal does the same, also where an operation fails, and goes
back to the same books. Main statement (`undo_journals_keep_snapshots`): after any operations, open
checkpoints or none, neither the store nor the bank can be told from a stack of full copies.
-/

namespace LeaseEscrow

/-- The result of a change, kept when there is one. -/
def Copies.attempt {σ : Type} (c : Copies σ) : Except Fault σ → Except Fault Unit × Copies σ
  | .ok value => (.ok (), c.put value)
  | .error e => (.error e, c)

/-! ## Operations of a book -/

namespace Book

def amount (book : Book) (h : Holding) : Decimal := (book.balances.get? h).getD .zero

/-- The book with a balance set; one of zero has no entry. -/
def put (book : Book) (h : Holding) (amount : Decimal) : Book :=
  { book with
    balances := if amount.isZero then book.balances.erase h else book.balances.insert h amount }

def credit (book : Book) (h : Holding) (coin : Coin) : Except Fault Book := do
  return book.put h (← Fault.inRange ((book.amount h).add? coin.amount))

def debit (book : Book) (h : Holding) (coin : Coin) : Except Fault Book := do
  let available := book.amount h
  require (coin.amount ≤ available) (.insufficientFunds coin.amount available)
  return book.put h (← Fault.inRange (available.sub? coin.amount))

def mint (book : Book) (account : Account) (coin : Coin) : Except Fault Book := do
  coin.validate
  require ((book.supply.mintedOf coin.denom).add? coin.amount).isSome
    (.invalidAmount s!"minting {coin} overflows the {coin.denom} supply")
  let credited ← book.credit ⟨account, coin.denom⟩ coin
  return { credited with supply := ← book.supply.recordMint coin.denom coin.amount }

def burn (book : Book) (account : Account) (coin : Coin) : Except Fault Book := do
  coin.validate
  let debited ← book.debit ⟨account, coin.denom⟩ coin
  return { debited with supply := ← book.supply.recordBurn coin.denom coin.amount }

def transfer (book : Book) (source target : Account) (coin : Coin) : Except Fault Book := do
  coin.validate
  if coin.isZero then return book
  let debited ← book.debit ⟨source, coin.denom⟩ coin
  if source = target then return book
  debited.credit ⟨target, coin.denom⟩ coin

theorem amount_put (book : Book) (h k : Holding) (x : Decimal) (hne : k ≠ h) :
    (book.put h x).amount k = book.amount k := by
  unfold put amount
  split
  · rw [OrderedMap.get?_erase, if_neg hne]
  · rw [OrderedMap.get?_insert, if_neg hne]

end Book

/-! ## The bank does the same to its book -/

namespace Bank

variable {b : Bank} {account source target : Account} {coin : Coin}

theorem current_write_put (b : Bank) (h : Holding) (x : Decimal) :
    (b.write h x).current = b.current.put h x := by
  rw [current_write, Book.put]
  cases x.isZero <;> rfl

theorem map_bind_eq {α β γ : Type} (x : Except Fault α) (f : α → Except Fault β) (g : β → γ) :
    (x >>= f).map g = x >>= fun a => (f a).map g := by
  cases x <;> rfl

theorem debit_current (b : Bank) (h : Holding) (coin : Coin) :
    b.current.debit h coin = (b.afterDebit h coin).map (b.current.put h) := by
  rw [afterDebit, map_bind_eq]
  refine bind_congr fun _ => ?_
  show _ = Except.map _ (Fault.inRange ((b.current.amount h).sub? coin.amount))
  cases Fault.inRange ((b.current.amount h).sub? coin.amount) <;> rfl

theorem mint_current (b : Bank) (account : Account) (coin : Coin) :
    (b.mint account coin).map Journaled.current = b.current.mint account coin := by
  rw [mint, map_bind_eq]
  refine bind_congr fun _ => ?_
  rw [map_bind_eq]
  refine bind_congr fun _ => ?_
  rw [map_bind_eq, Book.credit, bind_assoc]
  refine bind_congr fun balance => ?_
  rw [map_bind_eq, pure_bind]
  refine bind_congr fun supply => congrArg Except.ok ?_
  rw [current_write_put, current_setSupply]
  rfl

theorem burn_current (b : Bank) (account : Account) (coin : Coin) :
    (b.burn account coin).map Journaled.current = b.current.burn account coin := by
  rw [burn, map_bind_eq]
  refine bind_congr fun _ => ?_
  rw [map_bind_eq, debit_current]
  cases b.afterDebit ⟨account, coin.denom⟩ coin with
  | error e => rfl
  | ok left =>
    show Except.map _ (_ >>= _) = _ >>= _
    rw [map_bind_eq]
    refine bind_congr fun supply => congrArg Except.ok ?_
    rw [current_write_put, current_setSupply]
    rfl

/-- The two accounts differ where both are written, so that the order of reading and writing does
not matter. -/
theorem transfer_current (b : Bank) (source target : Account) (coin : Coin) :
    (b.transfer source target coin).map Journaled.current =
      b.current.transfer source target coin := by
  rw [transfer, map_bind_eq]
  refine bind_congr fun _ => ?_
  split
  · rfl
  · rw [map_bind_eq, debit_current]
    cases b.afterDebit ⟨source, coin.denom⟩ coin with
    | error e => rfl
    | ok left =>
      show Except.map _ (if _ then _ else _) = if _ then _ else _
      split
      · rfl
      · next hne =>
        have hholding : (⟨target, coin.denom⟩ : Holding) ≠ ⟨source, coin.denom⟩ := fun h =>
          hne (congrArg Holding.account h).symm
        rw [map_bind_eq, Book.credit, Book.amount_put _ _ _ _ hholding]
        refine bind_congr fun credited => congrArg Except.ok ?_
        rw [current_write_put, current_write_put]

/-! ## Operations of the bank -/

/-- What an operation answers, and what it is to do to a book whose checkpoints keep full copies. -/
def Operation.onCopies (c : Copies Book) : Operation → Except Fault Unit × Copies Book
  | mint account coin => c.attempt (c.current.mint account coin)
  | burn account coin => c.attempt (c.current.burn account coin)
  | transfer source target coin => c.attempt (c.current.transfer source target coin)
  | checkpoint => (.ok (), c.checkpoint)
  | commit => (.ok (), c.commit)
  | revert => (.ok (), c.revert)

theorem copies_orUnchanged {f : Bank → Except Fault Bank} {x : Except Fault Book} (b : Bank)
    (hf : Writes f) (hx : (f b).map Journaled.current = x) :
    (b.orUnchanged (f b)).map id Journaled.copies = b.copies.attempt x := by
  subst hx
  cases hb : f b with
  | error e => rfl
  | ok b' => exact congrArg (Except.ok (), ·) (Journaled.copies_written rfl (hf.snapshots b b' hb))

theorem Operation.copies_perform (b : Bank) (op : Operation) :
    (b.run op.perform).map id Journaled.copies = op.onCopies b.copies := by
  rw [run_perform]
  cases op with
  | mint account coin => exact copies_orUnchanged b (writes_mint account coin) (mint_current ..)
  | burn account coin => exact copies_orUnchanged b (writes_burn account coin) (burn_current ..)
  | transfer source target coin =>
    exact copies_orUnchanged b (writes_transfer source target coin) (transfer_current ..)
  | checkpoint => exact congrArg (Except.ok (), ·) (Journaled.copies_checkpoint b)
  | commit => exact congrArg (Except.ok (), ·) (Journaled.copies_commit b)
  | revert => exact congrArg (Except.ok (), ·) (Journaled.copies_revert b)

theorem copies_foldl_perform (b : Bank) (ops : List Operation) :
    (ops.foldl (fun b op => (b.run op.perform).2) b).copies =
      ops.foldl (fun c op => (op.onCopies c).2) b.copies :=
  (List.foldl_hom Journaled.copies fun b op =>
    (congrArg Prod.snd (Operation.copies_perform b op)).symm).symm

end Bank

/-- From any content on, after any operations: the store has the entries and the depth of a map that
keeps a full copy for each open checkpoint; and the bank has the balances, the totals minted and
burned and the depth of a book that does so, and answers every further operation as that book does. -/
theorem undo_journals_keep_snapshots :
    (∀ {α : Type} (content : OrderedMap Bytes α) (ops : List (Store.Operation α)),
      let s : Store α := ops.foldl Store.Operation.apply (.ofValue content)
      let c := ops.foldl Store.Operation.onCopies (.ofValue content)
      s.entries = c.current.entries ∧ s.depth = c.depth) ∧
    ∀ (content : Book) (ops : List Bank.Operation),
      let b : Bank := ops.foldl (fun b op => (b.run op.perform).2) (.ofValue content)
      let c := ops.foldl (fun c op => (op.onCopies c).2) (.ofValue content)
      b.current.balances = c.current.balances ∧ b.current.supply.minted = c.current.supply.minted ∧
      b.current.supply.burned = c.current.supply.burned ∧ b.depth = c.depth ∧
      ∀ op : Bank.Operation, (b.run op.perform).1 = (op.onCopies c).1 := by
  refine ⟨fun content ops => ?_, fun content ops => ?_⟩
  · intro s c
    have hcopies : s.copies = c := Store.copies_foldl_apply _ ops
    rw [← hcopies, Journaled.depth_copies]
    exact ⟨rfl, rfl⟩
  · intro b c
    have hcopies : b.copies = c := Bank.copies_foldl_perform _ ops
    rw [← hcopies, Journaled.depth_copies]
    exact ⟨rfl, rfl, rfl, rfl, fun op => congrArg Prod.fst (Bank.Operation.copies_perform b op)⟩

end LeaseEscrow
