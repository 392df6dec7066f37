import LeaseEscrow.Proofs.Store.Undo

/-!
# Stacks of copies

The plain way to go back is to keep a full copy of the value at every checkpoint. A journaled
value is read as such a stack by its snapshots (`Journaled.copies`), and each operation of the
store does to that reading what it does to a stack of copies (`Store.Operation.copies_apply`).
-/

namespace LeaseEscrow

/-- A value and the copies that its open checkpoints keep, the innermost first. -/
structure Copies (σ : Type) where
  current : σ
  kept : List σ

namespace Copies

variable {σ : Type}

def ofValue (value : σ) : Copies σ := ⟨value, []⟩

def depth (c : Copies σ) : Nat := c.kept.length

def put (c : Copies σ) (value : σ) : Copies σ := { c with current := value }

def checkpoint (c : Copies σ) : Copies σ := ⟨c.current, c.current :: c.kept⟩

/-- Drops the innermost copy. -/
def commit (c : Copies σ) : Copies σ := ⟨c.current, c.kept.tail⟩

/-- Goes back to the innermost copy and drops it. -/
def revert (c : Copies σ) : Copies σ :=
  match c.kept with
  | [] => c
  | copy :: outer => ⟨copy, outer⟩

end Copies

/-! ## Journals as stacks of copies -/

namespace Journaled

variable {σ ε : Type} [Undoable σ ε] {j j' : Journaled σ ε}

/-- The stack of copies that a journal stands for. -/
def copies (j : Journaled σ ε) : Copies σ := ⟨j.current, j.snapshots⟩

theorem depth_copies (j : Journaled σ ε) : j.copies.depth = j.depth := length_snapshots j

theorem copies_written {value : σ} (hcurrent : j'.current = value)
    (hsnapshots : j'.snapshots = j.snapshots) : j'.copies = j.copies.put value := by
  rw [copies, hcurrent, hsnapshots]
  rfl

theorem copies_checkpoint (j : Journaled σ ε) : j.checkpoint.copies = j.copies.checkpoint := rfl

theorem copies_commit (j : Journaled σ ε) : j.commit.copies = j.copies.commit := by
  rw [copies, current_commit, snapshots_commit]
  rfl

theorem copies_revert (j : Journaled σ ε) : j.revert.copies = j.copies.revert := by
  rw [copies, current_revert, snapshots_revert, Copies.revert]
  show _ = match j.snapshots with
    | [] => j.copies
    | copy :: outer => ⟨copy, outer⟩
  cases h : j.snapshots with
  | nil => rw [copies, h]; rfl
  | cons copy outer => rfl

end Journaled

/-! ## Operations of the store -/

namespace Store

variable {α : Type}

inductive Operation (α : Type) where
  | set (key : Bytes) (value : α)
  | delete (key : Bytes)
  | checkpoint
  | commit
  | revert

/-- The store that an operation makes of another. -/
def Operation.apply (s : Store α) : Operation α → Store α
  | set key value => s.set key value
  | delete key => (s.delete key).2
  | checkpoint => Journaled.checkpoint s
  | commit => Journaled.commit s
  | revert => Journaled.revert s

/-- What the operation is to do to a map whose checkpoints keep full copies. -/
def Operation.onCopies (c : Copies (OrderedMap Bytes α)) :
    Operation α → Copies (OrderedMap Bytes α)
  | set key value => c.put (c.current.insert key value)
  | delete key => c.put (c.current.erase key)
  | checkpoint => c.checkpoint
  | commit => c.commit
  | revert => c.revert

theorem Operation.copies_apply (s : Store α) (op : Operation α) :
    (op.apply s).copies = op.onCopies s.copies := by
  cases op with
  | set key value => exact Journaled.copies_written (current_set ..) (snapshots_set ..)
  | delete key => exact Journaled.copies_written (current_delete ..) (snapshots_delete ..)
  | checkpoint => exact Journaled.copies_checkpoint s
  | commit => exact Journaled.copies_commit s
  | revert => exact Journaled.copies_revert s

theorem copies_foldl_apply (s : Store α) (ops : List (Operation α)) :
    (ops.foldl Operation.apply s).copies = ops.foldl Operation.onCopies s.copies :=
  (List.foldl_hom Journaled.copies fun s op => (Operation.copies_apply s op).symm).symm

end Store

end LeaseEscrow
