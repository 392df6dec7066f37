/-!
# Journaled values

A value under nested checkpoints. A write made under a checkpoint notes how to undo it, so
going back costs as much as the work it undoes. Committing a checkpoint hands its notes to
the enclosing one; commits and reverts without a checkpoint do nothing.

The snapshots of a journaled value are what its open checkpoints would go back to. A
checkpoint adds the present value to them, a write that notes how to undo it leaves them
alone, and a commit or a revert drops the innermost one.
-/

namespace LeaseEscrow

/-- Notes of one kind tell how to undo writes to a value. -/
class Undoable (σ ε : Type) where
  undo : σ → ε → σ

structure Journaled (σ ε : Type) where
  current : σ
  /-- The notes of the open checkpoints, the innermost and the newest note first. -/
  checkpoints : List (List ε)
deriving DecidableEq

namespace Journaled

variable {σ ε : Type}

def ofValue (value : σ) : Journaled σ ε := ⟨value, []⟩

def depth (j : Journaled σ ε) : Nat := j.checkpoints.length

/-- Writes a new value and notes how to undo the write. -/
def write (j : Journaled σ ε) (value : σ) (note : ε) : Journaled σ ε :=
  match j.checkpoints with
  | [] => ⟨value, []⟩
  | notes :: outer => ⟨value, (note :: notes) :: outer⟩

def checkpoint (j : Journaled σ ε) : Journaled σ ε := ⟨j.current, [] :: j.checkpoints⟩

def commit (j : Journaled σ ε) : Journaled σ ε :=
  match j.checkpoints with
  | [] => j
  | [_] => ⟨j.current, []⟩
  | notes :: enclosing :: outer => ⟨j.current, (notes ++ enclosing) :: outer⟩

/-- Undoes every write since the innermost checkpoint, the newest first. -/
def revert [Undoable σ ε] (j : Journaled σ ε) : Journaled σ ε :=
  match j.checkpoints with
  | [] => j
  | notes :: outer => ⟨notes.foldl Undoable.undo j.current, outer⟩

/-! ## Value and depth -/

theorem current_write (j : Journaled σ ε) (value : σ) (note : ε) :
    (j.write value note).current = value := by
  unfold write
  split <;> rfl

theorem current_commit (j : Journaled σ ε) : j.commit.current = j.current := by
  unfold commit
  split <;> rfl

theorem depth_write (j : Journaled σ ε) (value : σ) (note : ε) :
    (j.write value note).depth = j.depth := by
  unfold write depth
  cases j.checkpoints <;> rfl

theorem depth_checkpoint (j : Journaled σ ε) : j.checkpoint.depth = j.depth + 1 := rfl

theorem depth_commit (j : Journaled σ ε) : j.commit.depth = j.depth - 1 := by
  unfold commit depth
  split <;> simp [*]

theorem depth_revert [Undoable σ ε] (j : Journaled σ ε) : j.revert.depth = j.depth - 1 := by
  unfold revert depth
  split <;> simp [*]

theorem commit_checkpoint (j : Journaled σ ε) : j.checkpoint.commit = j := by
  obtain ⟨current, _ | ⟨notes, outer⟩⟩ := j
  · rfl
  · rfl

/-! ## Snapshots -/

variable [Undoable σ ε]

/-- The values that checkpoints with these notes would go back to from a value, the
innermost first. -/
def snapshotsFrom (value : σ) : List (List ε) → List σ
  | [] => []
  | notes :: outer =>
    let earlier := notes.foldl Undoable.undo value
    earlier :: snapshotsFrom earlier outer

def snapshots (j : Journaled σ ε) : List σ := snapshotsFrom j.current j.checkpoints

theorem length_snapshotsFrom (value : σ) (checkpoints : List (List ε)) :
    (snapshotsFrom value checkpoints).length = checkpoints.length := by
  induction checkpoints generalizing value with
  | nil => rfl
  | cons notes outer ih => exact congrArg (· + 1) (ih _)

theorem length_snapshots (j : Journaled σ ε) : j.snapshots.length = j.depth :=
  length_snapshotsFrom _ _

theorem snapshots_checkpoint (j : Journaled σ ε) :
    j.checkpoint.snapshots = j.current :: j.snapshots := rfl

theorem snapshots_write (j : Journaled σ ε) {value : σ} {note : ε}
    (h : Undoable.undo value note = j.current) : (j.write value note).snapshots = j.snapshots := by
  unfold write snapshots
  cases j.checkpoints with
  | nil => rfl
  | cons notes outer => simp only [snapshotsFrom, List.foldl_cons, h]

theorem snapshots_commit (j : Journaled σ ε) : j.commit.snapshots = j.snapshots.tail := by
  unfold commit snapshots
  split
  · next h => simp [h, snapshotsFrom]
  · next h => simp [h, snapshotsFrom]
  · next h => simp [h, snapshotsFrom, List.foldl_append]

theorem snapshots_revert (j : Journaled σ ε) : j.revert.snapshots = j.snapshots.tail := by
  unfold revert snapshots
  split
  · next h => simp [h, snapshotsFrom]
  · next h => simp [h, snapshotsFrom]

theorem current_revert (j : Journaled σ ε) :
    j.revert.current = j.snapshots.head?.getD j.current := by
  unfold revert snapshots
  split
  · next h => simp [h, snapshotsFrom]
  · next h => simp [h, snapshotsFrom]

/-- What holds of the value and of all values that its checkpoints would go back to. -/
def Throughout (P : σ → Prop) (j : Journaled σ ε) : Prop :=
  P j.current ∧ ∀ value ∈ j.snapshots, P value

variable {P : σ → Prop} {j j' : Journaled σ ε}

theorem Throughout.ofValue {value : σ} (h : P value) :
    Throughout P (ofValue value : Journaled σ ε) :=
  ⟨h, fun _ hmem => absurd hmem List.not_mem_nil⟩

theorem Throughout.written (hj : j.Throughout P) (h : P j'.current)
    (hsnapshots : j'.snapshots = j.snapshots) : j'.Throughout P :=
  ⟨h, hsnapshots ▸ hj.2⟩

theorem Throughout.checkpoint (hj : j.Throughout P) : j.checkpoint.Throughout P := by
  refine ⟨hj.1, ?_⟩
  rw [snapshots_checkpoint]
  exact List.forall_mem_cons.2 hj

theorem Throughout.commit (hj : j.Throughout P) : j.commit.Throughout P := by
  rw [Throughout, current_commit, snapshots_commit]
  exact ⟨hj.1, fun value hvalue => hj.2 value (List.mem_of_mem_tail hvalue)⟩

theorem Throughout.revert (hj : j.Throughout P) : j.revert.Throughout P := by
  rw [Throughout, current_revert, snapshots_revert]
  refine ⟨?_, fun value hvalue => hj.2 value (List.mem_of_mem_tail hvalue)⟩
  cases hsnapshots : j.snapshots with
  | nil => exact hj.1
  | cons value rest => exact hj.2 value (hsnapshots ▸ List.mem_cons_self)

end Journaled

end LeaseEscrow
