import LeaseEscrow.Refusal
import LeaseEscrow.Time.Instant
import LeaseEscrow.Word

/-!
# Blocks

Every operation happens in a block, which gives it a height and a time. Nothing reads any
other clock.
-/

namespace LeaseEscrow

structure Block where
  height : UInt64
  time : Instant
deriving DecidableEq

namespace Block

/-- The block after this one, a span later. -/
def next (b : Block) (elapsed : Span) : Except Fault Block := do
  if b.height = largestWord then throw .outOfRange
  return ⟨b.height + 1, ← Fault.inRange (b.time.add? elapsed)⟩

end Block

end LeaseEscrow
