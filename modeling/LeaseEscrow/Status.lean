/-!
# The life of a resource

A resource is pending until its deposits reach the minimum, then active, and in the end
closed. It never goes back.
-/

namespace LeaseEscrow

inductive Status where
  | pending
  | active
  | closed
deriving DecidableEq

namespace Status

/-- The steps of a life: a resource becomes active once and closes once. -/
def canBecome : Status → Status → Bool
  | .pending, .active => true
  | .pending, .closed => true
  | .active, .closed => true
  | _, _ => false

def label : Status → String
  | .pending => "PENDING"
  | .active => "ACTIVE"
  | .closed => "CLOSED"

instance : ToString Status := ⟨label⟩

end Status

end LeaseEscrow
