import LeaseEscrow.Store.Journaled
import LeaseEscrow.Store.OrderedMap

/-!
# The store

Values under byte-string keys, in the order of the keys, with nested checkpoints. The
entries below a common beginning are found by one scan from that beginning on.
-/

namespace LeaseEscrow

abbrev Bytes := List UInt8

/-- A key and the value it held before a write. -/
abbrev PriorValue (α : Type) := Bytes × Option α

instance {α : Type} : Undoable (OrderedMap Bytes α) (PriorValue α) where
  undo m prior := m.restore prior.1 prior.2

abbrev Store (α : Type) := Journaled (OrderedMap Bytes α) (PriorValue α)

namespace Store

variable {α : Type}

def empty : Store α := .ofValue .empty

def get? (s : Store α) (key : Bytes) : Option α := s.current.get? key

def contains (s : Store α) (key : Bytes) : Bool := s.current.contains key

def entries (s : Store α) : List (Bytes × α) := s.current.entries

def size (s : Store α) : Nat := s.current.size

def set (s : Store α) (key : Bytes) (value : α) : Store α :=
  s.write (s.current.insert key value) (key, s.get? key)

/-- Whether the key was present, and the store without it. -/
def delete (s : Store α) (key : Bytes) : Bool × Store α :=
  match s.get? key with
  | none => (false, s)
  | some value => (true, s.write (s.current.erase key) (key, some value))

/-- The entries whose keys begin with `start`: from the first key that is not below it, as
long as keys begin with it. -/
def scan (s : Store α) (start : Bytes) : List (Bytes × α) :=
  (s.entries.dropWhile fun e => compare e.1 start == .lt).takeWhile fun e =>
    start.isPrefixOf e.1

end Store

end LeaseEscrow
