import LeaseEscrow.Decimal.Text
import LeaseEscrow.Ident.ResourceId
import LeaseEscrow.Status

/-!
# Refusals

Why an operation was refused. Each cause has one constructor and one message; messages
carry a code whose first digit tells the group: 1 lookup, 2 authority, 3 life cycle,
4 amounts, 5 hours, 6 validation, 7 safety, 9 internal.

A computation may also leave the range of its numbers or of the calendar. That is no
refusal, and nothing recovers from it: `Fault` holds both, and only refusals are caught.
-/

namespace LeaseEscrow

inductive Refusal where
  | resourceNotFound (id : ResourceId)
  | leaseNotFound (id : ResourceId)
  | unauthorized (reason : String)
  | invalidStatus (id : ResourceId) (expected actual : Status)
  | alreadyLeased (id : ResourceId)
  | alreadyExists (id : ResourceId)
  | blockAlreadySettled (height : UInt64)
  | invalidAmount (reason : String)
  | insufficientDeposit (needed provided : Decimal)
  | insufficientFunds (needed available : Decimal)
  | invalidLeaseHours (hours min max : UInt64)
  | invalidParams (reason : String)
  | invalidGenesis (reason : String)
  | invalidAddress (reason : String)
  | invalidResource (reason : String)
  | invariantViolation (reason : String)
  | supplyViolation (reason : String)
  | internal (reason : String)
  | serialization (reason : String)
deriving DecidableEq

namespace Refusal

def message : Refusal → String
  | resourceNotFound id => s!"MN_ERR_100: Resource not found: {id}"
  | leaseNotFound id => s!"MN_ERR_101: Lease not found for resource: {id}"
  | unauthorized reason => s!"MN_ERR_200: Unauthorized: {reason}"
  | invalidStatus id expected actual =>
    s!"MN_ERR_300: Invalid status for {id}: expected {expected}, got {actual}"
  | alreadyLeased id => s!"MN_ERR_301: Resource already leased: {id}"
  | alreadyExists id => s!"MN_ERR_302: Resource already exists: {id}"
  | blockAlreadySettled height => s!"MN_ERR_303: Block already settled: height {height}"
  | invalidAmount reason => s!"MN_ERR_400: Invalid amount: {reason}"
  | insufficientDeposit needed provided =>
    s!"MN_ERR_401: Insufficient deposit: need {needed}, got {provided}"
  | insufficientFunds needed available =>
    s!"MN_ERR_402: Insufficient funds: need {needed}, have {available}"
  | invalidLeaseHours hours min max =>
    s!"MN_ERR_500: Invalid lease hours {hours}: must be within [{min}, {max}]"
  | invalidParams reason => s!"MN_ERR_600: Invalid params: {reason}"
  | invalidGenesis reason => s!"MN_ERR_601: Invalid genesis: {reason}"
  | invalidAddress reason => s!"MN_ERR_602: Invalid address: {reason}"
  | invalidResource reason => s!"MN_ERR_603: Invalid resource: {reason}"
  | invariantViolation reason => s!"MN_ERR_700: Invariant violation: {reason}"
  | supplyViolation reason => s!"MN_ERR_701: Supply invariant violation: {reason}"
  | internal reason => s!"MN_ERR_900: Internal error: {reason}"
  | serialization reason => s!"MN_ERR_901: Serialization error: {reason}"

instance : ToString Refusal := ⟨message⟩

/-- A check whose cause of refusal is told in other words. -/
def rephrase {α : Type} (f : Refusal → Refusal) : Except Refusal α → Except Refusal α
  | .ok a => .ok a
  | .error e => .error (f e)

end Refusal

/-- Passes when a condition holds and refuses otherwise. -/
def require (p : Prop) [Decidable p] (cause : Refusal) : Except Refusal Unit :=
  if p then .ok () else .error cause

theorem require_eq_ok {p : Prop} [Decidable p] {cause : Refusal} :
    require p cause = .ok () ↔ p := by
  unfold require; split <;> simp_all

/-- Passes when a check passes on every member, and refuses as the first that does not. -/
def requireAll {α : Type} (check : α → Except Refusal Unit) : List α → Except Refusal Unit
  | [] => .ok ()
  | a :: rest => do
    check a
    requireAll check rest

theorem requireAll_eq_ok {α : Type} {check : α → Except Refusal Unit} {l : List α} :
    requireAll check l = .ok () ↔ ∀ a ∈ l, check a = .ok () := by
  induction l with
  | nil => simp [requireAll]
  | cons a l ih =>
    unfold requireAll
    cases h : check a with
    | ok _ => simpa [bind, Except.bind, h] using ih
    | error e => simp [bind, Except.bind, h]

inductive Fault where
  | refused (cause : Refusal)
  /-- An unchecked operation left the range of decimals or of the calendar. -/
  | outOfRange
deriving DecidableEq

namespace Fault

instance : MonadLift (Except Refusal) (Except Fault) where
  monadLift
    | .ok a => .ok a
    | .error e => .error (.refused e)

/-- The result of an unchecked operation. -/
def inRange {α : Type} : Option α → Except Fault α
  | some a => .ok a
  | none => .error .outOfRange

/-- The outcome of a computation that stayed in range. -/
def caught {α : Type} : Except Fault α → Except Fault (Except Refusal α)
  | .ok a => .ok (.ok a)
  | .error (.refused e) => .ok (.error e)
  | .error .outOfRange => .error .outOfRange

/-- A computation whose cause of refusal is told in other words. -/
def rephrase {α : Type} (f : Refusal → Refusal) : Except Fault α → Except Fault α
  | .ok a => .ok a
  | .error (.refused e) => .error (.refused (f e))
  | .error .outOfRange => .error .outOfRange

end Fault

end LeaseEscrow
