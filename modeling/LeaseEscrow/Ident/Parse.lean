import LeaseEscrow.Digest.Sha256
import LeaseEscrow.Ident.Account
import LeaseEscrow.Refusal
import LeaseEscrow.Text.Quoted

/-!
# Reading and deriving identifiers

Malformed identifiers are refused with the offending text in quotes. Module accounts and
user accounts have addresses derived from a hash.
-/

namespace LeaseEscrow

namespace Account

/-- The number of bytes that characters take. -/
def byteSize : List Char → Nat
  | [] => 0
  | c :: cs => c.utf8Size + byteSize cs

/-- The first rule of addresses that characters break. -/
def brokenRule? (cs : List Char) : Option String :=
  match split? cs with
  | none => some "missing separator"
  | some (tag, data) =>
    if !isTag tag then some "prefix must be 1-16 lowercase letters"
    else if byteSize data < 8 ∨ 90 < byteSize data then some "data part must be 8-90 characters"
    else if !data.all isDataChar then some "data part must be lowercase alphanumeric"
    else none

theorem utf8Size_of_isDataChar {c : Char} (h : isDataChar c = true) : c.utf8Size = 1 := by
  have hl : c.isLower = (decide (c.val ≥ 'a'.val) && decide (c.val ≤ 'z'.val)) := rfl
  have hv : c.val ≤ 127 := by
    simp only [isDataChar, hl, Char.isDigit, Bool.or_eq_true, Bool.and_eq_true,
      decide_eq_true_eq] at h
    simp only [UInt32.le_iff_toNat_le, ge_iff_le] at h ⊢
    rcases h with h | h
    · exact Nat.le_trans h.2 (by decide)
    · exact Nat.le_trans h.2 (by decide)
  simp [Char.utf8Size, hv]

theorem byteSize_eq_length {cs : List Char} (h : cs.all isDataChar = true) :
    byteSize cs = cs.length := by
  induction cs with
  | nil => rfl
  | cons c cs ih =>
    simp only [List.all_cons, Bool.and_eq_true] at h
    rw [byteSize, utf8Size_of_isDataChar h.1, ih h.2, List.length_cons, Nat.add_comm]

/-- Characters that break no rule form an address. -/
theorem isAddress_of_brokenRule?_eq_none {cs : List Char} (h : brokenRule? cs = none) :
    isAddress cs = true := by
  unfold brokenRule? at h
  unfold isAddress
  split at h
  · cases h
  · next tag data hs =>
    split at h
    · cases h
    · next ht =>
      split at h
      · cases h
      · next hn =>
        split at h
        · cases h
        · next hd =>
          simp only [Bool.not_eq_true, Bool.not_eq_false'] at ht hd
          rw [byteSize_eq_length (by simpa using hd)] at hn
          simp only [hs, isData, Bool.and_eq_true, decide_eq_true_eq]
          refine ⟨by simpa using ht, ⟨?_, ?_⟩, by simpa using hd⟩ <;> omega

/-- Reads an address; a malformed one is refused with the first rule that it breaks. -/
def parse (text : String) : Except Refusal Account :=
  match h : brokenRule? text.toList with
  | some rule => .error (.invalidAddress s!"{Text.quoted text}: {rule}")
  | none => .ok ⟨text, isAddress_of_brokenRule?_eq_none h⟩

/-- The account of a module, which nobody holds a key of. -/
def ofModule (name : String) : Account :=
  ofDigest (Sha256.digest (Text.utf8 "module:" ++ Text.utf8 name)) (Sha256.length_digest _)

/-- The account that a public key controls. -/
def ofPublicKey (key : List UInt8) : Account :=
  ofDigest (Sha256.digest key) (Sha256.length_digest _)

end Account

namespace ResourceId

def parse (text : String) : Except Refusal ResourceId :=
  match ofText? text with
  | some id => .ok id
  | none =>
    .error (.invalidResource
      (s!"invalid resource id {Text.quoted text}: " ++
        "expected 3-64 alphanumerics starting with a letter"))

end ResourceId

end LeaseEscrow
