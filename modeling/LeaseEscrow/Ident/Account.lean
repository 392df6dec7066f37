import LeaseEscrow.Text.Bytes

/-!
# Accounts

An account is named by its address: a short tag of lowercase letters, the separator `1`, and
a data part of lowercase letters and digits. The tag holds no digit, so the first `1` of an
address is its separator.
-/

namespace LeaseEscrow

namespace Account

/-- 1 to 16 lowercase letters. -/
def isTag (cs : List Char) : Bool := !cs.isEmpty && cs.length ≤ 16 && cs.all Char.isLower

def isDataChar (c : Char) : Bool := c.isLower || c.isDigit

/-- 8 to 90 lowercase letters and digits. -/
def isData (cs : List Char) : Bool := 8 ≤ cs.length && cs.length ≤ 90 && cs.all isDataChar

/-- The parts before and after the first separator. -/
def split? (cs : List Char) : Option (List Char × List Char) :=
  match cs.dropWhile (· != '1') with
  | [] => none
  | _ :: data => some (cs.takeWhile (· != '1'), data)

def isAddress (cs : List Char) : Bool :=
  match split? cs with
  | some (tag, data) => isTag tag && isData data
  | none => false

end Account

structure Account where
  text : String
  valid : Account.isAddress text.toList = true
deriving DecidableEq

namespace Account

instance : ToString Account := ⟨text⟩

/-- Accounts are ordered as their addresses. -/
instance : Ord Account := ⟨fun a b => compare a.text b.text⟩

def bytes (a : Account) : List UInt8 := Text.utf8 a.text

/-- The beginning of an address, for display. -/
def short (a : Account) : String := String.ofList (a.text.toList.take 14)

/-! ## Derived addresses -/

theorem isDataChar_digitChar (n : Nat) (h : n < 16) : isDataChar (Nat.digitChar n) = true := by
  revert n; decide

theorem all_isDataChar_hex (bytes : List UInt8) :
    (bytes.flatMap Text.hexOfByte).all isDataChar = true := by
  induction bytes with
  | nil => rfl
  | cons b bs ih =>
    have hb : b.toNat < 256 := b.toNat_lt
    simp [Text.hexOfByte, ih, isDataChar_digitChar (b.toNat / 16) (by omega),
      isDataChar_digitChar (b.toNat % 16) (by omega)]

theorem length_hex (bytes : List UInt8) : (bytes.flatMap Text.hexOfByte).length = 2 * bytes.length := by
  induction bytes with
  | nil => rfl
  | cons b bs ih => simp only [List.flatMap_cons, List.length_append, ih]; simp [Text.hexOfByte]; omega

/-- The tag of derived addresses. -/
def derivedTag : List Char := ['m', 'n', 'o', 'd', 'e']

theorem isAddress_derived (bytes : List UInt8) (h₁ : 4 ≤ bytes.length) (h₂ : bytes.length ≤ 45) :
    isAddress (derivedTag ++ '1' :: bytes.flatMap Text.hexOfByte) = true := by
  have hsplit : split? (derivedTag ++ '1' :: bytes.flatMap Text.hexOfByte) =
      some (derivedTag, bytes.flatMap Text.hexOfByte) := by
    simp [split?, derivedTag]
  have hlen := length_hex bytes
  have hall := all_isDataChar_hex bytes
  simp only [isAddress, hsplit]
  have hd : isData (bytes.flatMap Text.hexOfByte) = true := by
    simp only [isData, hall, Bool.and_true, Bool.and_eq_true, decide_eq_true_eq]
    omega
  rw [hd]
  rfl

/-- The address that shows the first 20 bytes of a hash of 32. -/
def ofDigest (digest : List UInt8) (h : digest.length = 32) : Account where
  text := String.ofList (derivedTag ++ '1' :: (digest.take 20).flatMap Text.hexOfByte)
  valid := by
    rw [String.toList_ofList]
    exact isAddress_derived _ (by simp [h]) (by simp [h])

end Account

end LeaseEscrow
