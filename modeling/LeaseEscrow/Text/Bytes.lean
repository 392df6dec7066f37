/-!
# Bytes of a text

Texts are stored and hashed as their UTF-8 bytes, and bytes are shown as lowercase
hexadecimal digits.
-/

namespace LeaseEscrow.Text

/-- The UTF-8 bytes of a text. -/
def utf8 (text : String) : List UInt8 := text.toList.flatMap String.utf8EncodeChar

/-- The text of ASCII bytes; a byte beyond 127 belongs to none. -/
def ofAscii? (bytes : List UInt8) : Option String :=
  if bytes.all (· < 128) then some (String.ofList (bytes.map fun b => Char.ofNat b.toNat))
  else none

/-! ## Hexadecimal digits -/

def hexOfByte (b : UInt8) : List Char :=
  [Nat.digitChar (b.toNat / 16), Nat.digitChar (b.toNat % 16)]

def hex (bytes : List UInt8) : String := String.ofList (bytes.flatMap hexOfByte)

/-- The value of a lowercase or uppercase hexadecimal digit. -/
def hexValue? (c : Char) : Option Nat :=
  if '0' ≤ c ∧ c ≤ '9' then some (c.toNat - '0'.toNat)
  else if 'a' ≤ c ∧ c ≤ 'f' then some (c.toNat - 'a'.toNat + 10)
  else if 'A' ≤ c ∧ c ≤ 'F' then some (c.toNat - 'A'.toNat + 10)
  else none

/-- The bytes that pairs of hexadecimal digits stand for. -/
def ofHexChars? : List Char → Option (List UInt8)
  | [] => some []
  | a :: b :: rest => do
    let high ← hexValue? a
    let low ← hexValue? b
    return UInt8.ofNat (16 * high + low) :: (← ofHexChars? rest)
  | _ => none

def ofHex? (text : String) : Option (List UInt8) := ofHexChars? text.toList

end LeaseEscrow.Text
