import LeaseEscrow.Text.CombiningMarks
import LeaseEscrow.Text.Unassigned

/-!
# Quoted texts

A text inside a message stands between quotes, in a form that shows every character: the
quote and the backslash are escaped, line controls have short names, and characters that
would not be seen are given by their numbers.
-/

namespace LeaseEscrow.Text

/-- Whether a number lies in one of the ranges, which are in ascending order. -/
def inRanges (n : Nat) : List (Nat × Nat) → Bool
  | [] => false
  | (low, high) :: rest => low ≤ n && (n ≤ high || inRanges n rest)

/-- Controls, separators other than the blank, format characters, fillers, and code points for
private use and for other encodings. -/
def invisible : List (Nat × Nat) :=
  [(0x0, 0x1f), (0x7f, 0xa0), (0xad, 0xad), (0x600, 0x605), (0x61c, 0x61c), (0x6dd, 0x6dd),
   (0x70f, 0x70f), (0x890, 0x891), (0x8e2, 0x8e2), (0x115f, 0x1160), (0x1680, 0x1680),
   (0x180e, 0x180e), (0x2000, 0x200f), (0x2028, 0x202f), (0x205f, 0x2064), (0x2066, 0x206f),
   (0x3000, 0x3000), (0x3164, 0x3164), (0xd800, 0xf8ff), (0xfeff, 0xfeff), (0xffa0, 0xffa0),
   (0xfff9, 0xfffb), (0x110bd, 0x110bd), (0x110cd, 0x110cd), (0x13430, 0x1343f), (0x1bca0, 0x1bca3),
   (0x1d173, 0x1d17a), (0xe0001, 0xe0001), (0xe0020, 0xe007f), (0xf0000, 0xffffd),
   (0x100000, 0x10fffd)]

/-- Whether a quoted text shows the character as itself. -/
def isShown (c : Char) : Bool :=
  !inRanges c.toNat invisible && !inRanges c.toNat combiningMarks && !inRanges c.toNat unassigned

/-- One character of a quoted text. -/
def quotedChar (c : Char) : List Char :=
  match c with
  | '"' => ['\\', '"']
  | '\\' => ['\\', '\\']
  | '\n' => ['\\', 'n']
  | '\r' => ['\\', 'r']
  | '\t' => ['\\', 't']
  | '\x00' => ['\\', '0']
  | c =>
    if isShown c then [c]
    else '\\' :: 'u' :: '\x7b' :: Nat.toDigits 16 c.toNat ++ ['\x7d']

/-- The text between quotes. -/
def quoted (text : String) : String :=
  String.ofList ('"' :: text.toList.flatMap quotedChar ++ ['"'])

end LeaseEscrow.Text
