/-!
# Blanks

The characters that count as blank space, in and beyond the ASCII range.
-/

namespace LeaseEscrow.Text

/-- Blank characters: the blank and the line controls, the next-line control, the no-break
blank, and the spaces and separators of other scripts. -/
def isBlank (c : Char) : Bool :=
  let n := c.toNat
  (0x9 ≤ n && n ≤ 0xD) || n == 0x20 || n == 0x85 || n == 0xA0 || n == 0x1680 ||
    (0x2000 ≤ n && n ≤ 0x200A) || n == 0x2028 || n == 0x2029 || n == 0x202F ||
    n == 0x205F || n == 0x3000

end LeaseEscrow.Text
