import LeaseEscrow.Decimal.Arithmetic

/-!
# Written decimals

A decimal is written with exactly as many places as its scale. It is read in a plain form
(digits with at most one point, underscores between them) or, failing that, with an
exponent. Digits beyond the range of a magnitude are rounded off, a half away from zero.
-/

namespace LeaseEscrow.Decimal

/-! ## Writing -/

/-- The digits of `n`, padded with zeros on the left to at least `width`. -/
def paddedDigits (width n : Nat) : List Char :=
  let digits := Nat.toDigits 10 n
  List.replicate (width - digits.length) '0' ++ digits

/-- The written form of `n / 10 ^ scale`. -/
def magnitudeText (n scale : Nat) : List Char :=
  Nat.toDigits 10 (n / tenPow scale) ++
    if scale = 0 then [] else '.' :: paddedDigits scale (n % tenPow scale)

def chars (a : Decimal) : List Char :=
  (if a.negative then ['-'] else []) ++ magnitudeText a.magnitude a.scale

def toText (a : Decimal) : String := String.ofList a.chars

instance : ToString Decimal := ⟨toText⟩

/-! ## Reading the plain form -/

def digit? (c : Char) : Option Nat := if c.isDigit then some (c.toNat - '0'.toNat) else none

/-- A magnitude rounded by the first digit that no longer fits. One that rounding carries out
of range gives up one place. -/
def roundedBy (digit magnitude scale : Nat) : Option (Nat × Nat) :=
  if digit < 5 then some (magnitude, scale)
  else if magnitude + 1 < capacity then some (magnitude + 1, scale)
  else if scale = 0 then none
  else some ((magnitude + 5) / 10, scale - 1)

/-- Behind the first digit that no longer fits, digits and underscores have no meaning, and
nothing else may stand. -/
def isDropped (c : Char) : Bool := c.isDigit || c == '_'

/-- Magnitudes below this one end at their 28th place, so that an underscore there stands for
the digit to round by, a zero. Larger ones pass over it to the digit behind. -/
def shortMagnitude : Nat := 18446744073709549060

/-- Reads an unsigned number into its magnitude and scale. `point` and `digits` tell whether a
point and a digit have been read. -/
def readMagnitude? (point digits : Bool) (magnitude scale : Nat) :
    List Char → Option (Nat × Nat)
  | [] => if digits then some (magnitude, scale) else none
  | '_' :: rest =>
    if scale = 28 ∧ magnitude < shortMagnitude then
      if rest.all isDropped then roundedBy 0 magnitude scale else none
    else if digits then readMagnitude? point digits magnitude scale rest
    else none
  | '.' :: rest => if point then none else readMagnitude? true digits magnitude scale rest
  | c :: rest =>
    match digit? c with
    | none => none
    | some d =>
      if 10 * magnitude + d < capacity ∧ (point → scale < 28) then
        readMagnitude? point true (10 * magnitude + d) (if point then scale + 1 else scale) rest
      else if point ∧ rest.all isDropped then roundedBy d magnitude scale
      else none

/-- Splits off a sign: whether it is a minus, and what follows. -/
def splitSign : List Char → Bool × List Char
  | '-' :: rest => (true, rest)
  | '+' :: rest => (false, rest)
  | cs => (false, cs)

/-- An optional sign and a plain number. A plain zero has no sign. -/
def ofPlain? (cs : List Char) : Option Decimal :=
  let (negative, rest) := splitSign cs
  match readMagnitude? false false 0 0 rest with
  | some (magnitude, scale) => ofParts? (signed negative magnitude) scale
  | none => none

/-! ## Reading an exponent -/

/-- A 32-bit word, with an optional plus. -/
def readWord32? (cs : List Char) : Option Nat :=
  let digits := match cs with
    | '+' :: rest => rest
    | _ => cs
  if digits.isEmpty then none
  else
    match digits.mapM digit? with
    | none => none
    | some ds =>
      let n := ds.foldl (fun n d => 10 * n + d) 0
      if n < UInt32.size then some n else none

/-- `n / 10 ^ places`, rounded to the nearest, a half upwards. -/
def dropPlaces (n places : Nat) : Nat := (n + tenPow places / 2) / tenPow places

/-- The amount divided by `10 ^ e`. Places beyond the 28th are rounded off; the sign stays. -/
def shiftRight? (a : Decimal) (e : Nat) : Option Decimal :=
  if 28 < e then none
  else if a.scale + e ≤ 28 then ofSigned? a.negative a.magnitude (a.scale + e)
  else ofSigned? a.negative (dropPlaces a.magnitude (a.scale + e - 28)) 28

/-- The same value without zeros at the end of its fraction. -/
def withoutTrailingZeros (negative : Bool) (magnitude : Nat) : (scale : Nat) → Option Decimal
  | 0 => ofSigned? negative magnitude 0
  | scale + 1 =>
    if magnitude % 10 = 0 then withoutTrailingZeros negative (magnitude / 10) scale
    else ofSigned? negative magnitude (scale + 1)

/-- The amount multiplied by `10 ^ e`. -/
def shiftLeft? (a : Decimal) (e : Nat) : Option Decimal :=
  if e ≤ a.scale then ofSigned? a.negative a.magnitude (a.scale - e)
  else if 28 < e then none
  else
    match ofSigned? false (tenPow e) 0 with
    | none => none
    | some power => do
      let product ← a.mul? power
      withoutTrailingZeros product.negative product.magnitude product.scale

def isExponentMark (c : Char) : Bool := c == 'e' || c == 'E'

/-- A plain number, an `e`, and a whole exponent. -/
def ofScientific? (cs : List Char) : Option Decimal :=
  match cs.dropWhile (!isExponentMark ·) with
  | [] => none
  | _ :: exponent => do
    let base ← ofPlain? (cs.takeWhile (!isExponentMark ·))
    match exponent with
    | '-' :: digits => base.shiftRight? (← readWord32? digits)
    | digits => base.shiftLeft? (← readWord32? digits)

/-- Reads a decimal: the plain form first, then the form with an exponent. -/
def ofText? (s : String) : Option Decimal :=
  match ofPlain? s.toList with
  | some d => some d
  | none => ofScientific? s.toList

end LeaseEscrow.Decimal
