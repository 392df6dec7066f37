import LeaseEscrow.Json.Basic

/-!
# Writing JSON

`compact` writes a value without blanks, `pretty` one element to a line with two blanks for
each level. Strings escape the quote, the backslash and the control characters below the
blank; everything else stands as it is.
-/

namespace LeaseEscrow.Json

/-! ## Strings and numbers -/

def hexDigit (n : Nat) : Char := (Nat.digitChar (n % 16))

/-- One character of a string, escaped where it must be. -/
def escaped (c : Char) : List Char :=
  if c = '"' then ['\\', '"']
  else if c = '\\' then ['\\', '\\']
  else if c = '\x08' then ['\\', 'b']
  else if c = '\t' then ['\\', 't']
  else if c = '\n' then ['\\', 'n']
  else if c = '\x0c' then ['\\', 'f']
  else if c = '\r' then ['\\', 'r']
  else if c.toNat < 0x20 then
    ['\\', 'u', '0', '0', hexDigit (c.toNat / 16), hexDigit c.toNat]
  else [c]

def quoted (text : String) : List Char :=
  '"' :: text.toList.flatMap escaped ++ ['"']

def digitChars (digits : List Nat) : List Char := digits.map Nat.digitChar

def intChars (n : Int) : List Char :=
  (if n < 0 then ['-'] else []) ++ Nat.toDigits 10 n.natAbs

def Number.chars : Number → List Char
  | .int n => intChars n
  | .real negative whole fraction exponent =>
    (if negative then ['-'] else []) ++ digitChars whole ++
      (if fraction.isEmpty then [] else '.' :: digitChars fraction) ++
      (if exponent = 0 then [] else 'e' :: intChars exponent)

/-! ## Values -/

mutual

def compactChars : Json → List Char
  | .null => ['n', 'u', 'l', 'l']
  | .bool true => ['t', 'r', 'u', 'e']
  | .bool false => ['f', 'a', 'l', 's', 'e']
  | .num n => n.chars
  | .str text => quoted text
  | .arr [] => ['[', ']']
  | .arr (item :: items) => '[' :: compactChars item ++ compactItems items
  | .obj [] => ['\x7b', '\x7d']
  | .obj ((name, value) :: members) =>
    '\x7b' :: quoted name ++ ':' :: compactChars value ++ compactMembers members
  | .meaningless => ['"', '\\', 'u', 'd', '8', '0', '0', '"']

/-- The items after the first one, and the end of the array. -/
def compactItems : List Json → List Char
  | [] => [']']
  | item :: items => ',' :: compactChars item ++ compactItems items

/-- The members after the first one, and the end of the object. -/
def compactMembers : List (String × Json) → List Char
  | [] => ['\x7d']
  | (name, value) :: members =>
    ',' :: quoted name ++ ':' :: compactChars value ++ compactMembers members

end

/-- A new line at a level of nesting. -/
def newLine (level : Nat) : List Char := '\n' :: List.replicate (2 * level) ' '

mutual

def prettyChars (level : Nat) : Json → List Char
  | .null => ['n', 'u', 'l', 'l']
  | .bool true => ['t', 'r', 'u', 'e']
  | .bool false => ['f', 'a', 'l', 's', 'e']
  | .num n => n.chars
  | .str text => quoted text
  | .arr [] => ['[', ']']
  | .arr (item :: items) =>
    '[' :: newLine (level + 1) ++ prettyChars (level + 1) item ++ prettyItems level items
  | .obj [] => ['\x7b', '\x7d']
  | .obj ((name, value) :: members) =>
    '\x7b' :: newLine (level + 1) ++ quoted name ++ ':' :: ' ' :: prettyChars (level + 1) value ++
      prettyMembers level members
  | .meaningless => ['"', '\\', 'u', 'd', '8', '0', '0', '"']

/-- The items after the first one, and the end of the array. -/
def prettyItems (level : Nat) : List Json → List Char
  | [] => newLine level ++ [']']
  | item :: items =>
    ',' :: newLine (level + 1) ++ prettyChars (level + 1) item ++ prettyItems level items

/-- The members after the first one, and the end of the object. -/
def prettyMembers (level : Nat) : List (String × Json) → List Char
  | [] => newLine level ++ ['\x7d']
  | (name, value) :: members =>
    ',' :: newLine (level + 1) ++ quoted name ++ ':' :: ' ' :: prettyChars (level + 1) value ++
      prettyMembers level members

end

def compact (j : Json) : String := String.ofList (compactChars j)

def pretty (j : Json) : String := String.ofList (prettyChars 0 j)

end LeaseEscrow.Json
