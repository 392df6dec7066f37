import LeaseEscrow.Json.Basic

/-!
# JSON tokens

The lexer reads a text one character at a time: `Scanner` is what the characters so far
have left open, and `Scanner.step` what one more character makes of it. Control characters
may not stand in strings, a number has no leading zero and a digit on each side of its
point, and blanks are the four that the format names.
-/

namespace LeaseEscrow.Json

inductive Token where
  | openObject
  | closeObject
  | openArray
  | closeArray
  | comma
  | colon
  | null
  | bool (value : Bool)
  | num (value : Number)
  /-- A string, unless it holds half of a surrogate pair. -/
  | str (text : Option String)
deriving DecidableEq

/-! ## Code units of strings -/

def isHighSurrogate (u : Nat) : Bool := 0xD800 ≤ u && u < 0xDC00

def isLowSurrogate (u : Nat) : Bool := 0xDC00 ≤ u && u < 0xE000

/-- The characters that code units stand for: a surrogate pair is one character, half of
one is none. -/
def ofUnits? : List Nat → Option (List Char)
  | [] => some []
  | [u] => if isHighSurrogate u || isLowSurrogate u then none else some [Char.ofNat u]
  | u :: v :: rest =>
    if isHighSurrogate u then
      if isLowSurrogate v then
        (ofUnits? rest).map (Char.ofNat (0x10000 + (u - 0xD800) * 0x400 + (v - 0xDC00)) :: ·)
      else none
    else if isLowSurrogate u then none
    else (ofUnits? (v :: rest)).map (Char.ofNat u :: ·)

def hexDigit? (c : Char) : Option Nat :=
  if '0' ≤ c ∧ c ≤ '9' then some (c.toNat - '0'.toNat)
  else if 'a' ≤ c ∧ c ≤ 'f' then some (c.toNat - 'a'.toNat + 10)
  else if 'A' ≤ c ∧ c ≤ 'F' then some (c.toNat - 'A'.toNat + 10)
  else none

/-- What a one-character escape stands for. -/
def shortEscape? : Char → Option Char
  | '"' => some '"'
  | '\\' => some '\\'
  | '/' => some '/'
  | 'b' => some '\x08'
  | 'f' => some '\x0c'
  | 'n' => some '\n'
  | 'r' => some '\r'
  | 't' => some '\t'
  | _ => none

/-! ## The scanner -/

/-- What is being read. Digits and code units are kept newest first. -/
inductive Mode where
  | between
  | word (left : List Char) (token : Token)
  | text (units : List Nat)
  | escape (units : List Nat)
  | unit (units : List Nat) (missing value : Nat)
  | minus
  | zero (negative : Bool)
  | whole (negative : Bool) (digits : List Nat)
  | point (negative : Bool) (digits : List Nat)
  | fraction (negative : Bool) (digits places : List Nat)
  | mark (negative : Bool) (digits places : List Nat)
  | markSign (negative : Bool) (digits places : List Nat) (negativeExponent : Bool)
  | exponent (negative : Bool) (digits places : List Nat) (negativeExponent : Bool) (value : Nat)

structure Scanner where
  mode : Mode
  /-- The complete tokens, newest first. -/
  tokens : List Token

def digit? (c : Char) : Option Nat := if c.isDigit then some (c.toNat - '0'.toNat) else none

def isBlank (c : Char) : Bool := c == ' ' || c == '\n' || c == '\r' || c == '\t'

def ofDigits (digits : List Nat) : Nat := digits.foldl (fun n d => 10 * n + d) 0

/-- The literal without fraction and exponent; a negative zero is no integer. -/
def Number.ofWhole (negative : Bool) (digits : List Nat) : Number :=
  let n := ofDigits digits
  if negative then if n = 0 then .real true digits [] 0 else .int (-n) else .int n

/-- The number that ends where these characters end. -/
def Mode.number? : Mode → Option Number
  | .zero negative => some (.ofWhole negative [0])
  | .whole negative digits => some (.ofWhole negative digits.reverse)
  | .fraction negative digits places => some (.real negative digits.reverse places.reverse 0)
  | .exponent negative digits places negativeExponent value =>
    some (.real negative digits.reverse places.reverse
      (if negativeExponent then -value else value))
  | _ => none

/-- A character outside strings and numbers. -/
def Scanner.start (tokens : List Token) (c : Char) : Option Scanner :=
  let emit (t : Token) : Option Scanner := some ⟨.between, t :: tokens⟩
  match c with
  | '\x7b' => emit .openObject
  | '\x7d' => emit .closeObject
  | '[' => emit .openArray
  | ']' => emit .closeArray
  | ',' => emit .comma
  | ':' => emit .colon
  | '"' => some ⟨.text [], tokens⟩
  | 'n' => some ⟨.word ['u', 'l', 'l'] .null, tokens⟩
  | 't' => some ⟨.word ['r', 'u', 'e'] (.bool true), tokens⟩
  | 'f' => some ⟨.word ['a', 'l', 's', 'e'] (.bool false), tokens⟩
  | '-' => some ⟨.minus, tokens⟩
  | '0' => some ⟨.zero false, tokens⟩
  | c =>
    if isBlank c then some ⟨.between, tokens⟩
    else (digit? c).map fun d => ⟨.whole false [d], tokens⟩

/-- The next state of a number that `c` continues, if it does. -/
def Mode.continued? (mode : Mode) (c : Char) : Option Mode :=
  match mode with
  | .zero negative =>
    if c = '.' then some (.point negative [0])
    else if c = 'e' ∨ c = 'E' then some (.mark negative [0] [])
    else none
  | .whole negative digits =>
    if c = '.' then some (.point negative digits)
    else if c = 'e' ∨ c = 'E' then some (.mark negative digits [])
    else (digit? c).map fun d => .whole negative (d :: digits)
  | .fraction negative digits places =>
    if c = 'e' ∨ c = 'E' then some (.mark negative digits places)
    else (digit? c).map fun d => .fraction negative digits (d :: places)
  | .exponent negative digits places negativeExponent value =>
    (digit? c).map fun d => .exponent negative digits places negativeExponent (10 * value + d)
  | _ => none

/-- One more character. After a number, a character that does not continue it ends it. -/
def Scanner.step (s : Scanner) (c : Char) : Option Scanner :=
  match s.mode with
  | .between => Scanner.start s.tokens c
  | .word (expected :: left) token =>
    if c ≠ expected then none
    else if left.isEmpty then some ⟨.between, token :: s.tokens⟩
    else some ⟨.word left token, s.tokens⟩
  | .word [] _ => none
  | .text units =>
    if c = '"' then
      some ⟨.between, .str ((ofUnits? units.reverse).map String.ofList) :: s.tokens⟩
    else if c = '\\' then some ⟨.escape units, s.tokens⟩
    else if c.toNat < 0x20 then none
    else some ⟨.text (c.toNat :: units), s.tokens⟩
  | .escape units =>
    if c = 'u' then some ⟨.unit units 4 0, s.tokens⟩
    else (shortEscape? c).map fun e => ⟨.text (e.toNat :: units), s.tokens⟩
  | .unit units missing value =>
    (hexDigit? c).map fun d =>
      if missing ≤ 1 then ⟨.text ((16 * value + d) :: units), s.tokens⟩
      else ⟨.unit units (missing - 1) (16 * value + d), s.tokens⟩
  | .minus =>
    if c = '0' then some ⟨.zero true, s.tokens⟩
    else (digit? c).map fun d => ⟨.whole true [d], s.tokens⟩
  | .point negative digits =>
    (digit? c).map fun d => ⟨.fraction negative digits [d], s.tokens⟩
  | .mark negative digits places =>
    if c = '+' then some ⟨.markSign negative digits places false, s.tokens⟩
    else if c = '-' then some ⟨.markSign negative digits places true, s.tokens⟩
    else (digit? c).map fun d => ⟨.exponent negative digits places false d, s.tokens⟩
  | .markSign negative digits places negativeExponent =>
    (digit? c).map fun d => ⟨.exponent negative digits places negativeExponent d, s.tokens⟩
  | mode =>
    match mode.continued? c with
    | some next => some ⟨next, s.tokens⟩
    | none =>
      match mode.number? with
      | none => none
      | some n => if digit? c |>.isSome then none else Scanner.start (.num n :: s.tokens) c

/-- The tokens of a text that ends here, in their order. -/
def Scanner.finish (s : Scanner) : Option (List Token) :=
  match s.mode with
  | .between => some s.tokens.reverse
  | mode => mode.number?.map fun n => (.num n :: s.tokens).reverse

/-- The tokens of a text, unless it breaks the lexical rules. -/
def tokens? (text : List Char) : Option (List Token) :=
  (text.foldlM Scanner.step ⟨.between, []⟩).bind Scanner.finish

end LeaseEscrow.Json
