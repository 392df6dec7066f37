import LeaseEscrow.Decimal.Text
import LeaseEscrow.Text.Blank
import LeaseEscrow.Time.Instant

/-!
# Written instants

An instant is written as `2023-11-14T22:13:20Z`, with three, six or nine places of a second
where it needs them, with a signed year outside 0 to 9999, and with second 60 for a leap
second. It is read in the same form, in any offset from universal time, and in looser ones:
fields may lack their leading zeros, blanks may stand around them, and letters may be small.
Places beyond the ninth are dropped. A leap second may end any minute.
-/

namespace LeaseEscrow.Instant

open Decimal (paddedDigits digit?)

/-! ## Writing -/

/-- Four digits within 0 to 9999; otherwise a sign and at least four digits. -/
def yearChars (year : Int) : List Char :=
  if 0 ≤ year ∧ year ≤ 9999 then paddedDigits 4 year.toNat
  else (if year < 0 then '-' else '+') :: paddedDigits 4 year.natAbs

/-- No, three, six or nine places: the fewest that are exact. -/
def fractionChars (nanos : Nat) : List Char :=
  if nanos = 0 then []
  else if nanos % 1000000 = 0 then '.' :: paddedDigits 3 (nanos / 1000000)
  else if nanos % 1000 = 0 then '.' :: paddedDigits 6 (nanos / 1000)
  else '.' :: paddedDigits 9 nanos

/-- The second of the minute, 60 for a leap second, and the places of its fraction. -/
def secondChars (second fraction : Nat) : List Char :=
  if fraction < 1000000000 then paddedDigits 2 second ++ fractionChars fraction
  else paddedDigits 2 (second + 1) ++ fractionChars (fraction - 1000000000)

def chars (t : Instant) : List Char :=
  let date := Date.ofDayNumber (t.second / secondsPerDay)
  let second := t.secondOfDay.toNat
  yearChars date.year ++ '-' :: paddedDigits 2 date.month ++ '-' :: paddedDigits 2 date.day ++
    'T' :: paddedDigits 2 (second / 3600) ++ ':' :: paddedDigits 2 (second / 60 % 60) ++
    ':' :: secondChars (second % 60) t.fraction ++ ['Z']

def toText (t : Instant) : String := String.ofList t.chars

/-! ## Reading -/

/-- The number that digits write; a character that is no digit makes it none. -/
def number? (cs : List Char) : Option Nat :=
  (cs.mapM digit?).map fun ds => ds.foldl (fun n d => 10 * n + d) 0

/-- What follows the blanks at the beginning. -/
def skipBlanks (cs : List Char) : List Char := cs.dropWhile Text.isBlank

/-- The number that one to `width` digits write, after blanks, and what follows them. -/
def readNumber? (width : Nat) (cs : List Char) : Option (Nat × List Char) :=
  let cs := skipBlanks cs
  let digits := (cs.takeWhile Char.isDigit).take width
  if digits.isEmpty then none
  else (number? digits).map fun n => (n, cs.drop digits.length)

/-- What follows a mark, which may have blanks before it. -/
def readMark? (mark : Char) (cs : List Char) : Option (List Char) :=
  match skipBlanks cs with
  | c :: rest => if c = mark then some rest else none
  | [] => none

/-- One to four digits, or a sign and any number of digits. -/
def readYear? (cs : List Char) : Option (Int × List Char) :=
  match skipBlanks cs with
  | '+' :: rest => signedYear 1 rest
  | '-' :: rest => signedYear (-1) rest
  | cs => (readNumber? 4 cs).map fun (n, rest) => ((n : Int), rest)
where
  signedYear (sign : Int) (cs : List Char) : Option (Int × List Char) :=
    let digits := cs.takeWhile Char.isDigit
    if digits.isEmpty then none
    else (number? digits).map fun n => (sign * n, cs.dropWhile Char.isDigit)

/-- A date of the calendar, and what follows it. -/
def readDate? (cs : List Char) : Option (Date × List Char) := do
  let (year, rest) ← readYear? cs
  let (month, rest) ← readNumber? 2 (← readMark? '-' rest)
  let (day, rest) ← readNumber? 2 (← readMark? '-' rest)
  let date : Date := ⟨year, month, day⟩
  if date.isValid then return (date, rest) else none

/-- The nanoseconds of a fraction of a second, and what follows it. -/
def readFraction? (cs : List Char) : Option (Nat × List Char) :=
  match cs with
  | '.' :: rest =>
    let digits := rest.takeWhile Char.isDigit
    if digits.isEmpty then none
    else
      let kept := digits.take 9
      (number? kept).map fun n =>
        (n * tenPow (9 - kept.length), rest.dropWhile Char.isDigit)
  | rest => some (0, rest)

/-- The second of the day and the fraction of it, and what follows the time of day. Second 60
of a minute is the leap second that prolongs second 59. -/
def readClock? (cs : List Char) : Option ((Int × Nat) × List Char) := do
  let (hour, rest) ← readNumber? 2 cs
  let (minute, rest) ← readNumber? 2 (← readMark? ':' rest)
  let (second, rest) ← readNumber? 2 (← readMark? ':' rest)
  let (fraction, rest) ← readFraction? rest
  let minutes : Int := 3600 * hour + 60 * minute
  if hour ≤ 23 ∧ minute ≤ 59 ∧ second ≤ 60 then
    if second = 60 then return ((minutes + 59, fraction + 1000000000), rest)
    else return ((minutes + second, fraction), rest)
  else none

/-- Hours and minutes of two digits each, with any colons and blanks between them: their
seconds, and what follows. -/
def readOffset? : List Char → Option (Int × List Char)
  | h₁ :: h₂ :: rest => do
    let hours ← number? [h₁, h₂]
    match rest.dropWhile fun c => c == ':' || Text.isBlank c with
    | m₁ :: m₂ :: rest => do
      let minutes ← number? [m₁, m₂]
      if hours ≤ 23 ∧ minutes ≤ 59 then return (3600 * hours + 60 * minutes, rest) else none
    | _ => none
  | _ => none

/-- The seconds that local time is ahead of universal time, and what follows. The longer sign
of subtraction is a minus as well. -/
def readZone? (cs : List Char) : Option (Int × List Char) :=
  if (cs.take 3).map Char.toLower = ['u', 't', 'c'] then some (0, cs.drop 3)
  else
    match cs with
    | 'Z' :: rest => some (0, rest)
    | 'z' :: rest => some (0, rest)
    | '+' :: rest => readOffset? rest
    | '-' :: rest => behind rest
    | '\u2212' :: rest => behind rest
    | _ => none
where
  behind (cs : List Char) : Option (Int × List Char) :=
    (readOffset? cs).map fun (seconds, rest) => (-seconds, rest)

def isDateEnd (c : Char) : Bool := c == 'T' || c == 't' || c == ' '

/-- Local time and universal time must both lie within the calendar. -/
def ofChars? (cs : List Char) : Option Instant := do
  let (date, rest) ← readDate? cs
  match rest with
  | c :: rest =>
    if isDateEnd c then
      let ((second, fraction), rest) ← readClock? rest
      let (offset, rest) ← readZone? (skipBlanks rest)
      if (skipBlanks rest).isEmpty then
        let here ← ofParts? (date.dayNumber * secondsPerDay + second) 0
        ofParts? (here.second - offset) fraction
      else none
    else none
  | [] => none

def ofText? (text : String) : Option Instant := ofChars? text.toList

end LeaseEscrow.Instant
