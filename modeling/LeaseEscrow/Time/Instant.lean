import LeaseEscrow.Time.Calendar

/-!
# Instants and spans

An instant is a second of universal time, counted from the first of January 1970, and the
nanoseconds that have passed since that second began. Leap seconds are not counted: one
prolongs the last second of a minute, so that its nanoseconds go on to two seconds' worth.
It comes before the next second, but shows in arithmetic only where it is an end itself.
Instants lie within the calendar, from the year -262143 to the last nanosecond of the year
262142, which no leap second prolongs. A span is a number of nanoseconds of at most
`2 ^ 63 - 1` milliseconds in either direction. Both bounds are part of the types; arithmetic
that would cross one has no result.
-/

namespace LeaseEscrow

def nanosPerSecond : Int := 1000000000

def nanosPerHour : Int := 3600000000000

def secondsPerDay : Int := 86400

/-! ## Spans -/

/-- The nanoseconds of `2 ^ 63 - 1` milliseconds. -/
abbrev Span.longest : Nat := 9223372036854775807000000

structure Span where
  nanos : Int
  bounded : nanos.natAbs ≤ Span.longest
deriving DecidableEq

namespace Span

def ofNanos? (nanos : Int) : Option Span :=
  if h : nanos.natAbs ≤ longest then some ⟨nanos, h⟩ else none

def ofSeconds? (n : Int) : Option Span := ofNanos? (n * nanosPerSecond)

def ofHours? (n : Int) : Option Span := ofNanos? (n * nanosPerHour)

/-- The whole seconds of a span, a fraction dropped. -/
def seconds (s : Span) : Int := s.nanos.tdiv nanosPerSecond

end Span

/-! ## Instants -/

/-- The second in which the calendar begins. -/
abbrev Instant.firstSecond : Int := -8334601228800

/-- The second with which the calendar ends. -/
abbrev Instant.lastSecond : Int := 8210266876799

structure Instant where
  second : Int
  /-- The nanoseconds since the second began. -/
  fraction : Nat
  first_le : Instant.firstSecond ≤ second
  le_last : second ≤ Instant.lastSecond
  fraction_lt : fraction < 1000000000 ∨
    second % 60 = 59 ∧ second < Instant.lastSecond ∧ fraction < 2000000000
deriving DecidableEq

namespace Instant

def ofParts? (second : Int) (fraction : Nat) : Option Instant :=
  if h : (firstSecond ≤ second ∧ second ≤ lastSecond) ∧ (fraction < 1000000000 ∨
      second % 60 = 59 ∧ second < lastSecond ∧ fraction < 2000000000) then
    some ⟨second, fraction, h.1.1, h.1.2, h.2⟩
  else none

/-- The instant outside of leap seconds with so many nanoseconds before it. -/
def ofNanos? (nanos : Int) : Option Instant :=
  ofParts? (nanos / nanosPerSecond) (nanos % nanosPerSecond).toNat

instance : LE Instant :=
  ⟨fun a b => a.second < b.second ∨ a.second = b.second ∧ a.fraction ≤ b.fraction⟩

instance : LT Instant :=
  ⟨fun a b => a.second < b.second ∨ a.second = b.second ∧ a.fraction < b.fraction⟩

instance (a b : Instant) : Decidable (a ≤ b) :=
  inferInstanceAs (Decidable (a.second < b.second ∨ a.second = b.second ∧ a.fraction ≤ b.fraction))

instance (a b : Instant) : Decidable (a < b) :=
  inferInstanceAs (Decidable (a.second < b.second ∨ a.second = b.second ∧ a.fraction < b.fraction))

/-- The nanoseconds before it. Those of a leap second are given again to the next second. -/
def nanos (t : Instant) : Int := t.second * nanosPerSecond + t.fraction

def isLeap (t : Instant) : Bool := 1000000000 ≤ t.fraction

def secondOfDay (t : Instant) : Int := t.second % secondsPerDay

/-- The instant a span later, if the calendar reaches so far. What does not leave a leap
second stays in it; what goes beyond it starts from the second before it. -/
def add? (t : Instant) (s : Span) : Option Instant :=
  let fraction := t.fraction + s.nanos
  if t.isLeap ∧ nanosPerSecond ≤ fraction then
    if fraction < 2 * nanosPerSecond then ofParts? t.second fraction.toNat
    else ofNanos? (t.nanos - nanosPerSecond + s.nanos)
  else ofNanos? (t.nanos + s.nanos)

/-- The instant so many hours later, if the calendar reaches so far. -/
def addHours? (t : Instant) (hours : Nat) : Option Instant := (Span.ofHours? hours).bind t.add?

/-- The nanoseconds from `start` to `t`. A leap second in which one of them lies is counted
when the other one has a later time of day. -/
def nanosSince (t start : Instant) : Int :=
  let leap :=
    if start.isLeap ∧ start.secondOfDay < t.secondOfDay then nanosPerSecond
    else if t.isLeap ∧ t.secondOfDay < start.secondOfDay then -nanosPerSecond
    else 0
  t.nanos - start.nanos + leap

/-- Whole hours from `start` to `t`; negative when `t` comes first. -/
def hoursSince (t start : Instant) : Int := t.nanosSince start / nanosPerHour

end Instant

end LeaseEscrow
