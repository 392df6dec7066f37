import LeaseEscrow.Proofs.Decimal.Digits
import LeaseEscrow.Proofs.Time.Calendar
import LeaseEscrow.Time.Text

/-!
# Reading written instants

Each field of a written instant reads back, whatever stands behind it that is no digit; together
they give back the instant, down to its nanoseconds and also in a leap second (`ofText?_toText`).
-/

namespace LeaseEscrow.Instant

open Decimal (paddedDigits isDigit_of_mem_paddedDigits length_paddedDigits
  ofDigitChars_paddedDigits paddedDigits_ne_nil)

variable {rest : List Char}

/-! ## Fields -/

theorem number?_digits {cs : List Char} (h : ∀ c ∈ cs, c.isDigit = true) :
    number? cs = some (Nat.ofDigitChars 10 cs 0) := by
  have hvalues : cs.mapM Decimal.digit? = some (cs.map fun c => c.toNat - '0'.toNat) := by
    induction cs with
    | nil => rfl
    | cons c cs ih =>
      rw [List.mapM_cons, Decimal.digit?_eq (h c List.mem_cons_self),
        ih fun d hd => h d (List.mem_cons_of_mem _ hd)]
      rfl
  rw [number?, hvalues, Option.map_some, List.foldl_map, Nat.ofDigitChars_eq_foldl]

theorem number?_paddedDigits (width n : Nat) : number? (paddedDigits width n) = some n := by
  rw [number?_digits fun _ => isDigit_of_mem_paddedDigits, ofDigitChars_paddedDigits]

/-- No digit stands here. -/
def NoDigit (rest : List Char) : Prop := ∀ c ∈ rest.head?, c.isDigit = false

theorem noDigit_cons {c : Char} (h : c.isDigit = false) : NoDigit (c :: rest) := by
  intro d hd
  cases hd
  exact h

theorem takeWhile_digits {cs : List Char} (h : ∀ c ∈ cs, c.isDigit = true) (hrest : NoDigit rest) :
    (cs ++ rest).takeWhile Char.isDigit = cs := by
  rw [List.takeWhile_append_of_pos h]
  cases rest with
  | nil => rw [List.takeWhile_nil, List.append_nil]
  | cons c rest =>
    rw [List.takeWhile_cons, hrest c rfl]
    exact List.append_nil cs

theorem dropWhile_digits {cs : List Char} (h : ∀ c ∈ cs, c.isDigit = true) (hrest : NoDigit rest) :
    (cs ++ rest).dropWhile Char.isDigit = rest := by
  rw [List.dropWhile_append_of_pos h]
  cases rest with
  | nil => rfl
  | cons c rest => rw [List.dropWhile_cons, hrest c rfl, if_neg Bool.false_ne_true]

theorem skipBlanks_cons {c : Char} (h : Text.isBlank c = false) :
    skipBlanks (c :: rest) = c :: rest := by
  rw [skipBlanks, List.dropWhile_cons, h, if_neg Bool.false_ne_true]

theorem isBlank_of_isDigit {c : Char} (h : c.isDigit = true) : Text.isBlank c = false := by
  have hdigit : 48 ≤ c.toNat ∧ c.toNat ≤ 57 := by
    simpa [Char.isDigit, UInt32.le_iff_toNat_le] using h
  simp only [Text.isBlank, Bool.or_eq_false_iff, Bool.and_eq_false_iff, decide_eq_false_iff_not,
    beq_eq_false_iff_ne]
  omega

theorem skipBlanks_digits {cs : List Char} (h : ∀ c ∈ cs, c.isDigit = true) (hne : cs ≠ []) :
    skipBlanks (cs ++ rest) = cs ++ rest := by
  cases cs with
  | nil => exact absurd rfl hne
  | cons c cs => exact skipBlanks_cons (isBlank_of_isDigit (h c List.mem_cons_self))

theorem readNumber?_paddedDigits {width n : Nat} (hwidth : 0 < width) (hn : n < tenPow width)
    (hrest : NoDigit rest) :
    readNumber? width (paddedDigits width n ++ rest) = some (n, rest) := by
  have hdigits : ∀ c ∈ paddedDigits width n, c.isDigit = true :=
    fun _ => isDigit_of_mem_paddedDigits
  have hlength := length_paddedDigits hwidth hn
  have hne := paddedDigits_ne_nil width n
  have htake : (paddedDigits width n).take width = paddedDigits width n :=
    List.take_of_length_le (Nat.le_of_eq hlength)
  rw [readNumber?, skipBlanks_digits hdigits hne, takeWhile_digits hdigits hrest, htake,
    if_neg (by rwa [List.isEmpty_iff]), number?_paddedDigits, Option.map_some, List.drop_left]

theorem readMark?_cons {mark : Char} (h : Text.isBlank mark = false) :
    readMark? mark (mark :: rest) = some rest := by
  rw [readMark?, skipBlanks_cons h]
  exact if_pos rfl

/-- A sign and any number of digits. -/
theorem signedYear_paddedDigits (sign : Int) (n : Nat) (hrest : NoDigit rest) :
    readYear?.signedYear sign (paddedDigits 4 n ++ rest) = some (sign * n, rest) := by
  have hdigits : ∀ c ∈ paddedDigits 4 n, c.isDigit = true := fun _ => isDigit_of_mem_paddedDigits
  rw [readYear?.signedYear, takeWhile_digits hdigits hrest,
    if_neg (by rw [List.isEmpty_iff]; exact paddedDigits_ne_nil 4 n), number?_paddedDigits,
    dropWhile_digits hdigits hrest]
  rfl

/-- Four digits at most, without a sign. -/
theorem readYear?_paddedDigits {n : Nat} (hn : n < tenPow 4) (hrest : NoDigit rest) :
    readYear? (paddedDigits 4 n ++ rest) = some ((n : Int), rest) := by
  have hdigits : ∀ c ∈ paddedDigits 4 n, c.isDigit = true := fun _ => isDigit_of_mem_paddedDigits
  have hne := paddedDigits_ne_nil 4 n
  have hnumber := readNumber?_paddedDigits (by decide) hn hrest
  rw [readYear?, skipBlanks_digits hdigits hne]
  generalize paddedDigits 4 n = digits at hdigits hne hnumber
  cases digits with
  | nil => exact absurd rfl hne
  | cons c digits =>
    have hc := hdigits c List.mem_cons_self
    rw [List.cons_append] at hnumber ⊢
    split
    · next h => cases h; cases hc
    · next h => cases h; cases hc
    · rw [hnumber]
      rfl

theorem readYear?_yearChars (year : Int) (hrest : NoDigit rest) :
    readYear? (yearChars year ++ rest) = some (year, rest) := by
  unfold yearChars
  by_cases hplain : 0 ≤ year ∧ year ≤ 9999
  · have hyear : (year.toNat : Int) = year := by omega
    have hlt : year.toNat < tenPow 4 := by
      show year.toNat < 10000
      omega
    rw [if_pos hplain, readYear?_paddedDigits hlt hrest, hyear]
  · rw [if_neg hplain, List.cons_append]
    by_cases hneg : year < 0
    · have hyear : -1 * (year.natAbs : Int) = year := by omega
      rw [if_pos hneg]
      refine (signedYear_paddedDigits (-1) year.natAbs hrest).trans ?_
      rw [hyear]
    · have hyear : 1 * (year.natAbs : Int) = year := by omega
      rw [if_neg hneg]
      refine (signedYear_paddedDigits 1 year.natAbs hrest).trans ?_
      rw [hyear]

/-! ## Date and time of day -/

theorem month_lt {d : Date} (h : d.isValid = true) : d.month < tenPow 2 ∧ d.day < tenPow 2 := by
  have hdays : d.day ≤ Date.daysInMonth d.year d.month ∧ d.month ≤ 12 := by
    simp only [Date.isValid, Bool.and_eq_true, decide_eq_true_eq] at h
    exact ⟨h.2, h.1.1.2⟩
  have hmost : Date.daysInMonth d.year d.month ≤ 31 := by
    unfold Date.daysInMonth
    split
    · split <;> omega
    · split <;> omega
  constructor
  · show d.month < 100
    omega
  · show d.day < 100
    omega

def dateChars (d : Date) : List Char :=
  yearChars d.year ++ '-' :: paddedDigits 2 d.month ++ '-' :: paddedDigits 2 d.day

theorem readDate?_dateChars {d : Date} (h : d.isValid = true) (hrest : NoDigit rest) :
    readDate? (dateChars d ++ rest) = some (d, rest) := by
  obtain ⟨hmonth, hday⟩ := month_lt h
  have hdash : ∀ cs, NoDigit ('-' :: cs) := fun _ => noDigit_cons rfl
  have hmark : ∀ cs, readMark? '-' ('-' :: cs) = some cs := fun _ => readMark?_cons rfl
  simp only [dateChars, List.append_assoc, List.cons_append, readDate?, Option.bind_eq_bind,
    readYear?_yearChars _ (hdash _), hmark, readNumber?_paddedDigits (by decide) hmonth (hdash _),
    readNumber?_paddedDigits (by decide) hday hrest, Option.bind_some, h, if_pos]
  rfl

theorem readFraction?_places {width n : Nat} (hwidth : 0 < width) (hle : width ≤ 9)
    (hn : n < tenPow width) (hrest : NoDigit rest) :
    readFraction? ('.' :: paddedDigits width n ++ rest) = some (n * tenPow (9 - width), rest) := by
  have hdigits : ∀ c ∈ paddedDigits width n, c.isDigit = true :=
    fun _ => isDigit_of_mem_paddedDigits
  have hlength := length_paddedDigits hwidth hn
  have htake : (paddedDigits width n).take 9 = paddedDigits width n :=
    List.take_of_length_le (by omega)
  have hempty : (paddedDigits width n).isEmpty = false :=
    List.isEmpty_eq_false_iff.2 (paddedDigits_ne_nil width n)
  simp only [List.cons_append, readFraction?, takeWhile_digits hdigits hrest, hempty, htake,
    number?_paddedDigits, hlength, dropWhile_digits hdigits hrest, Option.map_some,
    Bool.false_eq_true, if_false]

/-- Of the places of a fraction those left out are zeros. -/
theorem readFraction?_fractionChars {nanos : Nat} (h : nanos < 1000000000) :
    readFraction? (fractionChars nanos ++ 'Z' :: rest) = some (nanos, 'Z' :: rest) := by
  have hrest : NoDigit ('Z' :: rest) := noDigit_cons rfl
  unfold fractionChars
  split
  · next hzero =>
    rw [hzero]
    rfl
  split
  · next hmillis =>
    have hvalue : nanos / 1000000 * tenPow (9 - 3) = nanos := by
      show nanos / 1000000 * 1000000 = nanos
      omega
    have hlt : nanos / 1000000 < tenPow 3 := by
      show nanos / 1000000 < 1000
      omega
    rw [readFraction?_places (by decide) (by decide) hlt hrest, hvalue]
  split
  · next hmicros =>
    have hvalue : nanos / 1000 * tenPow (9 - 6) = nanos := by
      show nanos / 1000 * 1000 = nanos
      omega
    have hlt : nanos / 1000 < tenPow 6 := by
      show nanos / 1000 < 1000000
      omega
    rw [readFraction?_places (by decide) (by decide) hlt hrest, hvalue]
  · have hvalue : nanos * tenPow (9 - 9) = nanos := Nat.mul_one nanos
    rw [readFraction?_places (by decide) (by decide) h hrest, hvalue]

theorem noDigit_fractionChars (nanos : Nat) : NoDigit (fractionChars nanos ++ 'Z' :: rest) := by
  unfold fractionChars
  split
  · exact noDigit_cons rfl
  split
  · exact noDigit_cons rfl
  split
  · exact noDigit_cons rfl
  · exact noDigit_cons rfl

def clockChars (second fraction : Nat) : List Char :=
  paddedDigits 2 (second / 3600) ++ ':' :: paddedDigits 2 (second / 60 % 60) ++
    ':' :: secondChars (second % 60) fraction

/-- The seconds and places of a fraction that may go on through a leap second, as they are
written. -/
theorem exists_secondChars {second fraction : Nat} (hsecond : second < 60)
    (h : fraction < 1000000000 ∨ second = 59 ∧ fraction < 2000000000) :
    ∃ shown places, secondChars second fraction = paddedDigits 2 shown ++ fractionChars places ∧
      places < 1000000000 ∧
      (shown = 60 ∧ second = 59 ∧ fraction = places + 1000000000 ∨
        shown ≠ 60 ∧ shown ≤ 60 ∧ shown = second ∧ fraction = places) := by
  unfold secondChars
  split
  · next hplain => exact ⟨second, fraction, rfl, hplain, .inr (by omega)⟩
  · next hleap => exact ⟨second + 1, fraction - 1000000000, rfl, by omega, .inl (by omega)⟩

theorem readClock?_clockChars {second fraction : Nat} (hsecond : second < 86400)
    (h : fraction < 1000000000 ∨ second % 60 = 59 ∧ fraction < 2000000000) :
    readClock? (clockChars second fraction ++ 'Z' :: rest) =
      some (((second : Int), fraction), 'Z' :: rest) := by
  have hcolon : ∀ cs, NoDigit (':' :: cs) := fun _ => noDigit_cons rfl
  have hmark : ∀ cs, readMark? ':' (':' :: cs) = some cs := fun _ => readMark?_cons rfl
  have htwo : tenPow 2 = 100 := rfl
  have hhours : second / 3600 < tenPow 2 := by omega
  have hminutes : second / 60 % 60 < tenPow 2 := by omega
  obtain ⟨shown, places, hchars, hplaces, hshown⟩ :=
    exists_secondChars (Nat.mod_lt second (by decide)) h
  have hseconds : shown < tenPow 2 := by omega
  have hvalid : second / 3600 ≤ 23 ∧ second / 60 % 60 ≤ 59 ∧ shown ≤ 60 := by omega
  simp only [clockChars, hchars, List.append_assoc, List.cons_append, readClock?,
    Option.bind_eq_bind, readNumber?_paddedDigits (by decide) hhours (hcolon _), hmark,
    readNumber?_paddedDigits (by decide) hminutes (hcolon _),
    readNumber?_paddedDigits (by decide) hseconds (noDigit_fractionChars places),
    readFraction?_fractionChars hplaces, Option.bind_some]
  rw [if_pos hvalid]
  rcases hshown with ⟨h60, h59, rfl⟩ | ⟨hne, -, hsame, rfl⟩
  · have hsum : 3600 * (second / 3600 : Nat) + 60 * (second / 60 % 60 : Nat) + 59 =
        (second : Int) := by omega
    rw [if_pos h60, hsum]
    rfl
  · have hsum : 3600 * (second / 3600 : Nat) + 60 * (second / 60 % 60 : Nat) + (shown : Int) =
        (second : Int) := by omega
    rw [if_neg hne, hsum]
    rfl

/-! ## Instants -/

theorem chars_eq (t : Instant) :
    t.chars = dateChars (Date.ofDayNumber (t.second / secondsPerDay)) ++
      'T' :: (clockChars t.secondOfDay.toNat t.fraction ++ ['Z']) := by
  simp only [chars, dateChars, clockChars, List.append_assoc, List.cons_append]

theorem readZone?_universal : readZone? ['Z'] = some (0, []) := by decide

theorem ofParts?_parts (t : Instant) : ofParts? t.second t.fraction = some t :=
  dif_pos ⟨⟨t.first_le, t.le_last⟩, t.fraction_lt⟩

/-- The day and the second of the day make up the second. -/
theorem second_eq (t : Instant) :
    (Date.ofDayNumber (t.second / secondsPerDay)).dayNumber * secondsPerDay +
      t.secondOfDay.toNat = t.second := by
  rw [Date.dayNumber_ofDayNumber, secondOfDay]
  simp only [secondsPerDay]
  omega

/-- The second itself, without what has passed of it, lies within the calendar too. -/
theorem ofParts?_second (t : Instant) :
    ofParts? t.second 0 = some ⟨t.second, 0, t.first_le, t.le_last, .inl (by decide)⟩ :=
  dif_pos ⟨⟨t.first_le, t.le_last⟩, .inl (by decide)⟩

/-- What was written reads back, to the nanosecond. -/
theorem ofText?_toText (t : Instant) : ofText? t.toText = some t := by
  have hvalid := Date.isValid_ofDayNumber (t.second / secondsPerDay)
  have hsecond : t.secondOfDay.toNat < 86400 := by
    simp only [secondOfDay, secondsPerDay]
    omega
  have hfraction : t.fraction < 1000000000 ∨
      t.secondOfDay.toNat % 60 = 59 ∧ t.fraction < 2000000000 := by
    have hlt := t.fraction_lt
    simp only [secondOfDay, secondsPerDay]
    omega
  have hblanks : skipBlanks ['Z'] = ['Z'] ∧ (skipBlanks []).isEmpty = true := by decide
  have hend : isDateEnd 'T' = true := rfl
  have hdate : ∀ cs, NoDigit ('T' :: cs) := fun _ => noDigit_cons rfl
  rw [ofText?, toText, String.toList_ofList, chars_eq]
  simp only [ofChars?, Option.bind_eq_bind, readDate?_dateChars hvalid (hdate _),
    readClock?_clockChars hsecond hfraction, hblanks, hend, readZone?_universal, Option.bind_some,
    second_eq, ofParts?_second, ofParts?_parts, Int.sub_zero, if_true]

/-- A leap second has the second 60, and comes earlier where clocks are behind. -/
example :
    (ofText? "2016-12-31T18:59:60.5-05:00").map toText = some "2016-12-31T23:59:60.500Z" := by
  decide +kernel

end LeaseEscrow.Instant
