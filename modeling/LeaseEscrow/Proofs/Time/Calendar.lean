import LeaseEscrow.Time.Calendar

/-!
# Days and dates

Every day number has a date, which exists, and whose day number it is. A day is split into
400-year cycles, centuries, groups of four years and single years; the parts that are a day too
long are the ones that hold a leap day.
-/

namespace LeaseEscrow.Date

/-- Where a day stands: its year, counted from March, and its number in it. -/
structure YearDay where
  cycle : Int
  century : Int
  group : Int
  single : Int
  inYear : Int

namespace YearDay

def year (d : YearDay) : Int := 400 * d.cycle + 100 * d.century + 4 * d.group + d.single

/-- The parts are in range, and only a year before a leap year has a 366th day. -/
structure Fits (d : YearDay) : Prop where
  century : 0 ≤ d.century ∧ d.century ≤ 3
  group : 0 ≤ d.group ∧ d.group ≤ 24
  single : 0 ≤ d.single ∧ d.single ≤ 3
  inYear : 0 ≤ d.inYear ∧ d.inYear ≤ 365
  leap : d.inYear = 365 → d.single = 3 ∧ (d.group = 24 → d.century = 3)

/-- The days before the year. -/
theorem days_year {d : YearDay} (h : d.Fits) :
    365 * d.year + d.year / 4 - d.year / 100 + d.year / 400 =
      146097 * d.cycle + 36524 * d.century + 1461 * d.group + 365 * d.single := by
  obtain ⟨hc, hc'⟩ := h.century
  obtain ⟨hg, hg'⟩ := h.group
  obtain ⟨hs, hs'⟩ := h.single
  have h4 : d.year / 4 = 100 * d.cycle + 25 * d.century + d.group := by simp only [year]; omega
  have h100 : d.year / 100 = 4 * d.cycle + d.century := by simp only [year]; omega
  have h400 : d.year / 400 = d.cycle := by simp only [year]; omega
  rw [h4, h100, h400, year]
  omega

/-- The month, counted from March. -/
def month (d : YearDay) : Int := (5 * d.inYear + 2) / 153

/-- The date of a day: the year begins in January again. -/
def date (d : YearDay) : Date where
  year := if d.month < 10 then d.year else d.year + 1
  month := (if d.month < 10 then d.month + 3 else d.month - 9).toNat
  day := (d.inYear - (153 * d.month + 2) / 5 + 1).toNat

/-- The day stands behind the first of its month and before the first of the next one. -/
theorem inYear_of_month {d : YearDay} (h : d.Fits) :
    0 ≤ d.month ∧ d.month ≤ 11 ∧ (153 * d.month + 2) / 5 ≤ d.inYear ∧
      d.inYear < (153 * (d.month + 1) + 2) / 5 := by
  obtain ⟨hlow, hhigh⟩ := h.inYear
  have hmonth : d.month = (5 * d.inYear + 2) / 153 := rfl
  omega

theorem date_of_lt {d : YearDay} (h : d.month < 10) :
    d.date = ⟨d.year, (d.month + 3).toNat, (d.inYear - (153 * d.month + 2) / 5 + 1).toNat⟩ := by
  rw [date, if_pos h, if_pos h]

theorem date_of_not_lt {d : YearDay} (h : ¬ d.month < 10) :
    d.date = ⟨d.year + 1, (d.month - 9).toNat, (d.inYear - (153 * d.month + 2) / 5 + 1).toNat⟩ := by
  rw [date, if_neg h, if_neg h]

theorem dayNumber_date {d : YearDay} (h : d.Fits) :
    d.date.dayNumber =
      146097 * d.cycle + 36524 * d.century + 1461 * d.group + 365 * d.single + d.inYear -
        epochOffset := by
  obtain ⟨hlow, hhigh, hstart, -⟩ := inYear_of_month h
  have hyear : (if d.date.month ≤ 2 then d.date.year - 1 else d.date.year) = d.year := by
    by_cases hm : d.month < 10
    · rw [date_of_lt hm]
      show (if (d.month + 3).toNat ≤ 2 then d.year - 1 else d.year) = d.year
      rw [if_neg (by omega)]
    · rw [date_of_not_lt hm]
      show (if (d.month - 9).toNat ≤ 2 then d.year + 1 - 1 else d.year + 1) = d.year
      rw [if_pos (by omega), Int.add_sub_cancel]
  have hmonth : ((d.date.month : Int) + 9) % 12 = d.month := by
    by_cases hm : d.month < 10
    · rw [date_of_lt hm]
      show (((d.month + 3).toNat : Int) + 9) % 12 = d.month
      omega
    · rw [date_of_not_lt hm]
      show (((d.month - 9).toNat : Int) + 9) % 12 = d.month
      omega
  have hday : (d.date.day : Int) = d.inYear - (153 * d.month + 2) / 5 + 1 := by
    show ((d.inYear - (153 * d.month + 2) / 5 + 1).toNat : Int) = _
    omega
  rw [dayNumber, hyear, hmonth, hday, days_year h]
  omega

theorem isLeapYear_succ_year {d : YearDay} (h : d.Fits) (hday : d.inYear = 365) :
    isLeapYear (d.year + 1) = true := by
  obtain ⟨hsingle, hcentury⟩ := h.leap hday
  obtain ⟨hg, hg'⟩ := h.group
  obtain ⟨hc, hc'⟩ := h.century
  have h4 : (d.year + 1) % 4 = 0 := by simp only [year]; omega
  have h400 : (d.year + 1) % 100 = 0 → (d.year + 1) % 400 = 0 := by simp only [year]; omega
  simp only [isLeapYear, h4, beq_self_eq_true, Bool.true_and, Bool.or_eq_true, bne_iff_ne,
    beq_iff_eq]
  by_cases h100 : (d.year + 1) % 100 = 0
  · exact .inr (h400 h100)
  · exact .inl h100

theorem isValid_date {d : YearDay} (h : d.Fits) : d.date.isValid = true := by
  obtain ⟨hlow, hhigh, hstart, hend⟩ := inYear_of_month h
  obtain ⟨-, hlast⟩ := h.inYear
  by_cases hm : d.month < 10
  · -- From March to December months have 31 days, four of them 30.
    rw [date_of_lt hm]
    simp only [isValid, daysInMonth, Bool.and_eq_true, decide_eq_true_eq]
    rw [if_neg (by omega)]
    refine ⟨⟨⟨by omega, by omega⟩, by omega⟩, ?_⟩
    split <;> omega
  · rw [date_of_not_lt hm]
    simp only [isValid, daysInMonth, Bool.and_eq_true, decide_eq_true_eq]
    refine ⟨⟨⟨by omega, by omega⟩, by omega⟩, ?_⟩
    by_cases hfebruary : d.month = 11
    · -- The year ends in February, which has its 29th day on the 366th of the year.
      rw [if_pos (by omega)]
      by_cases hleap : d.inYear = 365
      · rw [isLeapYear_succ_year h hleap, if_pos rfl]
        omega
      · split <;> omega
    · rw [if_neg (by omega), if_neg (by omega)]
      omega

end YearDay

/-- Where the day with this number stands. -/
def yearDay (n : Int) : YearDay :=
  let n := n + epochOffset
  let inCycle := n % 146097
  let century := min (inCycle / 36524) 3
  let inCentury := inCycle - 36524 * century
  let group := inCentury / 1461
  let inGroup := inCentury - 1461 * group
  let single := min (inGroup / 365) 3
  ⟨n / 146097, century, group, single, inGroup - 365 * single⟩

theorem ofDayNumber_eq (n : Int) : ofDayNumber n = (yearDay n).date := rfl

/-- Of four units the last may be one longer: it takes what would open a fifth. -/
theorem split_in_four {n unit : Int} (hunit : 0 < unit) (hlow : 0 ≤ n) (hhigh : n ≤ 4 * unit) :
    (0 ≤ min (n / unit) 3 ∧ min (n / unit) 3 ≤ 3) ∧
      (0 ≤ n - unit * min (n / unit) 3 ∧ n - unit * min (n / unit) 3 ≤ unit) ∧
      (n - unit * min (n / unit) 3 = unit → min (n / unit) 3 = 3) := by
  have hsplit := Int.mul_ediv_add_emod n unit
  have hrest := Int.emod_nonneg n (Int.ne_of_gt hunit)
  have hrest' := Int.emod_lt_of_pos n hunit
  have hquotient : 0 ≤ n / unit := Int.ediv_nonneg hlow (Int.le_of_lt hunit)
  generalize n / unit = quotient at hsplit hquotient
  generalize n % unit = rest at hsplit hrest hrest'
  by_cases hcap : quotient ≤ 3
  · rw [Int.min_eq_left hcap]
    omega
  · have hle : unit * 4 ≤ unit * quotient := 
      Int.mul_le_mul_of_nonneg_left (by omega) (Int.le_of_lt hunit)
    rw [Int.min_eq_right (by omega)]
    omega

/-- The parts of a day number make it up, and they fit. -/
theorem yearDay_spec (n : Int) :
    (yearDay n).Fits ∧
      146097 * (yearDay n).cycle + 36524 * (yearDay n).century + 1461 * (yearDay n).group +
        365 * (yearDay n).single + (yearDay n).inYear = n + epochOffset := by
  simp only [yearDay]
  generalize n + epochOffset = n
  have hcycle := Int.mul_ediv_add_emod n 146097
  obtain ⟨hlow, hhigh⟩ : 0 ≤ n % 146097 ∧ n % 146097 ≤ 4 * 36524 := by omega
  generalize n % 146097 = inCycle at hcycle hlow hhigh
  obtain ⟨hcentury, hinCentury, hlast⟩ := split_in_four (by decide) hlow hhigh
  generalize min (inCycle / 36524) 3 = century at hcentury hinCentury hlast
  generalize hk : inCycle - 36524 * century = inCentury at hinCentury hlast
  obtain ⟨hinGroup, hinGroup'⟩ : 0 ≤ inCentury - 1461 * (inCentury / 1461) ∧
      inCentury - 1461 * (inCentury / 1461) ≤ 4 * 365 := by omega
  obtain ⟨hsingle, hinYear, hfour⟩ := split_in_four (by decide) hinGroup hinGroup'
  constructor
  · exact ⟨hcentury, by simp only; omega, hsingle, hinYear, by simp only; omega⟩
  · omega

theorem dayNumber_ofDayNumber (n : Int) : (ofDayNumber n).dayNumber = n := by
  obtain ⟨hfits, hparts⟩ := yearDay_spec n
  rw [ofDayNumber_eq, YearDay.dayNumber_date hfits, hparts]
  omega

theorem isValid_ofDayNumber (n : Int) : (ofDayNumber n).isValid = true := by
  rw [ofDayNumber_eq]
  exact YearDay.isValid_date (yearDay_spec n).1

end LeaseEscrow.Date
