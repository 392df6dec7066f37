import LeaseEscrow.Time.Instant
import Mathlib.Algebra.Order.Ring.Int

/-!
# Arithmetic of instants

Outside of leap seconds an instant is its count of nanoseconds, and order, sums and differences
are those of the counts. A leap second makes a difference in three places: what is added to it
starts from the second before it (`repeated`), it comes before the next second however much of it
has passed (`held`), and a difference counts it by the time of day of the other end. One that ends
a day, as all leap seconds of universal time do, is never counted when it ends a difference
(`nanosSince_of_not_isStray`).
-/

namespace LeaseEscrow.Instant

variable {t u v start later : Instant} {s : Span} {n m : ℕ}

/-- What a clock shows that runs through a second again in the leap second after it. -/
def repeated (t : Instant) : ℤ := if t.isLeap then t.nanos - nanosPerSecond else t.nanos

/-- What a clock shows that stands still in a leap second. -/
def held (t : Instant) : ℤ := min t.nanos (t.second * nanosPerSecond + 999999999)

/-- In a leap second that does not end its day. -/
def isStray (t : Instant) : Bool := t.isLeap && t.secondOfDay != 86399

/-- Where the calendar begins. -/
def first : Instant := ⟨firstSecond, 0, Int.le_refl _, by decide, .inl (by decide)⟩

/-- Where the calendar ends. -/
def last : Instant := ⟨lastSecond, 999999999, by decide, Int.le_refl _, .inl (by decide)⟩

theorem nanos_first : first.nanos = -8334601228800000000000 := by decide

theorem nanos_last : last.nanos = 8210266876799999999999 := by decide

theorem isLeap_iff : t.isLeap = true ↔ 1000000000 ≤ t.fraction := decide_eq_true_iff

theorem isLeap_eq_false_iff : t.isLeap = false ↔ t.fraction < 1000000000 :=
  decide_eq_false_iff_not.trans Nat.not_le

theorem isStray_of_not_isLeap (h : t.isLeap = false) : t.isStray = false := by
  rw [isStray, h, Bool.false_and]

/-! ## Order -/

instance : Preorder Instant where
  le_refl t := .inr ⟨rfl, Nat.le_refl _⟩
  le_trans t u v := by
    rintro (h | ⟨h, hle⟩) (h' | ⟨h', hle'⟩)
    · exact .inl (h.trans h')
    · exact .inl (h' ▸ h)
    · exact .inl (h ▸ h')
    · exact .inr ⟨h.trans h', hle.trans hle'⟩
  lt_iff_le_not_ge t u := by
    show _ ∨ _ ↔ (_ ∨ _) ∧ ¬ (_ ∨ _)
    omega

theorem le_def : t ≤ u ↔ t.second < u.second ∨ t.second = u.second ∧ t.fraction ≤ u.fraction :=
  Iff.rfl

theorem held_of_not_isLeap (h : t.isLeap = false) : t.held = t.nanos := by
  rw [isLeap_eq_false_iff] at h
  simp only [held, nanos, nanosPerSecond]
  omega

theorem repeated_of_not_isLeap (h : t.isLeap = false) : t.repeated = t.nanos := by
  rw [repeated, h]
  rfl

/-- What is outside of leap seconds has come when a clock that stands still in them shows it. -/
theorem le_iff_held (h : t.isLeap = false) : t ≤ u ↔ t.nanos ≤ u.held := by
  rw [isLeap_eq_false_iff] at h
  rw [le_def]
  simp only [held, nanos, nanosPerSecond]
  omega

theorem nanos_le_of_le (h : t ≤ u) (ht : t.isLeap = false) : t.nanos ≤ u.nanos :=
  ((le_iff_held ht).1 h).trans (min_le_left _ _)

theorem nanos_le_last (t : Instant) : t.nanos ≤ last.nanos := by
  have hlast := t.le_last
  have hfraction := t.fraction_lt
  rw [nanos_last]
  simp only [nanos, nanosPerSecond, lastSecond] at *
  omega

theorem first_le_repeated (t : Instant) : first.nanos ≤ t.repeated := by
  have hfirst := t.first_le
  rw [nanos_first]
  simp only [repeated, isLeap_iff, nanos, nanosPerSecond, firstSecond] at *
  split
  · omega
  · omega

/-! ## Later instants -/

theorem ofParts?_eq_some_iff {second : ℤ} {fraction : ℕ} :
    ofParts? second fraction = some t ↔ t.second = second ∧ t.fraction = fraction := by
  rw [ofParts?]
  constructor
  · intro h
    split at h
    · cases h
      exact ⟨rfl, rfl⟩
    · cases h
  · rintro ⟨rfl, rfl⟩
    exact dif_pos ⟨⟨t.first_le, t.le_last⟩, t.fraction_lt⟩

theorem ofNanos?_eq_some_iff {nanos : ℤ} :
    ofNanos? nanos = some t ↔ t.isLeap = false ∧ t.nanos = nanos := by
  rw [ofNanos?, ofParts?_eq_some_iff, isLeap_eq_false_iff, Instant.nanos]
  simp only [nanosPerSecond]
  omega

/-- A count within the calendar is that of an instant. -/
theorem exists_ofNanos? {nanos : ℤ} (hfirst : first.nanos ≤ nanos) (hlast : nanos ≤ last.nanos) :
    ∃ t, ofNanos? nanos = some t := by
  rw [nanos_first] at hfirst
  rw [nanos_last] at hlast
  rw [ofNanos?, ofParts?, dif_pos]
  · exact ⟨_, rfl⟩
  · simp only [firstSecond, lastSecond, nanosPerSecond]
    omega

theorem add?_of_not_isLeap (h : t.isLeap = false) (s : Span) :
    t.add? s = ofNanos? (t.nanos + s.nanos) := by
  rw [add?, h]
  rfl

/-- A span of a second or more leaves a leap second. -/
theorem add?_of_second_le (hs : nanosPerSecond ≤ s.nanos) :
    t.add? s = ofNanos? (t.repeated + s.nanos) := by
  cases hleap : t.isLeap with
  | false => rw [add?_of_not_isLeap hleap, repeated_of_not_isLeap hleap]
  | true =>
    have hfraction := isLeap_iff.1 hleap
    simp only [nanosPerSecond] at hs
    rw [add?, if_pos ⟨hleap, by simp only [nanosPerSecond]; omega⟩,
      if_neg (by simp only [nanosPerSecond]; omega), repeated, if_pos hleap]

theorem add?_of_zero (hs : s.nanos = 0) : t.add? s = some t := by
  cases hleap : t.isLeap with
  | false => rw [add?_of_not_isLeap hleap, hs, Int.add_zero, ofNanos?_eq_some_iff]; exact ⟨hleap, rfl⟩
  | true =>
    have hfraction := isLeap_iff.1 hleap
    have hlt := t.fraction_lt
    rw [add?, hs, Int.add_zero, if_pos ⟨hleap, by simp only [nanosPerSecond]; omega⟩,
      if_pos (by simp only [nanosPerSecond]; omega), Int.toNat_natCast, ofParts?_eq_some_iff]
    exact ⟨rfl, rfl⟩

/-! ## Hours later -/

theorem addHours?_zero (t : Instant) : t.addHours? 0 = some t :=
  add?_of_zero (s := ⟨0, by decide⟩) rfl

/-- The longest span is longer than the calendar. -/
theorem addHours?_of_pos (hn : 0 < n) :
    t.addHours? n = ofNanos? (t.repeated + n * nanosPerHour) := by
  rw [addHours?, Span.ofHours?, Span.ofNanos?]
  split
  · refine add?_of_second_le ?_
    show nanosPerSecond ≤ n * nanosPerHour
    simp only [nanosPerSecond, nanosPerHour]
    omega
  · next hlong =>
    rw [Option.bind_none, eq_comm, Option.eq_none_iff_forall_ne_some]
    intro u hu
    obtain ⟨-, hnanos⟩ := ofNanos?_eq_some_iff.1 hu
    have hfirst := t.first_le_repeated
    have hlast := u.nanos_le_last
    rw [nanos_first] at hfirst
    rw [nanos_last] at hlast
    apply hlong
    simp only [nanosPerHour, Span.longest] at *
    omega

theorem addHours?_eq_some_iff (hn : 0 < n) :
    t.addHours? n = some u ↔ u.isLeap = false ∧ u.nanos = t.repeated + n * nanosPerHour := by
  rw [addHours?_of_pos hn, ofNanos?_eq_some_iff]

theorem isLeap_of_addHours? (h : t.addHours? n = some u) (ht : t.isLeap = false) :
    u.isLeap = false := by
  rcases Nat.eq_zero_or_pos n with rfl | hn
  · obtain rfl := Option.some.inj ((addHours?_zero t).symm.trans h)
    exact ht
  · exact ((addHours?_eq_some_iff hn).1 h).1

theorem nanos_of_addHours? (h : t.addHours? n = some u) (ht : t.isLeap = false) :
    u.nanos = t.nanos + n * nanosPerHour := by
  rcases Nat.eq_zero_or_pos n with rfl | hn
  · obtain rfl := Option.some.inj ((addHours?_zero t).symm.trans h)
    rw [Nat.cast_zero, Int.zero_mul, Int.add_zero]
  · rw [((addHours?_eq_some_iff hn).1 h).2, repeated_of_not_isLeap ht]

/-- Hours can be added in two goes. -/
theorem addHours?_addHours? (h : t.addHours? n = some u) :
    u.addHours? m = t.addHours? (n + m) := by
  rcases Nat.eq_zero_or_pos n with rfl | hn
  · obtain rfl := Option.some.inj ((addHours?_zero t).symm.trans h)
    rw [Nat.zero_add]
  · rcases Nat.eq_zero_or_pos m with rfl | hm
    · rw [addHours?_zero, Nat.add_zero, h]
    · obtain ⟨hleap, hnanos⟩ := (addHours?_eq_some_iff hn).1 h
      rw [addHours?_of_pos hm, addHours?_of_pos (Nat.add_pos_left hn m),
        repeated_of_not_isLeap hleap, hnanos, Nat.cast_add, Int.add_mul, Int.add_assoc]

theorem le_of_addHours? (h : t.addHours? n = some u) : t ≤ u := by
  rcases Nat.eq_zero_or_pos n with rfl | hn
  · exact le_of_eq (Option.some.inj ((addHours?_zero t).symm.trans h))
  · obtain ⟨hleap, hnanos⟩ := (addHours?_eq_some_iff hn).1 h
    have hlt := t.fraction_lt
    rw [isLeap_eq_false_iff] at hleap
    rw [le_def]
    simp only [repeated, isLeap_iff, nanos, nanosPerSecond, nanosPerHour] at *
    split at hnanos
    · omega
    · omega

/-! ## Differences -/

theorem nanosSince_self (t : Instant) : t.nanosSince t = 0 := by
  rw [nanosSince, if_neg fun h => absurd h.2 (lt_irrefl _), if_neg fun h => absurd h.2 (lt_irrefl _)]
  omega

/-- A leap second that ends a day is never counted by differences that end in it. -/
theorem nanosSince_of_not_isStray (ht : t.isStray = false) (hstart : start.isLeap = false) :
    t.nanosSince start = t.nanos - start.nanos := by
  have hearlier : ¬ (t.isLeap = true ∧ t.secondOfDay < start.secondOfDay) := by
    rintro ⟨hleap, hlt⟩
    rw [isStray, hleap, Bool.true_and, bne_eq_false_iff_eq] at ht
    simp only [secondOfDay, secondsPerDay] at *
    omega
  rw [nanosSince, hstart, if_neg fun h => absurd h.1 Bool.false_ne_true, if_neg hearlier,
    Int.add_zero]

theorem nanosSince_le (t start : Instant) : t.nanosSince start ≤ t.nanos - start.repeated := by
  rw [nanosSince, repeated]
  simp only [nanosPerSecond]
  split
  · next h =>
    rw [if_pos h.1]
    omega
  · split
    · split <;> omega
    · split <;> omega

/-- Hours that have passed lead to a time of the calendar. -/
theorem exists_addHours?_of_le (h : (n : ℤ) ≤ t.hoursSince start) :
    ∃ later, start.addHours? n = some later := by
  rcases Nat.eq_zero_or_pos n with rfl | hn
  · exact ⟨start, addHours?_zero start⟩
  · have hpassed := t.nanosSince_le start
    have hlast := t.nanos_le_last
    have hfirst := start.first_le_repeated
    rw [addHours?_of_pos hn]
    simp only [hoursSince, nanosPerHour] at *
    exact exists_ofNanos? (by omega) (by omega)

/-- Hours between two instants fit a word. -/
theorem toNat_hoursSince_lt (t start : Instant) : (t.hoursSince start).toNat < UInt64.size := by
  have hpassed := t.nanosSince_le start
  have hlast := t.nanos_le_last
  have hfirst := start.first_le_repeated
  rw [nanos_last] at hlast
  rw [nanos_first] at hfirst
  simp only [hoursSince, nanosPerHour, UInt64.size]
  omega

/-- Whole hours since a later start are the fewer by the hours in between. -/
theorem hoursSince_addHours? (h : start.addHours? n = some later) (hstart : start.isLeap = false)
    (ht : t.isStray = false) : t.hoursSince later = t.hoursSince start - n := by
  have hnanos := nanos_of_addHours? h hstart
  rw [hoursSince, hoursSince, nanosSince_of_not_isStray ht (isLeap_of_addHours? h hstart),
    nanosSince_of_not_isStray ht hstart, hnanos, nanosPerHour]
  omega

end LeaseEscrow.Instant
