import LeaseEscrow.Proofs.Records
import LeaseEscrow.Proofs.Sample
import LeaseEscrow.Proofs.Time.Instant
import LeaseEscrow.Settlement.Lock

/-!
# When deposits unlock

Outside of leap seconds, the deposits of a closed resource are due exactly when the period of the
lock has passed since it was closed. The bound on the length of spans and the end of the calendar do
not matter: a period beyond either of them does not pass (`release_is_exact`). A leap second is
taken for the second before it when a resource is closed in it, and for the end of that second when
deposits are looked at in it, so that they can be released a second early or late
(`leap_second_shifts_release`).
-/

namespace LeaseEscrow

namespace Params

variable {p : Params} {closed now later : Instant}

/-- The period has passed since the closing. -/
def Unlocked (p : Params) (closed now : Instant) : Prop :=
  ∃ unlocked, closed.add? p.releasePeriod = some unlocked ∧ unlocked ≤ now

theorem Unlocked.mono (h : p.Unlocked closed now) (hle : now ≤ later) : p.Unlocked closed later := by
  obtain ⟨unlocked, hadd, hpassed⟩ := h
  exact ⟨unlocked, hadd, hpassed.trans hle⟩

/-- The period is cut in two places, at the largest signed word and at the longest span of whole
seconds, and what is left of it is a span. -/
theorem ofSeconds?_cut (p : Params) :
    Span.ofSeconds? (min (min p.releaseSeconds.toNat (2 ^ 63 - 1)) ((2 ^ 63 - 1) / 1000) : ℕ) =
      some p.releasePeriod := by
  have hcut : min (min p.releaseSeconds.toNat (2 ^ 63 - 1)) ((2 ^ 63 - 1) / 1000) =
      min p.releaseSeconds.toNat 9223372036854775 := by omega
  rw [hcut, Span.ofSeconds?, Span.ofNanos?]
  exact dif_pos p.releasePeriod.bounded

theorem nanos_releasePeriod (p : Params) :
    p.releasePeriod.nanos = (min p.releaseSeconds.toNat 9223372036854775 : ℕ) * nanosPerSecond := rfl

/-- A period that was cut goes past the end of the calendar from any time on, and so does what was
left of it. -/
theorem add?_releasePeriod (hp : 0 < p.releaseSeconds.toNat) (t : Instant) :
    t.add? p.releasePeriod =
      Instant.ofNanos? (t.repeated + p.releaseSeconds.toNat * nanosPerSecond) := by
  have hfirst := t.first_le_repeated
  rw [Instant.nanos_first] at hfirst
  have hsecond : nanosPerSecond ≤ p.releasePeriod.nanos := by
    rw [nanos_releasePeriod, nanosPerSecond]
    omega
  rw [Instant.add?_of_second_le hsecond, nanos_releasePeriod]
  by_cases hcut : p.releaseSeconds.toNat ≤ 9223372036854775
  · rw [Nat.min_eq_left hcut]
  · have hbeyond : ∀ {n : ℤ}, 8210266876799999999999 < n → Instant.ofNanos? n = none := by
      intro n hn
      rw [Option.eq_none_iff_forall_ne_some]
      intro u hu
      have hlast := u.nanos_le_last
      rw [(Instant.ofNanos?_eq_some_iff.1 hu).2, Instant.nanos_last] at hlast
      omega
    rw [nanosPerSecond, hbeyond (by omega), hbeyond (by omega)]

theorem add?_releasePeriod_of_zero (hp : p.releaseSeconds.toNat = 0) (t : Instant) :
    t.add? p.releasePeriod = some t := by
  refine Instant.add?_of_zero ?_
  rw [nanos_releasePeriod, hp]
  rfl

theorem unlocked_of_zero (hp : p.releaseSeconds.toNat = 0) :
    p.Unlocked closed now ↔ closed ≤ now := by
  simp only [Unlocked, add?_releasePeriod_of_zero hp, Option.some.injEq, exists_eq_left']

theorem unlocked_of_pos (hp : 0 < p.releaseSeconds.toNat) :
    p.Unlocked closed now ↔
      closed.repeated + p.releaseSeconds.toNat * nanosPerSecond ≤ now.held := by
  simp only [Unlocked, add?_releasePeriod hp]
  constructor
  · rintro ⟨unlocked, hunlocked, hpassed⟩
    obtain ⟨hleap, hnanos⟩ := Instant.ofNanos?_eq_some_iff.1 hunlocked
    exact hnanos ▸ (Instant.le_iff_held hleap).1 hpassed
  · intro hpassed
    -- What has passed by `now` lies between two times of the calendar.
    have hlow : Instant.first.nanos ≤
        closed.repeated + p.releaseSeconds.toNat * nanosPerSecond := by
      have hfirst := closed.first_le_repeated
      rw [nanosPerSecond]
      omega
    have hhigh : now.held ≤ Instant.last.nanos := (min_le_left _ _).trans now.nanos_le_last
    obtain ⟨unlocked, hunlocked⟩ := Instant.exists_ofNanos? hlow (hpassed.trans hhigh)
    obtain ⟨hleap, hnanos⟩ := Instant.ofNanos?_eq_some_iff.1 hunlocked
    exact ⟨unlocked, hunlocked, (Instant.le_iff_held hleap).2 (hnanos.trans_le hpassed)⟩

/-- Outside of leap seconds the period is measured by what has passed. -/
theorem unlocked_iff_nanosSince (hclosed : closed.isLeap = false) (hnow : now.isLeap = false) :
    p.Unlocked closed now ↔ p.releaseSeconds.toNat * nanosPerSecond ≤ now.nanosSince closed := by
  rw [Instant.nanosSince_of_not_isStray (Instant.isStray_of_not_isLeap hnow) hclosed]
  rcases Nat.eq_zero_or_pos p.releaseSeconds.toNat with hzero | hpos
  · rw [unlocked_of_zero hzero, Instant.le_iff_held hclosed, Instant.held_of_not_isLeap hnow, hzero,
      Nat.cast_zero, zero_mul, sub_nonneg]
  · rw [unlocked_of_pos hpos, Instant.held_of_not_isLeap hnow,
      Instant.repeated_of_not_isLeap hclosed, le_sub_iff_add_le']

/-- A period that ends after the calendar does not pass. -/
theorem not_unlocked_of_endless
    (hend : Instant.last.nanos < closed.repeated + p.releaseSeconds.toNat * nanosPerSecond) :
    ¬ p.Unlocked closed now := by
  have hnow := now.nanos_le_last
  rcases Nat.eq_zero_or_pos p.releaseSeconds.toNat with hzero | hpos
  · have hclosed := closed.nanos_le_last
    have hle : closed.repeated ≤ closed.nanos := by
      rw [Instant.repeated, nanosPerSecond]
      split <;> omega
    rw [hzero, Nat.cast_zero, zero_mul, add_zero] at hend
    exact absurd (hle.trans hclosed) (not_le.2 hend)
  · rw [unlocked_of_pos hpos, not_le]
    exact (min_le_left _ _).trans_lt (hnow.trans_lt hend)

end Params

namespace DepositLock

variable {p : Params} {x : Resource} {now : Instant}

theorem unlocksAt?_eq_some_iff {unlocked : Instant} :
    (ofParams p).unlocksAt? x = some unlocked ↔
      x.status = .closed ∧ ∃ closed, x.closedAt = some closed ∧
        closed.add? p.releasePeriod = some unlocked := by
  rw [unlocksAt?, Option.ite_none_right_eq_some, Option.bind_eq_some_iff]
  rfl

theorem isDue_iff :
    (ofParams p).isDue x now = true ↔
      x.deposits ≠ [] ∧ x.status = .closed ∧ ∃ closed, x.closedAt = some closed ∧
        p.Unlocked closed now := by
  rw [isDue, Bool.and_eq_true, Bool.not_eq_true', List.isEmpty_eq_false_iff, Option.any_eq_true]
  refine and_congr_right fun _ => ?_
  simp only [unlocksAt?_eq_some_iff, decide_eq_true_eq, Params.Unlocked]
  constructor
  · rintro ⟨unlocked, ⟨hstatus, closed, hclosed, hadd⟩, hpassed⟩
    exact ⟨hstatus, closed, hclosed, unlocked, hadd, hpassed⟩
  · rintro ⟨hstatus, closed, hclosed, unlocked, hadd, hpassed⟩
    exact ⟨unlocked, ⟨hstatus, closed, hclosed, hadd⟩, hpassed⟩

/-- Once the deposits are due they stay due. -/
theorem isDue_mono {later : Instant} (hle : now ≤ later) (hdue : (ofParams p).isDue x now = true) :
    (ofParams p).isDue x later = true := by
  obtain ⟨hdeposits, hstatus, closed, hclosed, hpassed⟩ := isDue_iff.1 hdue
  exact isDue_iff.2 ⟨hdeposits, hstatus, closed, hclosed, hpassed.mono hle⟩

/-- A period that ends after the calendar has not passed at any time. -/
theorem isDue_eq_false_of_endless (h : ∀ closed, x.closedAt = some closed →
    Instant.last.nanos < closed.repeated + p.releaseSeconds.toNat * nanosPerSecond) :
    (ofParams p).isDue x now = false := by
  rw [Bool.eq_false_iff, Ne, isDue_iff]
  rintro ⟨-, -, closed, hclosed, hpassed⟩
  exact Params.not_unlocked_of_endless (h closed hclosed) hpassed

/-- Deposits are due exactly when the resource is closed, has some, and its closing lies at least the
period of the parameters back, counted in nanoseconds without any bound, as long as neither the
closing nor the present lies in a leap second. At any time they are due when a clock that stands
still in leap seconds shows the end of the period, counted from what a clock showed at the closing
that repeats a second instead; and they stay due from then on. That the period is cut to what a
span can hold is not seen: the cut period is a span, and neither it nor one that ends after the
calendar is ever over. -/
theorem release_is_exact (p : Params) (x : Resource) :
    Span.ofSeconds? (min (min p.releaseSeconds.toNat (2 ^ 63 - 1)) ((2 ^ 63 - 1) / 1000) : ℕ) =
      some (ofParams p).period ∧
    (∀ unlocked, (ofParams p).unlocksAt? x = some unlocked ↔
      x.status = .closed ∧ ∃ closed, x.closedAt = some closed ∧
        if p.releaseSeconds.toNat = 0 then unlocked = closed
        else unlocked.isLeap = false ∧
          unlocked.nanos = closed.repeated + p.releaseSeconds.toNat * nanosPerSecond) ∧
    (∀ closed now, x.closedAt = some closed → closed.isLeap = false → now.isLeap = false →
      ((ofParams p).isDue x now = true ↔ x.status = .closed ∧ x.deposits ≠ [] ∧
        p.releaseSeconds.toNat * nanosPerSecond ≤ now.nanosSince closed)) ∧
    (∀ now, (ofParams p).isDue x now = true ↔
      x.status = .closed ∧ x.deposits ≠ [] ∧ ∃ closed, x.closedAt = some closed ∧
        if p.releaseSeconds.toNat = 0 then closed ≤ now
        else closed.repeated + p.releaseSeconds.toNat * nanosPerSecond ≤ now.held) ∧
    (∀ now later, now ≤ later → (ofParams p).isDue x now = true →
      (ofParams p).isDue x later = true) ∧
    ((ofParams p).period.nanos ≠ p.releaseSeconds.toNat * nanosPerSecond →
      ∀ now, (ofParams p).isDue x now = false) ∧
    ((∀ closed, x.closedAt = some closed →
        Instant.last.nanos < closed.repeated + p.releaseSeconds.toNat * nanosPerSecond) →
      ∀ now, (ofParams p).isDue x now = false) := by
  refine ⟨p.ofSeconds?_cut, fun unlocked => ?_, fun closed now hclosed hleap hnow => ?_,
    fun now => ?_, fun now later => isDue_mono, fun hcut now => ?_,
    fun hend now => isDue_eq_false_of_endless hend⟩
  · rw [unlocksAt?_eq_some_iff]
    rcases Nat.eq_zero_or_pos p.releaseSeconds.toNat with hzero | hpos
    · simp only [Params.add?_releasePeriod_of_zero hzero, if_pos hzero, Option.some.injEq,
        @eq_comm _ unlocked]
    · simp only [Params.add?_releasePeriod hpos, if_neg hpos.ne', Instant.ofNanos?_eq_some_iff]
  · rw [isDue_iff, and_left_comm, ← Params.unlocked_iff_nanosSince hleap hnow]
    simp only [hclosed, Option.some.injEq, exists_eq_left']
  · rw [isDue_iff, and_left_comm]
    rcases Nat.eq_zero_or_pos p.releaseSeconds.toNat with hzero | hpos
    · simp only [Params.unlocked_of_zero hzero, if_pos hzero]
    · simp only [Params.unlocked_of_pos hpos, if_neg hpos.ne']
  · -- The calendar is shorter than the longest span.
    refine isDue_eq_false_of_endless fun closed _ => ?_
    have hfirst := closed.first_le_repeated
    rw [Instant.nanos_first] at hfirst
    rw [ofParams, Params.nanos_releasePeriod] at hcut
    rw [Instant.nanos_last]
    simp only [nanosPerSecond] at *
    omega

end DepositLock

namespace Sample

/-- The owner's node after it was closed, with the deposit still on record. -/
def lockedNode (closed : Instant) : Resource :=
  { activeNode nodeId false with status := .closed, closedAt := some closed }

end Sample

/-- After seven days the deposits are due, and a nanosecond before they are not. They are never due
when the node was closed at the end of the calendar, nor under the largest period, be it closed when
the calendar begins. -/
theorem due_after_seven_days :
    let lock := DepositLock.ofParams .default
    let longest := DepositLock.ofParams { Params.default with releaseSeconds := largestWord }
    let week : Instant := ⟨604800, 0, by decide, by decide, by decide⟩
    let almost : Instant := ⟨604799, 999999999, by decide, by decide, by decide⟩
    let node := Sample.lockedNode (Sample.block 0).time
    lock.isDue node almost = false ∧ lock.isDue node week = true ∧
      lock.isDue node Instant.last = true ∧
      (∀ now, lock.isDue (Sample.lockedNode Instant.last) now = false) ∧
      ∀ now, longest.isDue (Sample.lockedNode Instant.first) now = false := by
  intro lock longest week almost node
  obtain ⟨-, -, hdue, -, hmono, -, -⟩ := DepositLock.release_is_exact .default node
  have halmost : ¬ lock.isDue node almost = true := by
    rw [hdue _ almost rfl rfl rfl]
    rintro ⟨-, -, hpassed⟩
    exact absurd hpassed (by decide)
  have hweek : lock.isDue node week = true :=
    (hdue _ week rfl rfl rfl).2 ⟨rfl, List.cons_ne_nil _ _, by decide⟩
  refine ⟨Bool.eq_false_iff.2 halmost, hweek, hmono week Instant.last (by decide) hweek, ?_, ?_⟩
  · obtain ⟨-, -, -, -, -, -, hend⟩ :=
      DepositLock.release_is_exact .default (Sample.lockedNode Instant.last)
    refine hend ?_
    rintro closed ⟨⟩
    decide
  · obtain ⟨-, -, -, -, -, hcut, -⟩ := DepositLock.release_is_exact
      { Params.default with releaseSeconds := largestWord } (Sample.lockedNode Instant.first)
    exact hcut (by decide)

/-- In a leap second at the end of a day the deposits of a node that was closed when the day began
are not released, although more than a day has passed; and those of a node that is closed in that
leap second are released before a day has passed. -/
theorem leap_second_shifts_release :
    let lock := DepositLock.ofParams { Params.default with releaseSeconds := 86400 }
    let midnight : Instant := ⟨0, 0, by decide, by decide, by decide⟩
    let leap : Instant := ⟨86399, 1500000000, by decide, by decide, by decide⟩
    let later : Instant := ⟨172799, 500000000, by decide, by decide, by decide⟩
    (86400 * nanosPerSecond ≤ leap.nanosSince midnight ∧
      lock.isDue (Sample.lockedNode midnight) leap = false) ∧
    later.nanosSince leap < 86400 * nanosPerSecond ∧
      lock.isDue (Sample.lockedNode leap) later = true := by
  decide

end LeaseEscrow
