import LeaseEscrow.Proofs.Lease

/-!
# What a lease has been charged

A lease is charged for whole hours from its start on. A settlement adds the hours that have passed
since the ones charged before, up to all its hours, and an extension leaves the charge as it is.
However often a lease is settled, and at whatever times: if it begins outside of leap seconds, what
it is charged depends on the latest of these times only (`hoursCharged_eq_hoursPassed`).
-/

namespace LeaseEscrow

/-- The hours charged by settlements at these times, one after the other: each one charges the whole
hours that have passed since the end of those charged before. -/
def hoursCharged (start : Instant) (times : List Instant) : ℕ :=
  times.foldl (fun n t => n + (start.addHours? n).elim 0 fun last => (t.hoursSince last).toNat) 0

/-- The whole hours from `start` to the latest of the times; none if all come before it. -/
def hoursPassed (start : Instant) (times : List Instant) : ℕ :=
  (times.map fun t => (t.hoursSince start).toNat).foldr max 0

theorem hoursCharged_append_singleton {start last : Instant} {times : List Instant}
    (h : start.addHours? (hoursCharged start times) = some last) (t : Instant) :
    hoursCharged start (times ++ [t]) = hoursCharged start times + (t.hoursSince last).toNat := by
  rw [hoursCharged, List.foldl_append, List.foldl_cons, List.foldl_nil, ← hoursCharged, h]
  rfl

theorem hoursPassed_append_singleton (start : Instant) (times : List Instant) (t : Instant) :
    hoursPassed start (times ++ [t]) =
      max (hoursPassed start times) (t.hoursSince start).toNat := by
  induction times with
  | nil => exact Nat.max_comm _ _
  | cons t' times ih =>
    show max _ (hoursPassed start (times ++ [t])) = max (max _ (hoursPassed start times)) _
    rw [ih, Nat.max_assoc]

/-- Outside of leap seconds it does not matter in how many steps hours are charged. -/
theorem hoursCharged_eq_hoursPassed {start : Instant} {times : List Instant}
    (hstart : start.isLeap = false) (htimes : ∀ t ∈ times, t.isStray = false) :
    hoursCharged start times = hoursPassed start times := by
  have hcharged : ∀ {n : ℕ} {last : Instant}, start.addHours? n = some last →
      times.foldl (fun n t =>
        n + (start.addHours? n).elim 0 fun last => (t.hoursSince last).toNat) n =
      max n (hoursPassed start times) := by
    induction times with
    | nil => exact fun _ => (Nat.max_zero _).symm
    | cons t times ih =>
      intro n last hlast
      have hsince := Instant.hoursSince_addHours? hlast hstart (htimes t List.mem_cons_self)
      have hadvance : n + (t.hoursSince last).toNat = max n (t.hoursSince start).toNat := by omega
      obtain ⟨next, hnext⟩ : ∃ next, last.addHours? (t.hoursSince last).toNat = some next := by
        rcases Nat.eq_zero_or_pos (t.hoursSince last).toNat with hzero | hpos
        · exact ⟨last, hzero ▸ Instant.addHours?_zero last⟩
        · exact Instant.exists_addHours?_of_le (t := t) (by omega)
      rw [Instant.addHours?_addHours? hlast] at hnext
      rw [List.foldl_cons, hlast, Option.elim_some,
        ih (fun t' ht' => htimes t' (List.mem_cons_of_mem _ ht')) hnext, hadvance, Nat.max_assoc]
      rfl
  rw [hoursCharged, hcharged (Instant.addHours?_zero start), Nat.zero_max]

namespace Lease

/-- A lease at price `p`, begun at `start`, that is charged for `n` of its hours. -/
structure Charged (p : Coin) (start : Instant) (n : ℕ) (l : Lease) : Prop where
  price_eq : l.pricePerHour = p
  total_denom : l.total.denom = p.denom
  total_eq : l.total.value = p.value * l.hours.toNat
  settled_denom : l.settled.denom = p.denom
  settled_eq : l.settled.value = p.value * n
  settledAt_eq : start.addHours? n = some l.settledAt

variable {l l' : Lease} {p : Coin} {start : Instant} {n : ℕ}

theorem Charged.plain (h : l.Charged p start n) (hp : p.plain = p) :
    l.plain.Charged p start n where
  price_eq := (congrArg Coin.plain h.price_eq).trans hp
  total_denom := h.total_denom
  total_eq := (Coin.value_plain _).trans h.total_eq
  settled_denom := h.settled_denom
  settled_eq := (Coin.value_plain _).trans h.settled_eq
  settledAt_eq := h.settledAt_eq

theorem charged_start {id : ResourceId} {lessee owner : Account} {hours : UInt64}
    (hp : p.Valid) (h : Lease.start id lessee owner p hours start = .ok l) :
    l.Charged p start 0 := by
  obtain ⟨total, htotal, rfl⟩ := start_eq_ok.1 h
  exact {
    price_eq := rfl, total_denom := (Coin.times_eq_ok.1 htotal).1
    total_eq := Coin.value_times hp.whole htotal, settled_denom := rfl
    settled_eq := (Coin.value_zero _).trans (by rw [Nat.cast_zero, mul_zero])
    settledAt_eq := Instant.addHours?_zero start }

theorem Charged.extend (h : l.Charged p start n) (hl : l.Valid) {extra : UInt64}
    (hextend : l.extend extra = .ok l') : l'.Charged p start n := by
  have hl' := valid_extend hl hextend
  obtain ⟨-, cost, total, -, -, rfl⟩ := extend_eq_ok.1 hextend
  obtain rfl := h.price_eq
  exact {
    price_eq := rfl, total_denom := hl'.total_denom, total_eq := hl'.total_eq
    settled_denom := h.settled_denom, settled_eq := h.settled_eq, settledAt_eq := h.settledAt_eq }

/-- What settling at `now` comes to: nothing to charge, or else the price of the hours from the
`n`th on, up to those that have passed and up to all hours. -/
theorem Charged.accrualAt (h : l.Charged p start n) (hl : l.Valid) (hn : n < l.hours.toNat)
    (now : Instant) :
    (l.accrualAt now = .ok none ∧ (now.hoursSince l.settledAt).toNat = 0) ∨
    ∃ a, l.accrualAt now = .ok (some a) ∧ 0 < a.hours.toNat ∧ a.amount.denom = p.denom ∧
      a.amount.value = p.value * a.hours.toNat ∧
      n + a.hours.toNat = min l.hours.toNat (n + (now.hoursSince l.settledAt).toNat) := by
  obtain rfl := h.price_eq
  have hdue : l.dueHours n now =
      min (now.hoursSince l.settledAt).toNat (l.hours.toNat - n) := rfl
  rcases accrualAt_of_settled_hours hl h.settled_eq hn.le now with
    ⟨hnone, haccrual⟩ | ⟨hpos, amount, hdenom, hvalue, haccrual⟩
  · left
    refine ⟨haccrual, ?_⟩
    omega
  · right
    have hword : (UInt64.ofNat (l.dueHours n now)).toNat = l.dueHours n now :=
      UInt64.toNat_ofNat_of_lt' (l.dueHours_lt n now)
    refine ⟨_, haccrual, hword.symm ▸ hpos, hdenom.trans h.total_denom, ?_, ?_⟩
    · show amount.value = _
      rw [hword, hvalue]
    · show n + (UInt64.ofNat (l.dueHours n now)).toNat = _
      omega

theorem Charged.hoursSince_eq_zero (h : l.Charged p start n) (hl : l.Valid)
    (hn : n < l.hours.toNat) {now : Instant} (hnone : l.accrualAt now = .ok none) :
    (now.hoursSince l.settledAt).toNat = 0 := by
  rcases h.accrualAt hl hn now with ⟨-, hzero⟩ | ⟨a, hsome, -⟩
  · exact hzero
  · cases hnone.symm.trans hsome

theorem Charged.accrual (h : l.Charged p start n) (hl : l.Valid) (hn : n < l.hours.toNat)
    {now : Instant} {a : Accrual} (hsome : l.accrualAt now = .ok (some a)) :
    0 < a.hours.toNat ∧ a.amount.denom = p.denom ∧ a.amount.value = p.value * a.hours.toNat ∧
      n + a.hours.toNat = min l.hours.toNat (n + (now.hoursSince l.settledAt).toNat) := by
  rcases h.accrualAt hl hn now with ⟨hnone, -⟩ | ⟨a', hsome', ha⟩
  · cases hnone.symm.trans hsome
  · obtain rfl := Option.some.inj (Except.ok.inj (hsome.symm.trans hsome'))
    exact ha

/-- Settling hours charges for them. -/
theorem Charged.settle (h : l.Charged p start n) (hl : l.Valid) {a : Accrual}
    (hwhole : a.amount.amount.Whole) (ha : a.amount.value = p.value * a.hours.toNat)
    (hsettle : l.settle a = .ok l') : l'.Charged p start (n + a.hours.toNat) := by
  obtain ⟨settled, settledAt, hadd, -, hlater, rfl⟩ := settle_eq_ok.1 hsettle
  have hvalue := Coin.value_add hl.settled_whole hwhole hadd
  exact {
    price_eq := h.price_eq, total_denom := h.total_denom, total_eq := h.total_eq
    settled_denom := (Coin.add_eq_ok.1 hadd).2.1.trans h.settled_denom
    settled_eq := by
      show settled.value = _
      rw [hvalue, h.settled_eq, ha, Nat.cast_add, mul_add]
    settledAt_eq := (Instant.addHours?_addHours? h.settledAt_eq).symm.trans hlater }

/-- A lease is fully settled when it is charged for all its hours. -/
theorem Charged.isFullySettled_iff (h : l.Charged p start n) (hp : 0 < p.value) :
    l.isFullySettled = true ↔ l.hours.toNat ≤ n := by
  rw [Lease.isFullySettled_iff, h.total_eq, h.settled_eq, mul_le_mul_iff_of_pos_left hp,
    Nat.cast_le]

end Lease

end LeaseEscrow
