import LeaseEscrow.Proofs.Decimal.Digits

/-!
# Reading written decimals

A decimal that was written reads back with its magnitude and its scale; only the sign of a zero
is lost (`ofText?_toText`).
-/

namespace LeaseEscrow.Decimal

/-- Digits that fit are taken one by one. -/
theorem readMagnitude?_digits {cs : List Char} (hcs : ∀ c ∈ cs, c.isDigit = true)
    (point digits : Bool) {magnitude scale : Nat}
    (hfits : Nat.ofDigitChars 10 cs magnitude < capacity)
    (hscale : point = true → scale + cs.length ≤ 28) (rest : List Char) :
    readMagnitude? point digits magnitude scale (cs ++ rest) =
      readMagnitude? point (digits || !cs.isEmpty) (Nat.ofDigitChars 10 cs magnitude)
        (if point then scale + cs.length else scale) rest := by
  induction cs generalizing digits magnitude scale with
  | nil => cases point <;> simp
  | cons c cs ih =>
    have hc : c.isDigit = true := hcs c List.mem_cons_self
    rw [Nat.ofDigitChars_cons] at hfits
    have hnext : 10 * magnitude + (c.toNat - '0'.toNat) < capacity :=
      Nat.lt_of_le_of_lt (le_ofDigitChars cs _) hfits
    have hroom : point = true → scale < 28 := by
      intro hpoint
      have := hscale hpoint
      rw [List.length_cons] at this
      omega
    have hstep : readMagnitude? point digits magnitude scale (c :: (cs ++ rest)) =
        readMagnitude? point true (10 * magnitude + (c.toNat - '0'.toNat))
          (if point then scale + 1 else scale) (cs ++ rest) := by
      rw [readMagnitude?]
      · simp only [digit?_eq hc]
        rw [if_pos ⟨hnext, hroom⟩]
      · rintro rfl; cases hc
      · rintro rfl; cases hc
    rw [List.cons_append, hstep, ih (fun d hd => hcs d (List.mem_cons_of_mem _ hd)) true hfits,
      Nat.ofDigitChars_cons]
    · cases point <;> simp [Nat.add_comm, Nat.add_left_comm]
    · intro hpoint
      have := hscale hpoint
      rw [List.length_cons] at this
      rw [if_pos hpoint]
      omega

theorem readMagnitude?_whole {n : Nat} (hn : n < capacity) (rest : List Char) :
    readMagnitude? false false 0 0 (Nat.toDigits 10 n ++ rest) =
      readMagnitude? false true n 0 rest := by
  have hfits : Nat.ofDigitChars 10 (Nat.toDigits 10 n) 0 < capacity := by
    rwa [Nat.ofDigitChars_ten_toDigits]
  have hempty : (Nat.toDigits 10 n).isEmpty = false :=
    List.isEmpty_eq_false_iff.2 Nat.toDigits_ne_nil
  rw [readMagnitude?_digits (fun _ => isDigit_of_mem_toDigits) false false hfits nofun,
    Nat.ofDigitChars_ten_toDigits, hempty]
  rfl

/-- Behind the point stand as many digits as the scale says. -/
theorem readMagnitude?_places {m n scale : Nat} (hpos : 0 < scale) (hscale : scale ≤ 28)
    (hn : n < tenPow scale) (hfits : tenPow scale * m + n < capacity) :
    readMagnitude? true true m 0 (paddedDigits scale n) = some (tenPow scale * m + n, scale) := by
  have hlength := length_paddedDigits hpos hn
  have hvalue : Nat.ofDigitChars 10 (paddedDigits scale n) m = tenPow scale * m + n := by
    rw [Nat.ofDigitChars_eq_ofDigitChars_zero, hlength, ofDigitChars_paddedDigits]
    rfl
  have hroom : true = true → 0 + (paddedDigits scale n).length ≤ 28 := fun _ => by omega
  have hread := readMagnitude?_digits (fun _ => isDigit_of_mem_paddedDigits) true true
    (hvalue.symm ▸ hfits) hroom []
  rw [List.append_nil, hvalue, hlength] at hread
  rw [hread]
  simp [readMagnitude?]

theorem readMagnitude?_magnitudeText {n scale : Nat} (hn : n < capacity) (hscale : scale ≤ 28) :
    readMagnitude? false false 0 0 (magnitudeText n scale) = some (n, scale) := by
  rw [magnitudeText, readMagnitude?_whole (Nat.lt_of_le_of_lt (Nat.div_le_self _ _) hn)]
  by_cases hzero : scale = 0
  · subst hzero
    rw [if_pos rfl, tenPow_zero, Nat.div_one]
    rfl
  · have hvalue : tenPow scale * (n / tenPow scale) + n % tenPow scale = n := Nat.div_add_mod ..
    have hplaces := readMagnitude?_places (Nat.pos_of_ne_zero hzero) hscale
      (Nat.mod_lt n (tenPow_pos scale)) (hvalue.symm ▸ hn)
    rw [if_neg hzero, readMagnitude?, if_neg Bool.false_ne_true, hplaces, hvalue]

theorem splitSign_chars (a : Decimal) :
    splitSign a.chars = (a.negative, magnitudeText a.magnitude a.scale) := by
  unfold chars
  cases a.negative with
  | true => rfl
  | false =>
    -- Without a sign, a digit comes first.
    have hdigit : ∀ c ∈ Nat.toDigits 10 (a.magnitude / tenPow a.scale), c.isDigit = true :=
      fun _ => isDigit_of_mem_toDigits
    rw [magnitudeText]
    cases hchars : Nat.toDigits 10 (a.magnitude / tenPow a.scale) with
    | nil => exact absurd hchars Nat.toDigits_ne_nil
    | cons c cs =>
      have hc := hdigit c (hchars ▸ List.mem_cons_self)
      simp only [Bool.false_eq_true, if_false, List.nil_append, List.cons_append]
      unfold splitSign
      split
      · next h => cases h; cases hc
      · next h => cases h; cases hc
      · rfl

theorem ofParts?_signed (a : Decimal) :
    ofParts? (signed a.negative a.magnitude) a.scale = some a.plain := by
  rw [ofParts?, natAbs_signed, ofSigned?_eq_some]
  refine ⟨?_, rfl, rfl⟩
  have hsign : signed a.negative a.magnitude < 0 ↔ a.negative = true ∧ a.magnitude ≠ 0 := by
    unfold signed
    cases a.negative
    · simp
    · simp [Nat.pos_iff_ne_zero]
  rw [Bool.eq_iff_iff, decide_eq_true_eq, hsign]
  simp [plain, isZero]

/-- What was written reads back, a zero without its sign. -/
theorem ofText?_toText (a : Decimal) : ofText? a.toText = some a.plain := by
  have hplain : ofPlain? a.chars = some a.plain := by
    rw [ofPlain?, splitSign_chars]
    simp only [readMagnitude?_magnitudeText a.magnitude_lt a.scale_le, ofParts?_signed]
  rw [ofText?, toText, String.toList_ofList, hplain]

end LeaseEscrow.Decimal
