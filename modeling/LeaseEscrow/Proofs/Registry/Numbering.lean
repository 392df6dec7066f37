import LeaseEscrow.Proofs.Registry.Tables

/-!
# Numbered ids

The id of a number is `mn` and the number, so that different numbers give different ids. To allocate
an id is to take one number after the other from the counter until its id is free (`Search`). This
ends at the first number whose id is free, unless the counter is at the largest word before, and as
it passes stored resources only, it ends after one more try than there are resources.
-/

namespace LeaseEscrow

namespace ResourceId

theorem text_ofCounter (n : UInt64) : (ofCounter n).text = s!"mn{n}" := by
  apply String.toList_injective
  rw [ofCounter, String.toList_ofList]
  simp [toString]

/-- The text of an id is read back. -/
theorem ofText?_text (id : ResourceId) : ofText? id.text = some id := dif_pos id.valid

theorem ofCounter_injective : Function.Injective ofCounter := by
  intro n m h
  have hdigits : Nat.toDigits 10 n.toNat = Nat.toDigits 10 m.toNat := by
    have htexts := congrArg (fun id : ResourceId => id.text.toList) h
    simpa only [ofCounter, String.toList_ofList, List.cons.injEq, true_and] using htexts
  apply UInt64.toNat_inj.1
  calc
    n.toNat = Nat.ofDigitChars 10 (Nat.toDigits 10 n.toNat) 0 := Nat.ofDigitChars_ten_toDigits.symm
    _ = Nat.ofDigitChars 10 (Nat.toDigits 10 m.toNat) 0 := by rw [hdigits]
    _ = m.toNat := Nat.ofDigitChars_ten_toDigits

end ResourceId

namespace Registry

variable {r r' : Registry} {n m : UInt64}

/-! ## The counter -/

theorem nextId_setNextId (r : Registry) (n : UInt64) : (r.setNextId n).nextId = n :=
  congrArg Market.nextId (market_setNextId r n)

theorem hasResource_setNextId (r : Registry) (n : UInt64) (id : ResourceId) :
    (r.setNextId n).hasResource id = r.hasResource id := by
  show ((r.setNextId n).records.get? (Key.resource id)).isSome = _
  rw [setNextId, get?_set, if_neg (Key.resource_ne_counter id)]
  rfl

theorem setNextId_setNextId (r : Registry) (n m : UInt64) :
    (r.setNextId n).setNextId m ≈ r.setNextId m := by
  rw [equiv_def]
  apply OrderedMap.ext_get?
  intro key
  simp only [setNextId, get?_set]
  split <;> rfl

/-! ## The first free number -/

/-- All numbers from `n` on and below `m` have an id that is stored. -/
def Taken (r : Registry) (n m : UInt64) : Prop :=
  ∀ j, n ≤ j → j < m → r.hasResource (.ofCounter j) = true

/-- From `start` on, `n` is the first number whose id is not stored. -/
structure FirstFree (r : Registry) (start n : UInt64) : Prop where
  le : start ≤ n
  lt : n < largestWord
  free : r.hasResource (.ofCounter n) = false
  taken : r.Taken start n

theorem Taken.cons (hn : n ≠ largestWord) (hstored : r.hasResource (.ofCounter n) = true)
    (h : r.Taken (n + 1) m) : r.Taken n m := by
  intro j hle hlt
  by_cases hj : j = n
  · rwa [hj]
  · apply h j _ hlt
    have hne : j.toNat ≠ n.toNat := fun he => hj (UInt64.toNat_inj.1 he)
    rw [UInt64.le_iff_toNat_le] at hle ⊢
    rw [toNat_succ hn]
    omega

/-- Only stored resources take numbers. -/
theorem Taken.le_add_length (h : r.Taken n m) (hl : r.Laid) :
    m.toNat ≤ n.toNat + r.resourceList.length := by
  let ids := (List.range (m.toNat - n.toNat)).map fun i =>
    ResourceId.ofCounter (UInt64.ofNat (n.toNat + i))
  have hword : ∀ i ∈ List.range (m.toNat - n.toNat),
      (UInt64.ofNat (n.toNat + i)).toNat = n.toNat + i := by
    intro i hi
    have hbound := m.toNat_lt
    rw [List.mem_range] at hi
    exact UInt64.toNat_ofNat_of_lt' (by rw [UInt64.size]; omega)
  have hnodup : ids.Nodup := by
    refine List.Nodup.map_on (fun i hi j hj hid => ?_) List.nodup_range
    have hnat := congrArg UInt64.toNat (ResourceId.ofCounter_injective hid)
    rw [hword i hi, hword j hj] at hnat
    exact Nat.add_left_cancel hnat
  have hsubset : ids ⊆ r.resourceList.map Resource.id := by
    intro id hid
    obtain ⟨i, hi, rfl⟩ := List.mem_map.1 hid
    have hstored : r.hasResource (.ofCounter (UInt64.ofNat (n.toNat + i))) = true := by
      have hlt := List.mem_range.1 hi
      apply h
      · rw [UInt64.le_iff_toNat_le, hword i hi]
        exact Nat.le_add_right _ _
      · rw [UInt64.lt_iff_toNat_lt, hword i hi]
        omega
    rw [hasResource_eq hl, Option.isSome_iff_exists] at hstored
    obtain ⟨x, hx⟩ := hstored
    exact List.mem_map.2 ⟨x, ((isTable_resources hl).mem_iff x).2 (by rwa [id_of_market hl hx]),
      id_of_market hl hx⟩
  have hlength := hnodup.length_le_of_subset hsubset
  rw [List.length_map, List.length_map, List.length_range] at hlength
  omega

/-- The first free number is found, when there is one. -/
theorem firstFree?_spec (r : Registry) (start : UInt64) :
    match r.firstFree? start with
    | some n => r.FirstFree start n
    | none => r.Taken start largestWord := by
  fun_induction firstFree? r start with
  | case1 =>
    intro j hle hlt
    exact absurd (UInt64.lt_of_le_of_lt hle hlt) (UInt64.lt_irrefl _)
  | case2 n hn hstored ih =>
    split at ih
    · next m hm =>
      refine ⟨?_, ih.lt, ih.free, ih.taken.cons hn hstored⟩
      have hle := UInt64.le_iff_toNat_le.1 ih.le
      rw [toNat_succ hn] at hle
      exact UInt64.le_iff_toNat_le.2 (Nat.le_of_succ_le hle)
    · exact ih.cons hn hstored
  | case3 n hn hfree =>
    refine ⟨UInt64.le_refl _, lt_largestWord hn, Bool.not_eq_true _ ▸ hfree, ?_⟩
    intro j hle hlt
    exact absurd (UInt64.lt_of_le_of_lt hle hlt) (UInt64.lt_irrefl _)

theorem firstFree_of_firstFree? {start : UInt64} (h : r.firstFree? start = some n) :
    r.FirstFree start n := by
  have hspec := firstFree?_spec r start
  rwa [h] at hspec

theorem taken_of_firstFree? {start : UInt64} (h : r.firstFree? start = none) :
    r.Taken start largestWord := by
  have hspec := firstFree?_spec r start
  rwa [h] at hspec

/-! ## Trying one number after the other -/

theorem takeId_of_ne (h : r.nextId ≠ largestWord) :
    r.takeId = .ok (r.nextId, r.setNextId (r.nextId + 1)) := if_neg h

theorem takeId_eq_ok (h : r.takeId = .ok (n, r')) :
    n = r.nextId ∧ n ≠ largestWord ∧ r' = r.setNextId (n + 1) := by
  rw [takeId] at h
  split at h
  · cases h
  · next hne =>
    cases h
    exact ⟨rfl, hne, rfl⟩

/-- How an id is looked for: a number is taken from the counter, and then the next one while its id
is stored. The search ends with a number, or without one where the counter has none left. -/
inductive Search : Registry → Nat → Option UInt64 → Registry → Prop where
  | usedUp {r : Registry} (hlast : r.nextId = largestWord) : Search r 0 none r
  | found {r r' : Registry} {n : UInt64} (htake : r.takeId = .ok (n, r'))
      (hfree : r'.hasResource (.ofCounter n) = false) : Search r 1 (some n) r'
  | next {r r₁ r' : Registry} {n : UInt64} {tries : Nat} {result : Option UInt64}
      (htake : r.takeId = .ok (n, r₁)) (hstored : r₁.hasResource (.ofCounter n) = true)
      (hrest : Search r₁ tries result r') : Search r (tries + 1) result r'

variable {tries : Nat} {result : Option UInt64}

/-- Every search comes to an end, and it finds the first free number. -/
theorem exists_search (r : Registry) :
    ∃ tries r', r.Search tries (r.firstFree? r.nextId) r' := by
  -- On the way the counter moves on, and which resources are stored stays as it is.
  suffices h : ∀ n (s : Registry), s.nextId = n → (∀ id, s.hasResource id = r.hasResource id) →
      ∃ tries r', s.Search tries (r.firstFree? n) r' from h r.nextId r rfl fun _ => rfl
  intro n
  fun_induction firstFree? r n with
  | case1 =>
    intro s hnext _
    exact ⟨0, s, .usedUp hnext⟩
  | case2 n hn hstored ih =>
    rintro s rfl hsame
    have hsame' : ∀ id, (s.setNextId (s.nextId + 1)).hasResource id = r.hasResource id :=
      fun id => (hasResource_setNextId ..).trans (hsame id)
    obtain ⟨tries, r', hsearch⟩ := ih _ (nextId_setNextId ..) hsame'
    exact ⟨tries + 1, r', .next (takeId_of_ne hn) ((hsame' _).trans hstored) hsearch⟩
  | case3 n hn hfree =>
    rintro s rfl hsame
    refine ⟨1, _, .found (takeId_of_ne hn) ?_⟩
    rw [hasResource_setNextId, hsame]
    exact Bool.not_eq_true _ ▸ hfree

/-- Each try moves the counter on by one. -/
theorem Search.nextId_eq (h : r.Search tries result r') :
    r'.nextId.toNat = r.nextId.toNat + tries := by
  induction h with
  | usedUp => rfl
  | found htake =>
    obtain ⟨rfl, hne, rfl⟩ := takeId_eq_ok htake
    rw [nextId_setNextId, toNat_succ hne]
  | next htake _ _ ih =>
    obtain ⟨rfl, hne, rfl⟩ := takeId_eq_ok htake
    rw [ih, nextId_setNextId, toNat_succ hne]
    omega

/-- The counter is left after the number that was found. -/
theorem Search.of_some (h : r.Search tries (some n) r') :
    n ≠ largestWord ∧ r' ≈ r.setNextId (n + 1) := by
  generalize hresult : some n = result at h
  induction h with
  | usedUp => cases hresult
  | found htake =>
    cases hresult
    obtain ⟨-, hne, rfl⟩ := takeId_eq_ok htake
    exact ⟨hne, rfl⟩
  | next htake _ _ ih =>
    obtain ⟨-, -, rfl⟩ := takeId_eq_ok htake
    obtain ⟨hne, hequiv⟩ := ih hresult
    exact ⟨hne, hequiv.trans (setNextId_setNextId ..)⟩

/-- A search without a result has used the counter up. -/
theorem Search.of_none (h : r.Search tries none r') : r'.nextId = largestWord := by
  generalize hresult : none = result at h
  induction h with
  | usedUp hlast => exact hlast
  | found => cases hresult
  | next _ _ _ ih => exact ih hresult

/-- What a search finds is the first free number. -/
theorem Search.result_eq (h : r.Search tries result r') : result = r.firstFree? r.nextId := by
  induction h with
  | usedUp hlast => rw [firstFree?.eq_def, dif_pos hlast]
  | found htake hfree =>
    obtain ⟨rfl, hne, rfl⟩ := takeId_eq_ok htake
    rw [hasResource_setNextId] at hfree
    rw [firstFree?.eq_def, dif_neg hne, if_neg (Bool.eq_false_iff.1 hfree)]
  | next htake hstored _ ih =>
    obtain ⟨rfl, hne, rfl⟩ := takeId_eq_ok htake
    rw [hasResource_setNextId] at hstored
    rw [firstFree?.eq_def, dif_neg hne, if_pos hstored, ih, nextId_setNextId]
    exact firstFree?_congr (hasResource_setNextId _ _) _

/-- A search is what the allocation of an id comes to. -/
theorem Search.allocateId_eq (h : r.Search tries (some n) r') :
    ∃ r₁, r.allocateId = .ok (.ofCounter n, r₁) ∧ r₁ ≈ r' := by
  refine ⟨r.setNextId (n + 1), ?_, h.of_some.2.symm⟩
  rw [allocateId, ← h.result_eq]
  rfl

/-- There is at most one more try than there are resources. -/
theorem Search.tries_le (h : r.Search tries result r') (hl : r.Laid) :
    tries ≤ r.resourceList.length + 1 := by
  have hnext := h.nextId_eq
  cases result with
  | none =>
    have hbound := (taken_of_firstFree? h.result_eq.symm).le_add_length hl
    rw [h.of_none] at hnext
    omega
  | some n =>
    obtain ⟨hne, hequiv⟩ := h.of_some
    have hbound := (firstFree_of_firstFree? h.result_eq.symm).taken.le_add_length hl
    rw [nextId_congr hequiv, nextId_setNextId, toNat_succ hne] at hnext
    omega

end Registry

end LeaseEscrow
