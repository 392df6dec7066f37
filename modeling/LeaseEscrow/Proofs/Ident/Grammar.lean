import LeaseEscrow.Ident.Parse

/-!
# What texts are identifiers

An address is a tag and a data part with the separator between them. The tag holds no digit, so the
first `1` of an address is the separator, and the parts can be told from it. A text is read as an
address exactly when it is put together in this way (`Account.exists_parse_iff`), and as a resource
id exactly when it is spelled as one (`ResourceId.exists_parse_iff`).
-/

namespace LeaseEscrow

/-! ## Letters and digits -/

/-- From `a` to `z`. -/
def IsSmallLetter (c : Char) : Prop := 'a' ≤ c ∧ c ≤ 'z'

/-- From `A` to `Z`. -/
def IsCapital (c : Char) : Prop := 'A' ≤ c ∧ c ≤ 'Z'

/-- From `0` to `9`. -/
def IsDecimalDigit (c : Char) : Prop := '0' ≤ c ∧ c ≤ '9'

theorem isLower_iff {c : Char} : c.isLower = true ↔ IsSmallLetter c := by
  show (decide ('a' ≤ c) && decide (c ≤ 'z')) = true ↔ _
  rw [Bool.and_eq_true, decide_eq_true_eq, decide_eq_true_eq]
  exact Iff.rfl

theorem isUpper_iff {c : Char} : c.isUpper = true ↔ IsCapital c := by
  show decide ('A' ≤ c ∧ c ≤ 'Z') = true ↔ _
  rw [decide_eq_true_eq]
  exact Iff.rfl

theorem isDigit_iff {c : Char} : c.isDigit = true ↔ IsDecimalDigit c := by
  show (decide ('0' ≤ c) && decide (c ≤ '9')) = true ↔ _
  rw [Bool.and_eq_true, decide_eq_true_eq, decide_eq_true_eq]
  exact Iff.rfl

/-! ## Addresses -/

namespace Account

/-- The parts of an address: 1 to 16 small letters, and 8 to 90 small letters and digits. -/
structure Parts (tag data : List Char) : Prop where
  tag_length : 1 ≤ tag.length ∧ tag.length ≤ 16
  tag_letters : ∀ c ∈ tag, IsSmallLetter c
  data_length : 8 ≤ data.length ∧ data.length ≤ 90
  data_chars : ∀ c ∈ data, IsSmallLetter c ∨ IsDecimalDigit c

variable {cs tag data tag' data' : List Char}

theorem parts_iff : (isTag tag && isData data) = true ↔ Parts tag data := by
  simp only [isTag, isData, isDataChar, Bool.and_eq_true, Bool.not_eq_true', Bool.or_eq_true,
    List.isEmpty_eq_false_iff, List.all_eq_true, decide_eq_true_eq, isLower_iff, isDigit_iff]
  constructor
  · rintro ⟨⟨⟨hsome, hmost⟩, htag⟩, hlength, hdata⟩
    exact ⟨⟨List.length_pos_iff.2 hsome, hmost⟩, htag, hlength, hdata⟩
  · rintro ⟨⟨hsome, hmost⟩, htag, hlength, hdata⟩
    exact ⟨⟨⟨List.length_pos_iff.1 hsome, hmost⟩, htag⟩, hlength, hdata⟩

theorem split?_eq_some_iff :
    split? cs = some (tag, data) ↔ '1' ∉ tag ∧ cs = tag ++ '1' :: data := by
  constructor
  · intro h
    unfold split? at h
    have hfirst := List.head?_dropWhile_not (· != '1') cs
    cases hrest : cs.dropWhile (· != '1') with
    | nil =>
      rw [hrest] at h
      cases h
    | cons d rest =>
      rw [hrest] at h hfirst
      cases h
      obtain rfl : d = '1' := by simpa using hfirst
      refine ⟨fun hmem => ?_, ?_⟩
      · exact absurd (List.all_eq_true.1 List.all_takeWhile _ hmem) (by decide)
      · rw [← hrest, List.takeWhile_append_dropWhile]
  · rintro ⟨htag, rfl⟩
    have hbefore : ∀ c ∈ tag, (c != '1') = true := by
      intro c hc
      exact bne_iff_ne.2 fun hone => htag (hone ▸ hc)
    rw [split?, List.dropWhile_append_of_pos hbefore, List.takeWhile_append_of_pos hbefore]
    simp

/-- No digit stands in the tag. -/
theorem Parts.split?_eq (h : Parts tag data) : split? (tag ++ '1' :: data) = some (tag, data) := by
  rw [split?_eq_some_iff]
  exact ⟨fun hmem => absurd (h.tag_letters _ hmem).1 (by decide), rfl⟩

theorem isAddress_iff :
    isAddress cs = true ↔ ∃ tag data, Parts tag data ∧ cs = tag ++ '1' :: data := by
  constructor
  · intro h
    unfold isAddress at h
    cases hsplit : split? cs with
    | none =>
      rw [hsplit] at h
      cases h
    | some parts =>
      rw [hsplit] at h
      exact ⟨parts.1, parts.2, parts_iff.1 h, (split?_eq_some_iff.1 hsplit).2⟩
  · rintro ⟨tag, data, hparts, rfl⟩
    rw [isAddress, hparts.split?_eq]
    exact parts_iff.2 hparts

/-- An address has one tag and one data part, also when there are more of the digit in the data. -/
theorem Parts.unique (h : Parts tag data) (h' : Parts tag' data')
    (heq : tag ++ '1' :: data = tag' ++ '1' :: data') : tag = tag' ∧ data = data' := by
  have hsplit := h'.split?_eq
  rw [← heq, h.split?_eq] at hsplit
  exact Prod.mk.inj (Option.some.inj hsplit)

/-! ### Reading addresses -/

/-- An address breaks no rule of addresses. -/
theorem brokenRule?_eq_none (h : isAddress cs = true) : brokenRule? cs = none := by
  unfold isAddress at h
  unfold brokenRule?
  cases hsplit : split? cs with
  | none =>
    rw [hsplit] at h
    cases h
  | some parts =>
    obtain ⟨tag, data⟩ := parts
    rw [hsplit] at h
    simp only [isData, Bool.and_eq_true, decide_eq_true_eq] at h
    obtain ⟨htag, ⟨hleast, hmost⟩, hchars⟩ := h
    have hsize : ¬ (byteSize data < 8 ∨ 90 < byteSize data) := by
      rw [byteSize_eq_length hchars]
      omega
    simp [htag, hsize, hchars]

theorem parse_text (a : Account) : parse a.text = .ok a := by
  unfold parse
  split
  · next rule hrule =>
    rw [brokenRule?_eq_none a.valid] at hrule
    cases hrule
  · rfl

theorem parse_eq_ok_iff {text : String} {a : Account} : parse text = .ok a ↔ a.text = text := by
  constructor
  · intro h
    unfold parse at h
    split at h
    · cases h
    · cases h
      rfl
  · rintro rfl
    exact parse_text a

theorem exists_parse_iff {text : String} :
    (∃ a, parse text = .ok a) ↔ ∃ tag data, Parts tag data ∧ text.toList = tag ++ '1' :: data := by
  rw [← isAddress_iff]
  constructor
  · rintro ⟨a, ha⟩
    exact parse_eq_ok_iff.1 ha ▸ a.valid
  · intro h
    exact ⟨_, parse_text ⟨text, h⟩⟩

end Account

/-! ## Resource ids -/

namespace ResourceId

/-- 3 to 64 letters and digits, the first of them a letter. -/
structure Spelled (cs : List Char) : Prop where
  length : 3 ≤ cs.length ∧ cs.length ≤ 64
  starts : ∃ c, cs.head? = some c ∧ (IsSmallLetter c ∨ IsCapital c)
  chars : ∀ c ∈ cs, IsSmallLetter c ∨ IsCapital c ∨ IsDecimalDigit c

theorem isId_iff {cs : List Char} : isId cs = true ↔ Spelled cs := by
  have hletter : ∀ c : Char, c.isAlpha = true ↔ IsSmallLetter c ∨ IsCapital c := by
    intro c
    show (c.isUpper || c.isLower) = true ↔ _
    rw [Bool.or_eq_true, isUpper_iff, isLower_iff, or_comm]
  have halphanum : ∀ c : Char,
      c.isAlphanum = true ↔ IsSmallLetter c ∨ IsCapital c ∨ IsDecimalDigit c := by
    intro c
    show (c.isAlpha || c.isDigit) = true ↔ _
    rw [Bool.or_eq_true, hletter, isDigit_iff, or_assoc]
  simp only [isId, Bool.and_eq_true, decide_eq_true_eq, Option.any_eq_true, List.all_eq_true,
    hletter, halphanum]
  constructor
  · rintro ⟨⟨hlength, hstarts⟩, hchars⟩
    exact ⟨hlength, hstarts, hchars⟩
  · rintro ⟨hlength, hstarts, hchars⟩
    exact ⟨⟨hlength, hstarts⟩, hchars⟩

theorem parse_eq_ok_iff {text : String} {id : ResourceId} :
    parse text = .ok id ↔ id.text = text := by
  unfold parse ofText?
  constructor
  · intro h
    split at h
    · next id' hid =>
      cases h
      obtain ⟨hvalid, hid⟩ := Option.dite_none_right_eq_some.1 hid
      cases hid
      rfl
    · cases h
  · rintro rfl
    rw [dif_pos id.valid]

theorem exists_parse_iff {text : String} :
    (∃ id, parse text = .ok id) ↔ Spelled text.toList := by
  rw [← isId_iff]
  constructor
  · rintro ⟨id, hid⟩
    exact parse_eq_ok_iff.1 hid ▸ id.valid
  · intro h
    exact ⟨⟨text, h⟩, parse_eq_ok_iff.2 rfl⟩

end ResourceId

end LeaseEscrow
