import LeaseEscrow.Proofs.Ident.Grammar

/-!
# Reading ids back from bytes

The bytes of an ASCII text are its characters, so that a resource id is read back from its
bytes, and different ids have different bytes. So have different accounts. Ids and addresses are
letters and digits, and none of their bytes is zero.
-/

namespace LeaseEscrow

namespace Text

theorem utf8EncodeChar_of_ascii {c : Char} (h : c.toNat < 128) :
    String.utf8EncodeChar c = [c.val.toUInt8] := by
  apply String.utf8EncodeChar_eq_singleton
  have hv : c.val ≤ 127 := by
    rw [UInt32.le_iff_toNat_le]
    exact Nat.le_of_lt_succ h
  simp [Char.utf8Size, hv]

theorem toNat_byte_of_ascii {c : Char} (h : c.toNat < 128) : c.val.toUInt8.toNat = c.toNat := by
  rw [UInt32.toNat_toUInt8]
  exact Nat.mod_eq_of_lt (Nat.lt_trans h (by decide))

theorem utf8_of_ascii {text : String} (h : ∀ c ∈ text.toList, c.toNat < 128) :
    utf8 text = text.toList.map fun c => c.val.toUInt8 := by
  rw [utf8, List.map_eq_flatMap, List.flatMap_def, List.flatMap_def]
  rw [List.map_congr_left fun c hc => utf8EncodeChar_of_ascii (h c hc)]

theorem ofAscii?_utf8 {text : String} (h : ∀ c ∈ text.toList, c.toNat < 128) :
    ofAscii? (utf8 text) = some text := by
  have hall : (text.toList.map fun c => c.val.toUInt8).all (· < 128) = true := by
    rw [List.all_map, List.all_eq_true]
    intro c hc
    simp only [Function.comp_apply, decide_eq_true_eq, UInt8.lt_iff_toNat_lt,
      toNat_byte_of_ascii (h c hc)]
    exact h c hc
  have hback : (text.toList.map fun c => c.val.toUInt8).map (fun b => Char.ofNat b.toNat) =
      text.toList := by
    rw [List.map_map]
    refine (List.map_congr_left fun c hc => ?_).trans (List.map_id _)
    simp only [Function.comp_apply, toNat_byte_of_ascii (h c hc), Char.ofNat_toNat, id]
  rw [utf8_of_ascii h, ofAscii?, if_pos hall, hback, String.ofList_toList]

end Text

namespace ResourceId

theorem toNat_lt_of_isAlphanum {c : Char} (h : c.isAlphanum = true) : c.toNat < 128 := by
  have hclasses : c.isAlphanum =
      (decide (c.val ≥ 'A'.val ∧ c.val ≤ 'Z'.val) ||
        (decide (c.val ≥ 'a'.val) && decide (c.val ≤ 'z'.val)) ||
        (decide (c.val ≥ '0'.val) && decide (c.val ≤ '9'.val))) := rfl
  have hle : c.val.toNat ≤ 122 := by
    simp only [hclasses, Bool.or_eq_true, Bool.and_eq_true, decide_eq_true_eq, ge_iff_le,
      UInt32.le_iff_toNat_le] at h
    rcases h with (h | h) | h
    · exact Nat.le_trans h.2 (by decide)
    · exact h.2
    · exact Nat.le_trans h.2 (by decide)
  exact Nat.lt_of_le_of_lt hle (by decide)

theorem ascii (id : ResourceId) : ∀ c ∈ id.text.toList, c.toNat < 128 := by
  intro c hc
  have hvalid := id.valid
  simp only [isId, Bool.and_eq_true, List.all_eq_true] at hvalid
  exact toNat_lt_of_isAlphanum (hvalid.2 c hc)

/-- No byte of letters and digits is zero. -/
theorem zero_notMem_utf8 {text : String} (h : ∀ c ∈ text.toList, c.isAlphanum = true) :
    0 ∉ Text.utf8 text := by
  have hascii : ∀ c ∈ text.toList, c.toNat < 128 := fun c hc => toNat_lt_of_isAlphanum (h c hc)
  rw [Text.utf8_of_ascii hascii, List.mem_map]
  rintro ⟨c, hc, hzero⟩
  have hnat : c.toNat = 0 := by rw [← Text.toNat_byte_of_ascii (hascii c hc), hzero]; rfl
  have hnull : c = Char.ofNat 0 := by rw [← hnat, Char.ofNat_toNat]
  have halphanum := h c hc
  rw [hnull] at halphanum
  exact absurd halphanum (by decide)

theorem ofBytes?_bytes (id : ResourceId) : ofBytes? id.bytes = some id := by
  rw [ofBytes?, bytes, Text.ofAscii?_utf8 id.ascii, Option.bind_some, ofText?, dif_pos id.valid]

theorem bytes_inj {id id' : ResourceId} : id.bytes = id'.bytes ↔ id = id' := by
  refine ⟨fun h => ?_, fun h => by rw [h]⟩
  have hread := congrArg ofBytes? h
  rw [ofBytes?_bytes, ofBytes?_bytes] at hread
  exact Option.some.inj hread

theorem zero_notMem_bytes (id : ResourceId) : 0 ∉ id.bytes := by
  have hvalid := id.valid
  simp only [isId, Bool.and_eq_true, List.all_eq_true] at hvalid
  exact zero_notMem_utf8 hvalid.2

end ResourceId

namespace Account

theorem isAlphanum_of_mem (a : Account) : ∀ c ∈ a.text.toList, c.isAlphanum = true := by
  obtain ⟨tag, data, hparts, htext⟩ := isAddress_iff.1 a.valid
  intro c hc
  have hclasses : c.isAlphanum = (c.isUpper || c.isLower || c.isDigit) := rfl
  rw [htext, List.mem_append, List.mem_cons] at hc
  -- The character stands in the tag, it is the separator, or it stands in the data.
  rcases hc with hc | rfl | hc
  · simp [hclasses, isLower_iff.2 (hparts.tag_letters c hc)]
  · decide
  · rcases hparts.data_chars c hc with hletter | hdigit
    · simp [hclasses, isLower_iff.2 hletter]
    · simp [hclasses, isDigit_iff.2 hdigit]

theorem zero_notMem_bytes (a : Account) : 0 ∉ a.bytes :=
  ResourceId.zero_notMem_utf8 a.isAlphanum_of_mem

theorem bytes_inj {a a' : Account} : a.bytes = a'.bytes ↔ a = a' := by
  refine ⟨fun h => ?_, fun h => by rw [h]⟩
  have hascii : ∀ a : Account, ∀ c ∈ a.text.toList, c.toNat < 128 := fun a c hc =>
    ResourceId.toNat_lt_of_isAlphanum (a.isAlphanum_of_mem c hc)
  have hread := congrArg Text.ofAscii? h
  rw [bytes, bytes, Text.ofAscii?_utf8 (hascii a), Text.ofAscii?_utf8 (hascii a')] at hread
  cases a
  cases a'
  cases hread
  rfl

end Account

end LeaseEscrow
